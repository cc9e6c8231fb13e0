import ModuleAudit.Proofs.Build.Complete
import ModuleAudit.Proofs.Visibility.Thinned

/-! Spreading does not depend on the order in which packages are listed. Two indices with the same modules and edges,
whose modules hold the same packages in whatever order, keep the same view of what is visible through what
(`SameView.spreadAll`): a call hands on a set of packages, and which calls are made depends on the set alone. -/

namespace ModuleAudit
set_option autoImplicit false

namespace Index

/-- Two indices with the same modules and edges in which the same packages are visible through the same modules. -/
structure SameView (i j : Index) : Prop where
  size_eq : i.modules.size = j.modules.size
  declarationsOf_eq : i.declarationsOf = j.declarationsOf
  dependentsOf_eq : i.dependentsOf = j.dependentsOf
  packagesOf_iff : ∀ id package, package ∈ i.packagesOf id ↔ package ∈ j.packagesOf id
  dependenciesOf_eq : i.dependenciesOf = j.dependenciesOf
  through_eq : i.through = j.through
  reExportsOf_eq : i.reExportsOf = j.reExportsOf

theorem declarationsOf_congr {i j : Index} (h : i.ground = j.ground) : i.declarationsOf = j.declarationsOf := by
  funext id
  rw [declarationsOf, declarationsOf, map_of_ground_eq (fun _ => rfl) h]

theorem dependenciesOf_provideAt {index : Index} {edge : DependentEdge} (hlt : edge.dependent < index.modules.size)
    (source : ModuleId) (packages : List String) (id : ModuleId) :
    (index.provideAt source edge packages).dependenciesOf id =
      index.dependenciesOf id ++ if id = edge.dependent then [⟨source, edge.declaration⟩] else [] := by
  rw [dependenciesOf, provideAt, getElem?_updateModule]
  by_cases h : edge.dependent = id
  · subst h
    simp [dependenciesOf, Array.getElem?_eq_getElem hlt, ModuleRecord.provide]
  · have h' : id ≠ edge.dependent := fun e => h e.symm
    simp [dependenciesOf, h, h']

theorem dependenciesOf_reExportAt (index : Index) (source : ModuleId) (edge : DependentEdge) :
    (index.reExportAt source edge).dependenciesOf = index.dependenciesOf := by
  funext id
  rw [dependenciesOf, reExportAt, getElem?_updateModule]
  split
  · rw [Option.map_map]
    rfl
  · rfl

section Step

variable {i j : Index} (h : SameView i j)
include h

theorem SameView.imports_eq : i.imports = j.imports := by
  funext edge package
  rw [imports, imports, declared_eq, declared_eq, h.declarationsOf_eq]

theorem SameView.exports_eq : i.exports = j.exports := by
  funext edge package
  rw [exports, exports, declared_eq, declared_eq, h.declarationsOf_eq]

/-- A change on both sides that leaves the ground alone has to keep three views. -/
theorem SameView.of_ground {i' j' : Index} (hi : i'.ground = i.ground) (hj : j'.ground = j.ground)
    (hdependencies : i'.dependenciesOf = j'.dependenciesOf) (hthrough : i'.through = j'.through)
    (hre : i'.reExportsOf = j'.reExportsOf) : SameView i' j' where
  size_eq := by rw [size_congr hi, size_congr hj, h.size_eq]
  declarationsOf_eq := by rw [declarationsOf_congr hi, declarationsOf_congr hj, h.declarationsOf_eq]
  dependentsOf_eq := by rw [dependentsOf_congr hi, dependentsOf_congr hj, h.dependentsOf_eq]
  packagesOf_iff := by
    rw [packagesOf_congr hi, packagesOf_congr hj]
    exact h.packagesOf_iff
  dependenciesOf_eq := hdependencies
  through_eq := hthrough
  reExportsOf_eq := hre

variable {edge : DependentEdge} {packages packages' : List String}

theorem SameView.provideAt (source : ModuleId) (hlt : edge.dependent < i.modules.size)
    (hp : ∀ package, package ∈ packages ↔ package ∈ packages') :
    SameView (i.provideAt source edge packages) (j.provideAt source edge packages') := by
  have hlt' : edge.dependent < j.modules.size := h.size_eq ▸ hlt
  refine h.of_ground (ground_provideAt ..) (ground_provideAt ..) ?_ ?_ ?_
  · funext id
    rw [dependenciesOf_provideAt hlt, dependenciesOf_provideAt hlt', h.dependenciesOf_eq]
  · funext id package
    simp only [through_provideAt hlt, through_provideAt hlt', h.through_eq, hp]
  · funext id
    rw [reExportsOf_provideAt, reExportsOf_provideAt, h.reExportsOf_eq]

theorem SameView.reExportAt (source : ModuleId) (hlt : edge.dependent < i.modules.size) :
    SameView (i.reExportAt source edge) (j.reExportAt source edge) := by
  have hlt' : edge.dependent < j.modules.size := h.size_eq ▸ hlt
  refine h.of_ground (ground_reExportAt ..) (ground_reExportAt ..) ?_ ?_ ?_
  · rw [dependenciesOf_reExportAt, dependenciesOf_reExportAt, h.dependenciesOf_eq]
  · funext id package
    rw [through_reExportAt, through_reExportAt, h.through_eq]
  · funext id
    rw [reExportsOf_reExportAt hlt, reExportsOf_reExportAt hlt', h.reExportsOf_eq]

theorem SameView.mem_taken_iff (edge : DependentEdge) (hp : ∀ package, package ∈ packages ↔ package ∈ packages')
    (package : String) : package ∈ i.taken edge packages ↔ package ∈ j.taken edge packages' := by
  rw [mem_taken, mem_taken, hp, h.imports_eq]

theorem SameView.mem_handedOn_iff (edge : DependentEdge) (hp : ∀ package, package ∈ packages ↔ package ∈ packages')
    (package : String) : package ∈ i.handedOn edge packages ↔ package ∈ j.handedOn edge packages' := by
  rw [mem_handedOn, mem_handedOn, hp, h.imports_eq, h.exports_eq]

end Step

/-! ## Runs -/

theorem eq_nil_iff_of_mem_iff {α : Type} {l l' : List α} (h : ∀ a, a ∈ l ↔ a ∈ l') : l = [] ↔ l' = [] := by
  simp only [List.eq_nil_iff_forall_not_mem, h]

/-- Going on with the same packages, in whatever order, keeps the views the same. -/
def KeepsView (further : List String → ModuleId → Index → Index) : Prop :=
  ∀ packages packages' source i j, (∀ package, package ∈ packages ↔ package ∈ packages') → SameView i j →
    SameView (further packages source i) (further packages' source j)

section Runs

variable {further : List String → ModuleId → Index → Index} {packages packages' : List String}
  (hp : ∀ package, package ∈ packages ↔ package ∈ packages')
include hp

theorem SameView.spreadAlong (hf : KeepsView further) {i j : Index} (h : SameView i j) (source : ModuleId)
    (edge : DependentEdge) :
    SameView (spreadAlong further packages source i edge) (spreadAlong further packages' source j edge) := by
  have htaken := h.mem_taken_iff edge hp
  have hhanded := h.mem_handedOn_iff edge hp
  have hi : i.ground = i.ground := rfl
  have hj : j.ground = j.ground := rfl
  rw [spreadAlong_eq hi, spreadAlong_eq hj]
  by_cases hnone : i.taken edge packages = []
  · rw [if_pos hnone, if_pos ((eq_nil_iff_of_mem_iff htaken).mp hnone)]
    exact h
  · have hlt : edge.dependent < i.modules.size := dependent_lt_of_taken hi hnone
    have hprovided := h.provideAt source hlt htaken
    have hquiet : ((∀ package ∈ i.taken edge packages, source ∈ i.through edge.dependent package) ∨
        i.handedOn edge packages = []) ↔
        ((∀ package ∈ j.taken edge packages', source ∈ j.through edge.dependent package) ∨
          j.handedOn edge packages' = []) := by
      simp only [htaken, h.through_eq, eq_nil_iff_of_mem_iff hhanded]
    rw [if_neg hnone, if_neg fun e => hnone ((eq_nil_iff_of_mem_iff htaken).mpr e)]
    by_cases hstop : (∀ package ∈ i.taken edge packages, source ∈ i.through edge.dependent package) ∨
        i.handedOn edge packages = []
    · rw [if_pos hstop, if_pos (hquiet.mp hstop)]
      exact hprovided
    · rw [if_neg hstop, if_neg fun e => hstop (hquiet.mpr e)]
      refine hf _ _ _ _ _ hhanded (hprovided.reExportAt source ?_)
      rw [size_congr (ground_provideAt ..)]
      exact hlt

theorem SameView.foldl_spreadAlong (hf : KeepsView further) (edges : List DependentEdge) {i j : Index}
    (h : SameView i j) (source : ModuleId) :
    SameView (edges.foldl (Index.spreadAlong further packages source) i)
      (edges.foldl (Index.spreadAlong further packages' source) j) := by
  induction edges generalizing i j with
  | nil => exact h
  | cons edge rest ih => exact ih (h.spreadAlong hp hf source edge)

end Runs

theorem keepsView_spreadIn : ∀ (room : Nat) (path : List ModuleId), KeepsView (spreadIn room path)
  | 0, _ => fun _ _ _ _ _ _ h => h
  | room + 1, path => by
    intro packages packages' source i j hp h
    have hedges : (i.modules[source]?.map (·.dependents)).getD [] = (j.modules[source]?.map (·.dependents)).getD [] :=
      congrFun h.dependentsOf_eq source
    rw [spreadIn, spreadIn]
    split
    · exact h
    · rw [hedges]
      exact h.foldl_spreadAlong hp (keepsView_spreadIn room (source :: path)) _ source

theorem SameView.spreadAll {i j : Index} (h : SameView i j) : SameView i.spreadAll j.spreadAll := by
  have hfold : ∀ (ids : List ModuleId) {i j : Index}, SameView i j →
      SameView (ids.foldl (fun index id => index.spread id (index.packagesOf id)) i)
        (ids.foldl (fun index id => index.spread id (index.packagesOf id)) j) := by
    intro ids
    induction ids with
    | nil => exact fun h => h
    | cons id rest ih =>
      intro i j h
      have hnext : SameView (i.spread id (i.packagesOf id)) (j.spread id (j.packagesOf id)) := by
        rw [spread, spread, h.size_eq]
        exact keepsView_spreadIn _ _ _ _ _ _ _ (h.packagesOf_iff id) h
      exact ih hnext
  rw [Index.spreadAll, Index.spreadAll, h.size_eq]
  exact hfold _ h

end Index

end ModuleAudit
