import Mathlib.Logic.Relation
import ModuleAudit.Proofs.Visibility.View

/-! Spreading as a run of two kinds of steps: packages become visible along an edge, or an edge is
noted as passing packages on. A run leaves the ground of the index alone and only adds to what is
visible and passed on. `Step carried` keeps to packages that `carried` allows at the module that the
edge leads to. -/

namespace ModuleAudit
set_option autoImplicit false

namespace Index

/-- Makes packages visible along an edge that leads to `source`. -/
def provideAt (index : Index) (source : ModuleId) (edge : DependentEdge) (packages : List String) : Index :=
  index.updateModule edge.dependent (·.provide packages ⟨source, edge.declaration⟩)

/-- Notes that an edge that leads to `source` passes packages on. -/
def reExportAt (index : Index) (source : ModuleId) (edge : DependentEdge) : Index :=
  index.updateModule edge.dependent (·.reExport source)

/-- One change that spreading makes. -/
inductive Step (carried : ModuleId → String → Prop) : Index → Index → Prop
  | provide {index : Index} {source : ModuleId} {edge : DependentEdge} {packages : List String}
      (member : edge ∈ index.dependentsOf source) (nonempty : packages ≠ [])
      (arrive : ∀ package ∈ packages, carried source package ∧ index.imports edge package = true) :
      Step carried index (index.provideAt source edge packages)
  | reExport {index : Index} {source : ModuleId} {edge : DependentEdge} {package : String}
      (member : edge ∈ index.dependentsOf source) (arrives : carried source package)
      (imported : index.imports edge package = true) (exported : index.exports edge package = true) :
      Step carried index (index.reExportAt source edge)

/-- Any number of changes. -/
abbrev Steps (carried : ModuleId → String → Prop) : Index → Index → Prop :=
  Relation.ReflTransGen (Step carried)

/-! ## What the changes do -/

section Changes

variable (index : Index) (source : ModuleId) (edge : DependentEdge) (packages : List String)

@[simp] theorem ground_provideAt : (index.provideAt source edge packages).ground = index.ground :=
  ground_updateModule index edge.dependent fun _ => rfl

@[simp] theorem ground_reExportAt : (index.reExportAt source edge).ground = index.ground :=
  ground_updateModule index edge.dependent fun _ => rfl

@[simp] theorem reExportsOf_provideAt :
    (index.provideAt source edge packages).reExportsOf = index.reExportsOf := by
  funext id
  rw [reExportsOf, provideAt, getElem?_updateModule]
  split
  · rw [Option.map_map]
    rfl
  · rfl

@[simp] theorem through_reExportAt : (index.reExportAt source edge).through = index.through := by
  funext id package
  rw [through, reExportAt, getElem?_updateModule]
  split
  · rw [Option.map_map]
    rfl
  · rfl

variable {index edge}

theorem mem_through_provideAt (hlt : edge.dependent < index.modules.size) (id target : ModuleId)
    (package : String) :
    target ∈ (index.provideAt source edge packages).through id package ↔
      target ∈ index.through id package ∨ id = edge.dependent ∧ package ∈ packages ∧ target = source := by
  rw [through, provideAt, getElem?_updateModule]
  by_cases h : edge.dependent = id
  · subst h
    rw [if_pos rfl, Array.getElem?_eq_getElem hlt, through, Array.getElem?_eq_getElem hlt]
    simp only [Option.map_some, Option.getD_some, ModuleRecord.mem_through_provide, true_and]
  · have h' : id ≠ edge.dependent := fun e => h e.symm
    simp only [if_neg h, through, h', false_and, or_false]

theorem mem_reExportsOf_reExportAt (hlt : edge.dependent < index.modules.size) (id target : ModuleId) :
    target ∈ (index.reExportAt source edge).reExportsOf id ↔
      target ∈ index.reExportsOf id ∨ id = edge.dependent ∧ target = source := by
  rw [reExportsOf, reExportAt, getElem?_updateModule]
  by_cases h : edge.dependent = id
  · subst h
    rw [if_pos rfl, Array.getElem?_eq_getElem hlt, reExportsOf, Array.getElem?_eq_getElem hlt]
    simp [ModuleRecord.reExport]
  · have h' : id ≠ edge.dependent := fun e => h e.symm
    simp only [if_neg h, reExportsOf, h', false_and, or_false]

end Changes

section Runs

variable {carried : ModuleId → String → Prop} {i j : Index}

theorem Step.ground_eq (h : Step carried i j) : j.ground = i.ground := by
  cases h with
  | provide => exact ground_provideAt ..
  | reExport => exact ground_reExportAt ..

theorem Step.through_mono (h : Step carried i j) {id target : ModuleId} {package : String}
    (ht : target ∈ i.through id package) : target ∈ j.through id package := by
  cases h with
  | @provide source edge packages member nonempty arrive =>
    obtain ⟨p, hp⟩ := List.exists_mem_of_ne_nil packages nonempty
    have hlt := lt_size_of_imports (arrive p hp).2
    exact (mem_through_provideAt source packages hlt id target package).mpr (Or.inl ht)
  | reExport => simpa using ht

theorem Step.reExports_mono (h : Step carried i j) {id target : ModuleId}
    (ht : target ∈ i.reExportsOf id) : target ∈ j.reExportsOf id := by
  cases h with
  | provide => simpa using ht
  | @reExport source edge package member arrives imported exported =>
    have hlt := lt_size_of_imports imported
    exact (mem_reExportsOf_reExportAt source hlt id target).mpr (Or.inl ht)

theorem Steps.ground_eq (h : Steps carried i j) : j.ground = i.ground := by
  induction h with
  | refl => rfl
  | tail _ hs ih => exact hs.ground_eq.trans ih

theorem Steps.through_mono (h : Steps carried i j) {id target : ModuleId} {package : String}
    (ht : target ∈ i.through id package) : target ∈ j.through id package := by
  induction h with
  | refl => exact ht
  | tail _ hs ih => exact hs.through_mono ih

theorem Steps.reExports_mono (h : Steps carried i j) {id target : ModuleId}
    (ht : target ∈ i.reExportsOf id) : target ∈ j.reExportsOf id := by
  induction h with
  | refl => exact ht
  | tail _ hs ih => exact hs.reExports_mono ih

end Runs

/-! ## Spreading is a run -/

section Along

variable {base index : Index} {edge : DependentEdge}

/-- What the declaration of an edge imports of some packages. -/
def taken (base : Index) (edge : DependentEdge) (packages : List String) : List String :=
  packages.filter (base.imports edge)

/-- What the declaration of an edge imports and exports of some packages. -/
def handedOn (base : Index) (edge : DependentEdge) (packages : List String) : List String :=
  (base.taken edge packages).filter (base.exports edge)

theorem mem_taken {packages : List String} {package : String} :
    package ∈ base.taken edge packages ↔ package ∈ packages ∧ base.imports edge package = true :=
  List.mem_filter

theorem mem_handedOn {packages : List String} {package : String} :
    package ∈ base.handedOn edge packages ↔
      (package ∈ packages ∧ base.imports edge package = true) ∧ base.exports edge package = true := by
  rw [handedOn, List.mem_filter, mem_taken]

variable (hg : index.ground = base.ground)
include hg

theorem dependent_lt_of_taken {packages : List String} (hne : base.taken edge packages ≠ []) :
    edge.dependent < index.modules.size := by
  obtain ⟨p, hp⟩ := List.exists_mem_of_ne_nil _ hne
  rw [size_congr hg]
  exact lt_size_of_imports (mem_taken.mp hp).2

/-- What spreading along one edge does: nothing if nothing is imported, no more than making packages
visible if none of them is new or none is exported, and else a call for the dependent with all that is
exported. -/
theorem spreadAlong_cases (further : List String → ModuleId → Index → Index) (packages : List String)
    (source : ModuleId) (edge : DependentEdge) :
    base.taken edge packages = [] ∧ spreadAlong further packages source index edge = index ∨
    base.taken edge packages ≠ [] ∧
      ((∀ package ∈ base.taken edge packages, source ∈ index.through edge.dependent package) ∨
        base.handedOn edge packages = []) ∧
      spreadAlong further packages source index edge =
        index.provideAt source edge (base.taken edge packages) ∨
    (∃ package ∈ base.taken edge packages, source ∉ index.through edge.dependent package) ∧
      base.handedOn edge packages ≠ [] ∧
      spreadAlong further packages source index edge =
        further (base.handedOn edge packages) edge.dependent
          ((index.provideAt source edge (base.taken edge packages)).reExportAt source edge) := by
  have himp : index.imported edge packages = base.taken edge packages := by
    rw [imported_eq, imports_congr hg]
    rfl
  have hexp : (index.provideAt source edge (base.taken edge packages)).exported edge
      (base.taken edge packages) = base.handedOn edge packages := by
    rw [exported_eq, exports_congr ((ground_provideAt ..).trans hg)]
    rfl
  have hprov : index.updateModule edge.dependent
      (·.provide (base.taken edge packages) ⟨source, edge.declaration⟩) =
        index.provideAt source edge (base.taken edge packages) := rfl
  simp only [spreadAlong, himp, hprov, hexp]
  by_cases hi : base.taken edge packages = []
  · exact Or.inl ⟨hi, by simp [hi]⟩
  · have hempty : (base.taken edge packages).isEmpty = false := by simpa using hi
    have hnew := newlyVisible_eq_zero source (base.taken edge packages) (dependent_lt_of_taken hg hi)
    rw [hempty]
    by_cases hz : index.newlyVisible source edge (base.taken edge packages) = 0
    · exact Or.inr (Or.inl ⟨hi, Or.inl (hnew.mp hz), by simp [hz]⟩)
    · by_cases he : base.handedOn edge packages = []
      · exact Or.inr (Or.inl ⟨hi, Or.inr he, by simp [hz, he]⟩)
      · have hex : ∃ p ∈ base.taken edge packages, source ∉ index.through edge.dependent p := by
          apply Classical.not_not.mp
          intro hall
          refine hz (hnew.mpr fun q hq => ?_)
          exact Classical.not_not.mp fun hn => hall ⟨q, hq, hn⟩
        exact Or.inr (Or.inr ⟨hex, he, by simp [hz, he, reExportAt]⟩)

variable {carried : ModuleId → String → Prop} {packages : List String} {source : ModuleId}
  (hp : ∀ package ∈ packages, carried source package) (hmem : edge ∈ base.dependentsOf source)
include hp hmem

theorem step_provideAt (hne : base.taken edge packages ≠ []) :
    Step carried index (index.provideAt source edge (base.taken edge packages)) := by
  refine Step.provide ?_ hne ?_
  · rw [dependentsOf_congr hg]
    exact hmem
  · intro p hpt
    rw [imports_congr hg]
    exact ⟨hp p (mem_taken.mp hpt).1, (mem_taken.mp hpt).2⟩

theorem steps_reExportAt (hne : base.handedOn edge packages ≠ []) :
    Steps carried index
      ((index.provideAt source edge (base.taken edge packages)).reExportAt source edge) := by
  obtain ⟨x, hx⟩ := List.exists_mem_of_ne_nil _ hne
  obtain ⟨hxt, hxe⟩ := mem_handedOn.mp hx
  have h1 : Step carried index (index.provideAt source edge (base.taken edge packages)) :=
    step_provideAt hg hp hmem (List.ne_nil_of_mem (mem_taken.mpr hxt))
  have hg1 := h1.ground_eq.trans hg
  refine (Relation.ReflTransGen.single h1).tail (Step.reExport ?_ (hp x hxt.1) ?_ ?_)
  · rw [dependentsOf_congr hg1]
    exact hmem
  · rw [imports_congr hg1]
    exact hxt.2
  · rw [exports_congr hg1]
    exact hxe

end Along

/-- `carried` holds further along wherever an edge imports and exports a package. -/
def PassesOn (index : Index) (carried : ModuleId → String → Prop) : Prop :=
  ∀ source edge package, edge ∈ index.dependentsOf source → carried source package →
    index.imports edge package = true → index.exports edge package = true →
    carried edge.dependent package

/-- Spreading along one edge is a run if going on is. -/
theorem spreadAlong_steps {base : Index} {carried : ModuleId → String → Prop} (hc : base.PassesOn carried)
    {further : List String → ModuleId → Index → Index}
    (hf : ∀ packages source index, index.ground = base.ground →
      (∀ package ∈ packages, carried source package) → Steps carried index (further packages source index))
    {packages : List String} {source : ModuleId} {index : Index} {edge : DependentEdge}
    (hg : index.ground = base.ground) (hp : ∀ package ∈ packages, carried source package)
    (hmem : edge ∈ base.dependentsOf source) :
    Steps carried index (spreadAlong further packages source index edge) := by
  rcases spreadAlong_cases hg further packages source edge with
    ⟨-, e⟩ | ⟨hne, -, e⟩ | ⟨-, hex, e⟩
  · rw [e]
  · rw [e]
    exact Relation.ReflTransGen.single (step_provideAt hg hp hmem hne)
  · have h1 := steps_reExportAt hg hp hmem hex
    rw [e]
    refine h1.trans (hf _ _ _ (h1.ground_eq.trans hg) ?_)
    intro p hpe
    obtain ⟨⟨hpp, hpi⟩, hpx⟩ := mem_handedOn.mp hpe
    exact hc source edge p hmem (hp p hpp) hpi hpx

theorem spreadIn_steps {base : Index} {carried : ModuleId → String → Prop} (hc : base.PassesOn carried) :
    ∀ (room : Nat) (path : List ModuleId) (packages : List String) (source : ModuleId) (index : Index),
      index.ground = base.ground → (∀ package ∈ packages, carried source package) →
      Steps carried index (spreadIn room path packages source index)
  | 0, _, _, _, _, _, _ => Relation.ReflTransGen.refl
  | room + 1, path, packages, source, index, hg, hp => by
    rw [spreadIn]
    split
    · exact Relation.ReflTransGen.refl
    · refine foldl_passed (P := fun _ j => Steps carried index j) Relation.ReflTransGen.refl ?_
      intro done edge rest j hl hj
      have hmem : edge ∈ base.dependentsOf source := by
        rw [← dependentsOf_congr hg, dependentsOf, hl]
        simp
      have hstep := spreadAlong_steps hc (spreadIn_steps hc room (source :: path))
        (hj.ground_eq.trans hg) hp hmem
      exact hj.trans hstep

theorem spreadAll_steps (index : Index) {carried : ModuleId → String → Prop}
    (hc : index.PassesOn carried) (hown : ∀ id, ∀ package ∈ index.packagesOf id, carried id package) :
    Steps carried index index.spreadAll := by
  refine foldl_passed (P := fun _ j => Steps carried index j) Relation.ReflTransGen.refl ?_
  intro done id rest j _ hj
  refine hj.trans (spreadIn_steps hc _ _ _ _ _ hj.ground_eq ?_)
  rw [packagesOf_congr hj.ground_eq]
  exact hown id

theorem passesOn_true (index : Index) : index.PassesOn fun _ _ => True := fun _ _ _ _ _ _ _ => trivial

theorem steps_spreadAll (index : Index) : Steps (fun _ _ => True) index index.spreadAll :=
  spreadAll_steps index (passesOn_true index) (fun _ _ _ => trivial)

end Index

end ModuleAudit
