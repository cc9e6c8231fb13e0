import ModuleAudit.Proofs.Visibility.Closure

/-! Spreading in an index with some edges left out. If no module is passed on along an edge that is left out,
the two runs go side by side: the smaller index makes visible what the larger one does, less what came along
the edges left out, in the same order (`spreadAll_mirrors`). An edge that is left out then never starts a
call, which is what the order of the runs depends on. -/

namespace ModuleAudit
set_option autoImplicit false

namespace Index

/-- What spreading reads of an edge. -/
def seen (index : Index) (edge : DependentEdge) : ModuleId × Option Dependency :=
  (edge.dependent, index.declared edge)

/-- `thin` has the edges of `base`, less those from `id` to `target` where `drop id target`. -/
structure Thinned (drop : ModuleId → ModuleId → Bool) (base thin : Index) : Prop where
  size_eq : thin.modules.size = base.modules.size
  packagesOf_eq : thin.packagesOf = base.packagesOf
  edges : ∀ target, (thin.dependentsOf target).map thin.seen =
    ((base.dependentsOf target).filter fun edge => !drop edge.dependent target).map base.seen

/-- What `i` and `j` have become of `base` and `thin` is the same, less what is left out. -/
structure Mirrors (drop : ModuleId → ModuleId → Bool) (base thin i j : Index) : Prop where
  ground_left : i.ground = base.ground
  ground_right : j.ground = thin.ground
  through_eq : ∀ id package, j.through id package = (i.through id package).filter fun target => !drop id target
  reExports_eq : ∀ id, j.reExportsOf id = i.reExportsOf id

/-- No module is passed on along an edge that is left out. -/
def Clean (drop : ModuleId → ModuleId → Bool) (index : Index) : Prop :=
  ∀ id target, drop id target = true → target ∉ index.reExportsOf id

theorem Clean.before {drop : ModuleId → ModuleId → Bool} {carried : ModuleId → String → Prop} {i j : Index}
    (h : Clean drop j) (hs : Steps carried i j) : Clean drop i :=
  fun id target hd ht => h id target hd (hs.reExports_mono ht)

/-! ## The changes as lists -/

section Lists

variable {index : Index} {source : ModuleId} {edge : DependentEdge} {packages : List String}
  (hlt : edge.dependent < index.modules.size)
include hlt

theorem through_provideAt (id : ModuleId) (package : String) :
    (index.provideAt source edge packages).through id package =
      if id = edge.dependent ∧ package ∈ packages ∧ source ∉ index.through id package then
        index.through id package ++ [source]
      else index.through id package := by
  rw [through, provideAt, getElem?_updateModule]
  by_cases h : edge.dependent = id
  · subst h
    simp only [if_true, through, Array.getElem?_eq_getElem hlt, Option.map_some, Option.getD_some,
      ModuleRecord.through_provide, true_and]
  · have h' : id ≠ edge.dependent := fun e => h e.symm
    simp only [if_neg h, through, h', false_and, if_false]

theorem reExportsOf_reExportAt (id : ModuleId) :
    (index.reExportAt source edge).reExportsOf id =
      if id = edge.dependent ∧ source ∉ index.reExportsOf id then index.reExportsOf id ++ [source]
      else index.reExportsOf id := by
  rw [reExportsOf, reExportAt, getElem?_updateModule]
  by_cases h : edge.dependent = id
  · subst h
    simp only [if_true, reExportsOf, Array.getElem?_eq_getElem hlt, Option.map_some, Option.getD_some,
      ModuleRecord.reExport, OrderedSet.toList_insert, true_and, ite_not]
  · have h' : id ≠ edge.dependent := fun e => h e.symm
    simp only [if_neg h, reExportsOf, h', false_and, if_false]

end Lists

/-! ## One change -/

section Changes

variable {drop : ModuleId → ModuleId → Bool} {base thin i j : Index} {source : ModuleId}
  {edge edge' : DependentEdge} {packages : List String} (h : Mirrors drop base thin i j)
include h

theorem Mirrors.provideAt_dropped (hlt : edge.dependent < i.modules.size)
    (hdrop : drop edge.dependent source = true) :
    Mirrors drop base thin (i.provideAt source edge packages) j where
  ground_left := (ground_provideAt ..).trans h.ground_left
  ground_right := h.ground_right
  through_eq id package := by
    rw [h.through_eq, through_provideAt hlt]
    split
    · rename_i hnew
      rw [hnew.1, List.filter_append]
      simp [hdrop]
    · rfl
  reExports_eq id := by
    rw [reExportsOf_provideAt]
    exact h.reExports_eq id

variable (he : edge'.dependent = edge.dependent) (hlt : edge.dependent < i.modules.size)
  (hlt' : edge'.dependent < j.modules.size)
include he hlt hlt'

theorem Mirrors.provideAt_kept (hkeep : drop edge.dependent source = false) :
    Mirrors drop base thin (i.provideAt source edge packages) (j.provideAt source edge' packages) where
  ground_left := (ground_provideAt ..).trans h.ground_left
  ground_right := (ground_provideAt ..).trans h.ground_right
  through_eq id package := by
    rw [through_provideAt hlt, through_provideAt hlt', h.through_eq, he]
    by_cases hid : id = edge.dependent
    · subst hid
      have hmem : source ∈ (i.through edge.dependent package).filter (fun target => !drop edge.dependent target) ↔
          source ∈ i.through edge.dependent package := by
        simp [List.mem_filter, hkeep]
      simp only [hmem, true_and]
      split
      · rw [List.filter_append]
        simp [hkeep]
      · rfl
    · simp only [hid, false_and, if_false]
  reExports_eq id := by
    rw [reExportsOf_provideAt, reExportsOf_provideAt]
    exact h.reExports_eq id

theorem Mirrors.reExportAt :
    Mirrors drop base thin (i.reExportAt source edge) (j.reExportAt source edge') where
  ground_left := (ground_reExportAt ..).trans h.ground_left
  ground_right := (ground_reExportAt ..).trans h.ground_right
  through_eq id package := by
    rw [through_reExportAt, through_reExportAt]
    exact h.through_eq id package
  reExports_eq id := by
    rw [reExportsOf_reExportAt hlt, reExportsOf_reExportAt hlt', h.reExports_eq, he]

end Changes

/-! ## One edge -/

section Along

variable {drop : ModuleId → ModuleId → Bool} {base thin i j : Index}
  {further : List String → ModuleId → Index → Index} {packages : List String} {source : ModuleId}
  {edge edge' : DependentEdge}

theorem taken_of_seen (he : thin.seen edge' = base.seen edge) (packages : List String) :
    thin.taken edge' packages = base.taken edge packages ∧
      thin.handedOn edge' packages = base.handedOn edge packages := by
  have hd : thin.declared edge' = base.declared edge := congrArg Prod.snd he
  have hi : thin.imports edge' = base.imports edge := by
    funext package
    rw [imports, imports, hd]
  have hx : thin.exports edge' = base.exports edge := by
    funext package
    rw [exports, exports, hd]
  simp only [handedOn, taken, hi, hx, and_self]

theorem spreadAlong_eq {index : Index} (hg : index.ground = base.ground) :
    spreadAlong further packages source index edge =
      if base.taken edge packages = [] then index
      else if (∀ package ∈ base.taken edge packages, source ∈ index.through edge.dependent package) ∨
        base.handedOn edge packages = [] then index.provideAt source edge (base.taken edge packages)
      else further (base.handedOn edge packages) edge.dependent
        ((index.provideAt source edge (base.taken edge packages)).reExportAt source edge) := by
  rcases spreadAlong_cases hg further packages source edge with
    ⟨hnone, e⟩ | ⟨hne, hquiet, e⟩ | ⟨⟨p, hp, hnew⟩, hex, e⟩
  · rw [if_pos hnone, e]
  · rw [if_neg hne, if_pos hquiet, e]
  · have hcall : ¬((∀ package ∈ base.taken edge packages, source ∈ index.through edge.dependent package) ∨
        base.handedOn edge packages = []) := by
      rintro (hall | hnone)
      · exact hnew (hall p hp)
      · exact hex hnone
    rw [if_neg (List.ne_nil_of_mem hp), if_neg hcall, e]

/-- Going on from two indices that mirror each other keeps them so. -/
def KeepsMirror (drop : ModuleId → ModuleId → Bool) (base thin : Index)
    (further : List String → ModuleId → Index → Index) : Prop :=
  ∀ packages source i j, Mirrors drop base thin i j → Clean drop (further packages source i) →
    Mirrors drop base thin (further packages source i) (further packages source j)

theorem Mirrors.spreadAlong_kept (h : Mirrors drop base thin i j) (hf : KeepsMirror drop base thin further)
    (he : thin.seen edge' = base.seen edge) (hkeep : drop edge.dependent source = false)
    (hclean : Clean drop (spreadAlong further packages source i edge)) :
    Mirrors drop base thin (spreadAlong further packages source i edge)
      (spreadAlong further packages source j edge') := by
  have hdep : edge'.dependent = edge.dependent := congrArg Prod.fst he
  obtain ⟨htaken, hhanded⟩ := taken_of_seen he packages
  have hthrough : ∀ package, source ∈ j.through edge'.dependent package ↔
      source ∈ i.through edge.dependent package := by
    intro package
    rw [hdep, h.through_eq, List.mem_filter]
    simp [hkeep]
  rw [spreadAlong_eq h.ground_left] at hclean ⊢
  rw [spreadAlong_eq h.ground_right]
  simp only [htaken, hhanded, hthrough]
  split
  · exact h
  · rename_i hne
    have hlt : edge.dependent < i.modules.size := dependent_lt_of_taken h.ground_left hne
    have hne' : thin.taken edge' packages ≠ [] := by
      rw [htaken]
      exact hne
    have hlt' : edge'.dependent < j.modules.size := dependent_lt_of_taken h.ground_right hne'
    have hprovide : Mirrors drop base thin (i.provideAt source edge (base.taken edge packages))
        (j.provideAt source edge' (base.taken edge packages)) := h.provideAt_kept hdep hlt hlt' hkeep
    split
    · exact hprovide
    · rename_i hcall
      rw [if_neg hne, if_neg hcall] at hclean
      rw [hdep]
      refine hf _ _ _ _ (hprovide.reExportAt hdep ?_ ?_) hclean
      · rw [size_congr (ground_provideAt ..)]
        exact hlt
      · rw [size_congr (ground_provideAt ..)]
        exact hlt'

/-- An edge that is left out makes no call, or its source would be passed on. -/
theorem Mirrors.spreadAlong_dropped (h : Mirrors drop base thin i j)
    (hsteps : ∀ packages source index, index.ground = base.ground →
      Steps (fun _ _ => True) index (further packages source index))
    (hdrop : drop edge.dependent source = true)
    (hclean : Clean drop (spreadAlong further packages source i edge)) :
    Mirrors drop base thin (spreadAlong further packages source i edge) j := by
  rw [spreadAlong_eq h.ground_left] at hclean ⊢
  split
  · exact h
  · rename_i hne
    have hlt : edge.dependent < i.modules.size := dependent_lt_of_taken h.ground_left hne
    split
    · exact h.provideAt_dropped hlt hdrop
    · rename_i hcall
      rw [if_neg hne, if_neg hcall] at hclean
      have hg : ((i.provideAt source edge (base.taken edge packages)).reExportAt source edge).ground =
          base.ground := (ground_reExportAt ..).trans ((ground_provideAt ..).trans h.ground_left)
      refine absurd ?_ ((hclean.before (hsteps _ _ _ hg)) edge.dependent source hdrop)
      rw [mem_reExportsOf_reExportAt]
      · exact Or.inr ⟨rfl, rfl⟩
      · rw [size_congr (ground_provideAt ..)]
        exact hlt

end Along

/-! ## Whole runs -/

/-- A fold of runs is a run. -/
theorem foldl_steps {α : Type} {base : Index} {f : Index → α → Index} {l : List α}
    (hf : ∀ i, ∀ a ∈ l, i.ground = base.ground → Steps (fun _ _ => True) i (f i a)) {i : Index}
    (hi : i.ground = base.ground) : Steps (fun _ _ => True) i (l.foldl f i) := by
  induction l generalizing i with
  | nil => exact Relation.ReflTransGen.refl
  | cons a rest ih =>
    have h := hf i a (by simp) hi
    exact h.trans (ih (fun i b hb => hf i b (by simp [hb])) (h.ground_eq.trans hi))

section Runs

variable {drop : ModuleId → ModuleId → Bool} {base thin : Index}

theorem foldl_spreadAlong_mirrors {further : List String → ModuleId → Index → Index}
    (hf : KeepsMirror drop base thin further)
    (hsteps : ∀ packages source index, index.ground = base.ground →
      Steps (fun _ _ => True) index (further packages source index))
    {packages : List String} {source : ModuleId} {edges edges' : List DependentEdge}
    (hmem : ∀ edge ∈ edges, edge ∈ base.dependentsOf source)
    (hedges : edges'.map thin.seen = (edges.filter fun edge => !drop edge.dependent source).map base.seen)
    {i j : Index} (h : Mirrors drop base thin i j)
    (hclean : Clean drop (edges.foldl (spreadAlong further packages source) i)) :
    Mirrors drop base thin (edges.foldl (spreadAlong further packages source) i)
      (edges'.foldl (spreadAlong further packages source) j) := by
  induction edges generalizing edges' i j with
  | nil =>
    rw [List.map_eq_nil_iff.mp hedges]
    exact h
  | cons edge rest ih =>
    have hrest : ∀ e ∈ rest, e ∈ base.dependentsOf source := fun e he => hmem e (by simp [he])
    have halong : ∀ index, ∀ e ∈ edge :: rest, index.ground = base.ground →
        Steps (fun _ _ => True) index (spreadAlong further packages source index e) :=
      fun index e he hg => spreadAlong_steps (passesOn_true base) (fun p s i hi _ => hsteps p s i hi) hg
        (fun _ _ => trivial) (hmem e he)
    have hground := (halong i edge (by simp) h.ground_left).ground_eq.trans h.ground_left
    -- What is passed on stays so: nothing wrong at the end means nothing wrong after the first edge.
    have hfirst : Clean drop (spreadAlong further packages source i edge) :=
      Clean.before hclean (foldl_steps (fun i e he => halong i e (by simp [he])) hground)
    cases hd : drop edge.dependent source with
    | true =>
      rw [List.filter_cons_of_neg (by simp [hd])] at hedges
      exact ih hrest hedges (h.spreadAlong_dropped hsteps hd hfirst) hclean
    | false =>
      rw [List.filter_cons_of_pos (by simp [hd]), List.map_cons] at hedges
      obtain ⟨edge', rest', rfl, hseen, hrest'⟩ := List.map_eq_cons_iff.mp hedges
      exact ih hrest hrest' (h.spreadAlong_kept hf hseen hd hfirst) hclean

variable (ht : Thinned drop base thin)
include ht

theorem spreadIn_mirrors : ∀ (room : Nat) (path : List ModuleId),
    KeepsMirror drop base thin (spreadIn room path)
  | 0, _ => fun _ _ _ _ h _ => h
  | room + 1, path => by
    intro packages source i j h hclean
    rw [spreadIn] at hclean ⊢
    rw [spreadIn]
    split
    · exact h
    · rename_i hpath
      rw [if_neg hpath] at hclean
      have hleft : i.dependentsOf source = base.dependentsOf source := by
        rw [dependentsOf_congr h.ground_left]
      have hright : j.dependentsOf source = thin.dependentsOf source := by
        rw [dependentsOf_congr h.ground_right]
      rw [dependentsOf] at hleft hright
      simp only [hleft] at hclean ⊢
      simp only [hright]
      refine foldl_spreadAlong_mirrors (spreadIn_mirrors room (source :: path)) ?_ (fun _ he => he)
        (ht.edges source) h hclean
      exact fun packages source index hg =>
        spreadIn_steps (passesOn_true base) _ _ _ _ _ hg (fun _ _ => trivial)

theorem foldl_spread_mirrors {ids : List ModuleId} {i j : Index} (h : Mirrors drop base thin i j)
    (hclean : Clean drop (ids.foldl (fun index id => index.spread id (index.packagesOf id)) i)) :
    Mirrors drop base thin (ids.foldl (fun index id => index.spread id (index.packagesOf id)) i)
      (ids.foldl (fun index id => index.spread id (index.packagesOf id)) j) := by
  induction ids generalizing i j with
  | nil => exact h
  | cons id rest ih =>
    have hspread : ∀ index, ∀ id ∈ id :: rest, index.ground = base.ground →
        Steps (fun _ _ => True) index (index.spread id (index.packagesOf id)) :=
      fun index id _ hg => spreadIn_steps (passesOn_true base) _ _ _ _ _ hg (fun _ _ => trivial)
    have hground := (hspread i id (by simp) h.ground_left).ground_eq.trans h.ground_left
    have hfirst : Clean drop (i.spread id (i.packagesOf id)) :=
      Clean.before hclean (foldl_steps (fun i other ho => hspread i other (by simp [ho])) hground)
    have hpackages : j.packagesOf id = i.packagesOf id := by
      rw [packagesOf_congr h.ground_left, packagesOf_congr h.ground_right, ht.packagesOf_eq]
    have hsize : j.modules.size = i.modules.size := by
      rw [size_congr h.ground_left, size_congr h.ground_right, ht.size_eq]
    have hnext : Mirrors drop base thin (i.spread id (i.packagesOf id)) (j.spread id (j.packagesOf id)) := by
      rw [hpackages, spread, spread, hsize]
      exact spreadIn_mirrors ht _ _ _ _ _ _ h hfirst
    exact ih hnext hclean

/-- Spreading with fewer edges mirrors spreading with all if nothing is passed on along an edge left out. -/
theorem spreadAll_mirrors (hbase : base.Unspread) (hthin : thin.Unspread)
    (hclean : Clean drop base.spreadAll) : Mirrors drop base thin base.spreadAll thin.spreadAll := by
  have hstart : Mirrors drop base thin base thin := by
    refine ⟨rfl, rfl, fun id package => ?_, fun id => ?_⟩
    · rw [hbase.through_eq, hthin.through_eq]
      rfl
    · rw [hbase.reExportsOf_eq, hthin.reExportsOf_eq]
  rw [spreadAll] at hclean ⊢
  rw [spreadAll, ht.size_eq]
  exact foldl_spread_mirrors ht hstart hclean

end Runs

end Index

end ModuleAudit
