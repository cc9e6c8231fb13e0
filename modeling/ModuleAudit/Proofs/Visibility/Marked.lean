import Mathlib.Data.Finset.Basic
import Mathlib.Data.Finset.Dedup
import ModuleAudit.Proofs.Build.Edges
import ModuleAudit.Proofs.Visibility.SameView

/-! Spreading with the path kept as marks. A call marks its module on entry and takes the mark away when it returns,
and it does nothing for a module that is marked. `Performs` says what a task comes to, with no bound on the depth and
only while every record and declaration that is looked up is there. A task comes to one end at most and leaves the
marks as it found them; where all edges are in range, spreading does come to an end, and `spreadAll` gives it. -/

namespace ModuleAudit
set_option autoImplicit false

namespace Index

/-- What there is to do: modules to go through, a call for a module, or edges that a call has still to follow. -/
inductive Task where
  | modules (left : List ModuleId)
  | call (packages : List String) (source : ModuleId)
  | edges (packages : List String) (source : ModuleId) (left : List DependentEdge)
  deriving Repr, DecidableEq

/-- An index and the modules that are marked. -/
structure Marked where
  marks : Finset ModuleId
  index : Index

/-- What following an edge does up to the call for its dependent, and the packages that the call gets. -/
def follow? (index : Index) (packages : List String) (source : ModuleId) (edge : DependentEdge) :
    Option (Index × List String) :=
  (index.declared edge).map fun declaration =>
    let taken := packages.filter declaration.imports.accepts
    let passed := taken.filter declaration.exports.accepts
    if taken.isEmpty then (index, [])
    else if index.newlyVisible source edge taken = 0 || passed.isEmpty then (index.provideAt source edge taken, [])
    else ((index.provideAt source edge taken).reExportAt source edge, passed)

/-- A task that is begun with some marks and an index ends with others. -/
inductive Performs : Task → Marked → Marked → Prop
  | noModules {state : Marked} : Performs (.modules []) state state
  | nextModule {id : ModuleId} {left : List ModuleId} {record : ModuleRecord} {start middle final : Marked}
      (found : start.index.modules[id]? = some record)
      (own : Performs (.call record.packages.keys id) start middle)
      (rest : Performs (.modules left) middle final) : Performs (.modules (id :: left)) start final
  | turnBack {packages : List String} {source : ModuleId} {state : Marked} (marked : source ∈ state.marks) :
      Performs (.call packages source) state state
  | enter {packages : List String} {source : ModuleId} {record : ModuleRecord} {start final : Marked}
      (unmarked : source ∉ start.marks) (found : start.index.modules[source]? = some record)
      (loop : Performs (.edges packages source record.dependents) ⟨insert source start.marks, start.index⟩ final) :
      Performs (.call packages source) start ⟨final.marks.erase source, final.index⟩
  | noEdges {packages : List String} {source : ModuleId} {state : Marked} :
      Performs (.edges packages source []) state state
  | nextEdge {packages : List String} {source : ModuleId} {edge : DependentEdge} {left : List DependentEdge}
      {start final : Marked} {next : Index} (followed : start.index.follow? packages source edge = some (next, []))
      (rest : Performs (.edges packages source left) ⟨start.marks, next⟩ final) :
      Performs (.edges packages source (edge :: left)) start final
  | further {packages passed : List String} {source : ModuleId} {edge : DependentEdge} {left : List DependentEdge}
      {start middle final : Marked} {next : Index}
      (followed : start.index.follow? packages source edge = some (next, passed)) (nonempty : passed ≠ [])
      (call : Performs (.call passed edge.dependent) ⟨start.marks, next⟩ middle)
      (rest : Performs (.edges packages source left) middle final) :
      Performs (.edges packages source (edge :: left)) start final

theorem Performs.marks_eq {task : Task} {start final : Marked} (h : Performs task start final) :
    final.marks = start.marks := by
  induction h with
  | noModules | turnBack | noEdges => rfl
  | nextModule _ _ _ ihown ihrest => exact ihrest.trans ihown
  | enter unmarked _ _ ih =>
    rw [ih]
    exact Finset.erase_insert unmarked
  | nextEdge _ _ ih => exact ih
  | further _ _ _ _ ihcall ihrest => exact ihrest.trans ihcall

theorem Performs.unique {task : Task} {start final other : Marked} (h : Performs task start final)
    (ho : Performs task start other) : final = other := by
  induction h generalizing other with
  | noModules | noEdges =>
    cases ho
    rfl
  | nextModule found _ _ ihown ihrest =>
    cases ho with
    | nextModule found' own' rest' =>
      obtain rfl := Option.some.inj (found.symm.trans found')
      obtain rfl := ihown own'
      exact ihrest rest'
  | turnBack marked =>
    cases ho with
    | turnBack => rfl
    | enter unmarked' => exact absurd marked unmarked'
  | enter unmarked found _ ih =>
    cases ho with
    | turnBack marked' => exact absurd marked' unmarked
    | enter _ found' loop' =>
      obtain rfl := Option.some.inj (found.symm.trans found')
      rw [ih loop']
  | nextEdge followed _ ih =>
    cases ho with
    | nextEdge followed' rest' =>
      obtain ⟨rfl, -⟩ := Prod.mk.inj (Option.some.inj (followed.symm.trans followed'))
      exact ih rest'
    | further followed' nonempty' =>
      obtain ⟨-, e⟩ := Prod.mk.inj (Option.some.inj (followed.symm.trans followed'))
      exact absurd e.symm nonempty'
  | further followed nonempty _ _ ihcall ihrest =>
    cases ho with
    | nextEdge followed' =>
      obtain ⟨-, e⟩ := Prod.mk.inj (Option.some.inj (followed.symm.trans followed'))
      exact absurd e nonempty
    | further followed' _ call' rest' =>
      obtain ⟨rfl, rfl⟩ := Prod.mk.inj (Option.some.inj (followed.symm.trans followed'))
      obtain rfl := ihcall call'
      exact ihrest rest'

theorem Performs.ends_iff {task : Task} {start final : Marked} (h : Performs task start final) (other : Marked) :
    Performs task start other ↔ other = final :=
  ⟨fun ho => ho.unique h, fun e => e ▸ h⟩

/-! ## Spreading comes to an end -/

/-- Every edge has its dependent in the index, and its declaration there. -/
def EdgesInRange (index : Index) : Prop :=
  ∀ source, ∀ edge ∈ index.dependentsOf source, edge.dependent < index.modules.size ∧
    edge.declaration < (index.declarationsOf edge.dependent).length

theorem EdgesInRange.congr {i j : Index} (hg : j.ground = i.ground) (h : i.EdgesInRange) : j.EdgesInRange := by
  intro source edge hmem
  rw [dependentsOf_congr hg] at hmem
  rw [size_congr hg, declarationsOf_congr hg]
  exact h source edge hmem

theorem imports_of_declared {index : Index} {edge : DependentEdge} {declaration : Dependency}
    (h : index.declared edge = some declaration) (package : String) :
    index.imports edge package = declaration.imports.accepts package := by
  rw [imports, h, Option.any_some]

theorem exports_of_declared {index : Index} {edge : DependentEdge} {declaration : Dependency}
    (h : index.declared edge = some declaration) (package : String) :
    index.exports edge package = declaration.exports.accepts package := by
  rw [exports, h, Option.any_some]

/-- Following an edge of an index with the ground of `base` gives one of two: no call, or one with all that is handed
on. -/
theorem follow?_cases {base index : Index} (hg : index.ground = base.ground) {edge : DependentEdge}
    (hd : edge.declaration < (base.declarationsOf edge.dependent).length)
    (further : List String → ModuleId → Index → Index) (packages : List String) (source : ModuleId) :
    index.follow? packages source edge = some (spreadAlong further packages source index edge, []) ∨
    ∃ next, index.follow? packages source edge = some (next, base.handedOn edge packages) ∧
      next.ground = base.ground ∧ base.handedOn edge packages ≠ [] ∧
      spreadAlong further packages source index edge = further (base.handedOn edge packages) edge.dependent next := by
  obtain ⟨declaration, hdeclared⟩ : ∃ declaration, base.declared edge = some declaration :=
    ⟨_, (base.declared_eq edge).trans (List.getElem?_eq_getElem hd)⟩
  have hindex : index.declared edge = some declaration := by
    rw [← declared_ground, hg, declared_ground, hdeclared]
  have htaken : packages.filter declaration.imports.accepts = base.taken edge packages := by
    rw [taken, funext fun package => imports_of_declared hdeclared package]
  have hpassed : (base.taken edge packages).filter declaration.exports.accepts = base.handedOn edge packages := by
    rw [handedOn, funext fun package => exports_of_declared hdeclared package]
  simp only [follow?, hindex, Option.map_some, htaken, hpassed]
  rcases spreadAlong_cases hg further packages source edge with ⟨hnil, e⟩ | ⟨hne, hidle, e⟩ | ⟨hnew, hex, e⟩
  · left
    rw [e, hnil]
    rfl
  · left
    have hstop : index.newlyVisible source edge (base.taken edge packages) = 0 ∨ base.handedOn edge packages = [] :=
      hidle.imp_left (newlyVisible_eq_zero source _ (dependent_lt_of_taken hg hne)).mpr
    rw [e]
    simp [hne, hstop]
  · right
    obtain ⟨p, hp, hpn⟩ := hnew
    have hne : base.taken edge packages ≠ [] := List.ne_nil_of_mem hp
    have hcount : index.newlyVisible source edge (base.taken edge packages) ≠ 0 := fun hz =>
      hpn ((newlyVisible_eq_zero source _ (dependent_lt_of_taken hg hne)).mp hz p hp)
    refine ⟨(index.provideAt source edge (base.taken edge packages)).reExportAt source edge, ?_, ?_, hex, e⟩
    · simp [hne, hcount, hex]
    · rw [ground_reExportAt, ground_provideAt, hg]

/-- From the modules of a path, a call comes to the end that `spreadIn` gives. -/
def CallEnds (room : Nat) (path : List ModuleId) (packages : List String) (source : ModuleId) (index : Index) : Prop :=
  Performs (.call packages source) ⟨path.toFinset, index⟩ ⟨path.toFinset, spreadIn room path packages source index⟩

section Ends

variable {base : Index} (h : base.EdgesInRange)
include h

/-- The loop of a call comes to the end that the fold over its edges gives, if the calls that it makes end. -/
theorem EdgesInRange.performs_edges {room : Nat} {path : List ModuleId} {packages : List String} {source : ModuleId}
    (hcall : ∀ edge ∈ base.dependentsOf source, base.handedOn edge packages ≠ [] → ∀ index : Index,
      index.ground = base.ground →
        CallEnds room (source :: path) (base.handedOn edge packages) edge.dependent index)
    (left : List DependentEdge) (hleft : ∀ edge ∈ left, edge ∈ base.dependentsOf source) (index : Index)
    (hg : index.ground = base.ground) :
    Performs (.edges packages source left) ⟨(source :: path).toFinset, index⟩
      ⟨(source :: path).toFinset, left.foldl (spreadAlong (spreadIn room (source :: path)) packages source) index⟩ := by
  induction left generalizing index with
  | nil => exact .noEdges
  | cons edge rest ih =>
    rw [List.forall_mem_cons] at hleft
    have hground : (spreadAlong (spreadIn room (source :: path)) packages source index edge).ground = base.ground :=
      (spreadAlong_steps (passesOn_true base) (spreadIn_steps (passesOn_true base) room (source :: path)) hg
        (fun _ _ => trivial) hleft.1).ground_eq.trans hg
    have hrest := ih hleft.2 _ hground
    rcases follow?_cases hg (h source edge hleft.1).2 (spreadIn room (source :: path)) packages source with
      hquiet | ⟨next, hnext, hgnext, hex, e⟩
    · exact .nextEdge hquiet hrest
    · refine .further hnext hex (hcall edge hleft.1 hex next hgnext) ?_
      rw [← e]
      exact hrest

/-- A call with enough room ends. -/
theorem EdgesInRange.callEnds (room : Nat) {path : List ModuleId} {packages : List String} {source : ModuleId}
    {waiting : ModuleId → String → Prop}
    (call : Call base (fun _ _ => True) (fun _ q p => p = q) waiting room path packages source) (index : Index)
    (hg : index.ground = base.ground) : CallEnds room path packages source index := by
  induction room generalizing path packages source waiting index with
  | zero =>
    -- Room only runs out when all modules are on the path.
    exact .turnBack (List.mem_toFinset.mpr call.mem_path_of_no_room)
  | succ room ih =>
    rw [CallEnds, spreadIn]
    by_cases hin : source ∈ path
    · rw [if_pos hin]
      exact .turnBack (List.mem_toFinset.mpr hin)
    · have hlt : source < index.modules.size := (size_congr hg).symm ▸ call.source_lt
      have hedges : index.modules[source].dependents = base.dependentsOf source := by
        rw [← dependentsOf_congr hg, dependentsOf, Array.getElem?_eq_getElem hlt]
        rfl
      have hcall : ∀ edge ∈ base.dependentsOf source, base.handedOn edge packages ≠ [] → ∀ next : Index,
          next.ground = base.ground →
            CallEnds room (source :: path) (base.handedOn edge packages) edge.dependent next := by
        intro edge hmem hex next hgnext
        obtain ⟨done, rest, hl⟩ := List.append_of_mem hmem
        exact ih (call.further hl (passesOn_true base) (fun _ _ _ _ _ _ _ _ _ e => e) hin hex) next hgnext
      have hloop := h.performs_edges hcall index.modules[source].dependents (fun edge hmem => hedges ▸ hmem) index hg
      rw [List.toFinset_cons] at hloop
      have hend : Performs (.call packages source) ⟨path.toFinset, index⟩ _ :=
        .enter (mt List.mem_toFinset.mp hin) (Array.getElem?_eq_getElem hlt) hloop
      rw [Finset.erase_insert (mt List.mem_toFinset.mp hin)] at hend
      rw [if_neg hin, Array.getElem?_eq_getElem hlt]
      exact hend

omit h in
/-- A call relies on no more than its room, as far as it only has to end. -/
theorem call_of_room {room : Nat} {path : List ModuleId} {source : ModuleId} (packages : List String)
    (hlt : source < base.modules.size) (hnodup : path.Nodup) (hpath : ∀ id ∈ path, id < base.modules.size)
    (hroom : base.modules.size ≤ path.length + room) :
    Call base (fun _ _ => True) (fun _ q p => p = q) (fun _ _ => True) room path packages source :=
  ⟨hlt, hnodup, hpath, hroom, fun _ _ => trivial, fun _ hq _ e => e ▸ hq, fun _ _ _ _ => trivial⟩

/-- A call with the modules of a path marked ends, and ends in one way only. -/
theorem EdgesInRange.performs_call_iff {path : List ModuleId} {source : ModuleId} (packages : List String)
    (hlt : source < base.modules.size) (hnodup : path.Nodup) (hpath : ∀ id ∈ path, id < base.modules.size)
    (final : Marked) : Performs (.call packages source) ⟨path.toFinset, base⟩ final ↔
      final = ⟨path.toFinset, spreadIn (base.modules.size - path.length) path packages source base⟩ := by
  have hroom : base.modules.size ≤ path.length + (base.modules.size - path.length) := by omega
  exact (h.callEnds _ (call_of_room packages hlt hnodup hpath hroom) base rfl).ends_iff final

theorem EdgesInRange.performs_modules (left : List ModuleId) (hleft : ∀ id ∈ left, id < base.modules.size)
    (index : Index) (hg : index.ground = base.ground) :
    Performs (.modules left) ⟨∅, index⟩
      ⟨∅, left.foldl (fun index id => index.spread id (index.packagesOf id)) index⟩ := by
  induction left generalizing index with
  | nil => exact .noModules
  | cons id rest ih =>
    rw [List.forall_mem_cons] at hleft
    have hlt : id < index.modules.size := (size_congr hg).symm ▸ hleft.1
    have hown : index.packagesOf id = index.modules[id].packages.keys := by
      rw [packagesOf, Array.getElem?_eq_getElem hlt]
      rfl
    have hroom : base.modules.size ≤ ([] : List ModuleId).length + index.modules.size := by simp [size_congr hg]
    have call := call_of_room (index.packagesOf id) hleft.1 List.nodup_nil (by simp) hroom
    have hcall := h.callEnds _ call index hg
    have hsteps := spreadIn_steps (passesOn_true base) index.modules.size [] (index.packagesOf id) id index hg
      (fun _ _ => trivial)
    have hrest := ih hleft.2 _ (hsteps.ground_eq.trans hg)
    exact .nextModule (Array.getElem?_eq_getElem hlt) (hown ▸ hcall) hrest

/-- Spreading over all modules, with no module marked, ends, and ends in one way only. -/
theorem EdgesInRange.performs_iff (final : Marked) :
    Performs (.modules (List.range base.modules.size)) ⟨∅, base⟩ final ↔ final = ⟨∅, base.spreadAll⟩ := by
  have hend : Performs (.modules (List.range base.modules.size)) ⟨∅, base⟩ ⟨∅, base.spreadAll⟩ :=
    h.performs_modules _ (fun _ hid => List.mem_range.mp hid) base rfl
  exact hend.ends_iff final

end Ends

end Index

end ModuleAudit
