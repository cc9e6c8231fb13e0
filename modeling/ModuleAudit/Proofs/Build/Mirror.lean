import Mathlib.Data.List.Nodup
import ModuleAudit.Proofs.Build.ReExports

/-! The edges of a build stand for its declarations. A declaration that leads to a module has one edge at that
module, and no other edge leads anywhere. At the other end the edges may repeat, because spreading adds to them,
but they stand for the same declarations. -/

namespace ModuleAudit
set_option autoImplicit false

namespace Index

/-- The module that the declaration at a position of a module leads to. -/
def leadsTo (index : Index) (module : ModuleId) (position : Nat) : Option ModuleId := do
  let declared ← (index.declarationsOf module)[position]?
  let name ← declared.moduleName?
  index.findModule? name

theorem leadsTo_eq_some {index : Index} {module target : ModuleId} {position : Nat} :
    index.leadsTo module position = some target ↔
      ∃ declared, (index.declarationsOf module)[position]? = some declared ∧
        index.resolve declared = some target :=
  Option.bind_eq_some_iff

theorem nodup_positions_toward (index : Index) (id target : ModuleId) :
    ((index.toward id target).map Prod.snd).Nodup := by
  have hall : ((index.declarationsOf id).zipIdx.map Prod.snd).Nodup := by
    rw [List.zipIdx_map_snd]
    exact List.nodup_range'
  have hsub : (index.toward id target).Sublist (index.declarationsOf id).zipIdx := List.filter_sublist
  exact hall.sublist (hsub.map Prod.snd)

section Gathered

variable {index : Index} (hg : index.Gathered)
include hg

theorem Gathered.count_dependentsOf_drawn (module target : ModuleId) (position : Nat) :
    (index.drawn.dependentsOf target).count ⟨module, position⟩ =
      if index.leadsTo module position = some target then 1 else 0 := by
  -- Only the edges of the module itself count, and those are numbered by distinct positions.
  have hown : (index.drawn.dependentsOf target).count ⟨module, position⟩ =
      ((index.toward module target).map fun entry => (⟨module, entry.2⟩ : DependentEdge)).count
        ⟨module, position⟩ := by
    rw [← hg.filter_dependentsOf_drawn, List.count_filter]
    simp
  have hinj : Function.Injective fun position => (⟨module, position⟩ : DependentEdge) := by
    intro a b h
    exact congrArg DependentEdge.declaration h
  have hnodup : ((index.toward module target).map fun entry =>
      (⟨module, entry.2⟩ : DependentEdge)).Nodup := by
    have h := (nodup_positions_toward index module target).map hinj
    rw [List.map_map] at h
    exact h
  have hmem : (⟨module, position⟩ : DependentEdge) ∈ (index.toward module target).map
      (fun entry => (⟨module, entry.2⟩ : DependentEdge)) ↔ index.leadsTo module position = some target := by
    rw [← hg.filter_dependentsOf_drawn, List.mem_filter, hg.mem_dependentsOf_drawn, leadsTo_eq_some]
    simp
  rw [hown, hnodup.count]
  simp only [hmem]

theorem Gathered.mem_dependenciesOf_completed (module target : ModuleId) (position : Nat) :
    ⟨target, position⟩ ∈ index.completed.dependenciesOf module ↔
      index.leadsTo module position = some target := by
  obtain ⟨added, hdeps, hadded⟩ := (steps_spreadAll index.drawn).dependenciesOf_eq module
  have hown : ⟨target, position⟩ ∈ index.outgoing module ↔ index.leadsTo module position = some target := by
    rw [leadsTo_eq_some, outgoing, List.mem_filterMap]
    constructor
    · rintro ⟨⟨declared, i⟩, hi, he⟩
      obtain ⟨found, hfound, hedge⟩ := Option.map_eq_some_iff.mp he
      obtain ⟨rfl, rfl⟩ := DependencyEdge.mk.inj hedge
      exact ⟨declared, List.mem_zipIdx_iff_getElem?.mp hi, hfound⟩
    · rintro ⟨declared, hd, hr⟩
      exact ⟨(declared, position), List.mem_zipIdx_iff_getElem?.mpr hd, by simp [hr]⟩
  rw [dependenciesOf_completed, hdeps, hg.dependenciesOf_drawn, List.mem_append, hown]
  refine or_iff_left_of_imp fun he => ?_
  exact leadsTo_eq_some.mpr (hg.mem_dependentsOf_drawn.mp (hadded _ he))

end Gathered

theorem leadsTo_completed (index : Index) : index.completed.leadsTo = index.leadsTo := by
  have hresolve := resolve_completed index
  funext module position
  refine Option.ext fun target => ?_
  rw [leadsTo_eq_some, leadsTo_eq_some, declarationsOf_completed, hresolve]

end Index

namespace Build

/-- A declaration has one edge at the module that it leads to and none at any other module, and these are all the
edges that lead to modules. The edges that start at a module are those of its declarations, however often. -/
theorem edges_mirror_declarations (findings : List Finding) (module target : ModuleId) (position : Nat) :
    ((run findings).index.dependentsOf target).count ⟨module, position⟩ =
        (if (run findings).index.leadsTo module position = some target then 1 else 0) ∧
      (⟨target, position⟩ ∈ (run findings).index.dependenciesOf module ↔
        (run findings).index.leadsTo module position = some target) := by
  have hg := (ofFindings_gathered (fun _ _ => true) findings).1
  rw [run_index, Index.leadsTo_completed, Index.dependentsOf_completed]
  exact ⟨hg.count_dependentsOf_drawn module target position, hg.mem_dependenciesOf_completed module target position⟩

end Build

end ModuleAudit
