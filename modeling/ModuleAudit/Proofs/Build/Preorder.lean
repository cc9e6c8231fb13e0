import Mathlib.Data.List.Nodup
import Mathlib.Logic.Equiv.Defs
import ModuleAudit.Proofs.Build.Ingested
import ModuleAudit.Proofs.Build.WellFormed

/-! The ancestors of a class in order. The walk keeps a list of classes that are still to be looked at, in which a
class may stand more than once. It meets classes in the order of the recursion that visits a class, then what is above
its first parent, then what is left above the next one (`walk_eq_preorder`). What it meets does not depend on the
numbers of the classes (`Renumbered.ancestors_eq`), and so neither does what modules refer to in the end. -/

namespace ModuleAudit
set_option autoImplicit false

namespace Index

/-! ## The recursion -/

/-- The classes that a recursive visit of `pending` meets, each once and only if it is in `left`: a class, what is met
above it, and then what the rest still meets. -/
def preorder (parents : ClassId → List ClassId) (left pending : List ClassId) : List ClassId :=
  match pending with
  | [] => []
  | id :: rest =>
    if _fresh : id ∈ left then
      let above := preorder parents (left.erase id) (parents id)
      id :: (above ++ preorder parents ((left.erase id).diff above) rest)
    else preorder parents left rest
termination_by (left.length, pending.length)
decreasing_by
  · have shorter := List.length_erase_of_mem _fresh
    have some := List.length_pos_of_mem _fresh
    exact Prod.Lex.left _ _ (by omega)
  · have shorter := List.length_erase_of_mem _fresh
    have some := List.length_pos_of_mem _fresh
    exact Prod.Lex.left _ _ (Nat.lt_of_le_of_lt (List.diff_sublist _ _).length_le (by omega))
  · exact Prod.Lex.right _ (by simp)

theorem walk_append (parents : ClassId → List ClassId) (left first rest : List ClassId) :
    walk parents left (first ++ rest) =
      walk parents left first ++ walk parents (left.diff (walk parents left first)) rest := by
  fun_induction walk parents left first with
  | case1 left => rw [List.nil_append, List.diff_nil, List.nil_append]
  | case2 left id pending hfresh ih =>
    rw [List.cons_append, walk, dif_pos hfresh, ← List.append_assoc, ih, List.diff_cons, List.cons_append]
  | case3 left id pending hfresh ih => rw [List.cons_append, walk, dif_neg hfresh, ih]

theorem walk_eq_preorder (parents : ClassId → List ClassId) (left pending : List ClassId) :
    walk parents left pending = preorder parents left pending := by
  fun_induction preorder parents left pending with
  | case1 left => rw [walk]
  | case2 left id rest hfresh above habove hrest =>
    rw [walk, dif_pos hfresh, walk_append, habove, hrest]
  | case3 left id rest hfresh ih => rw [walk, dif_neg hfresh, ih]

theorem nodup_walk (parents : ClassId → List ClassId) {left : List ClassId} (h : left.Nodup) (pending : List ClassId) :
    (walk parents left pending).Nodup := by
  fun_induction walk parents left pending with
  | case1 left => exact List.nodup_nil
  | case2 left id pending hfresh ih =>
    refine List.nodup_cons.mpr ⟨fun hmem => ?_, ih (h.erase id)⟩
    obtain ⟨_, -, hreach⟩ := (mem_walk parents (left.erase id) (parents id ++ pending) id).mp hmem
    exact (h.mem_erase_iff.mp hreach.end_mem).1 rfl
  | case3 left id pending hfresh ih => exact ih h

/-- The classes above a class, met by recursion from its parents. -/
def above (index : Index) (id : ClassId) : List ClassId :=
  preorder index.parentsOf ((List.range index.classes.size).erase id) (index.parentsOf id)

theorem ancestors_eq_above (index : Index) (id : ClassId) : index.ancestors id = index.above id :=
  walk_eq_preorder ..

theorem nodup_ancestors (index : Index) (id : ClassId) : (index.ancestors id).Nodup :=
  nodup_walk _ (List.nodup_range.erase id) _

/-! ## Other numbers -/

/-- The walk does not depend on the order of what is left. -/
theorem walk_perm (parents : ClassId → List ClassId) {left left' : List ClassId} (h : left.Perm left')
    (pending : List ClassId) : walk parents left pending = walk parents left' pending := by
  fun_induction walk parents left pending generalizing left' with
  | case1 left => rw [walk]
  | case2 left id pending hfresh ih => rw [walk, dif_pos (h.mem_iff.mp hfresh), ih (h.erase id)]
  | case3 left id pending hfresh ih => rw [walk, dif_neg fun hmem => hfresh (h.mem_iff.mpr hmem), ih h]

theorem walk_map {parents parents' : ClassId → List ClassId} (number : Equiv.Perm ClassId)
    (h : ∀ id, parents' (number id) = (parents id).map number) (left pending : List ClassId) :
    walk parents' (left.map number) (pending.map number) = (walk parents left pending).map number := by
  have hmem : ∀ {id : ClassId} {l : List ClassId}, number id ∈ l.map number ↔ id ∈ l :=
    List.mem_map_of_injective number.injective
  fun_induction walk parents left pending with
  | case1 left => rw [List.map_nil, walk]
  | case2 left id pending hfresh ih =>
    rw [List.map_cons, walk, dif_pos (hmem.mpr hfresh), h, ← List.map_append, ← List.map_erase number.injective, ih,
      List.map_cons]
  | case3 left id pending hfresh ih => rw [List.map_cons, walk, dif_neg (mt hmem.mp hfresh), ih]

end Index

/-- The record of a class when the classes it is linked to have got other numbers. -/
def ClassRecord.relinked (number : Equiv.Perm ClassId) (record : ClassRecord) : ClassRecord :=
  { record with
    superLink := record.superLink.map number
    interfaceLinks := ⟨record.interfaceLinks.toList.map number, record.interfaceLinks.distinct.map number.injective⟩ }

theorem ClassRecord.parents_relinked (number : Equiv.Perm ClassId) (record : ClassRecord) :
    (record.relinked number).parents = record.parents.map number := by
  rw [parents, parents, List.map_append, relinked]
  cases record.superLink <;> rfl

namespace Index

/-- The same modules and classes, where each class has another number. -/
structure Renumbered (number : Equiv.Perm ClassId) (index other : Index) : Prop where
  classes : ∀ id : ClassId, other.classes[number id]? = index.classes[id]?.map (ClassRecord.relinked number)
  refs : ∀ id : ModuleId, other.modules[id]?.map (fun record => (record.classRefs, record.packageRefs)) =
    index.modules[id]?.map fun record => (record.classRefs, record.packageRefs)

section Renumbered

variable {number : Equiv.Perm ClassId} {index other : Index} (h : Renumbered number index other)
include h

theorem Renumbered.parentsOf_eq (id : ClassId) : other.parentsOf (number id) = (index.parentsOf id).map number := by
  rw [parentsOf, parentsOf, h.classes]
  cases index.classes[id]? with
  | none => rfl
  | some record => exact record.parents_relinked number

theorem Renumbered.memberRefsOf_eq (id : ClassId) : other.memberRefsOf (number id) = index.memberRefsOf id := by
  rw [memberRefsOf, memberRefsOf, h.classes]
  cases index.classes[id]? <;> rfl

theorem Renumbered.range_perm :
    ((List.range index.classes.size).map number).Perm (List.range other.classes.size) := by
  have hlt : ∀ id, number id < other.classes.size ↔ id < index.classes.size := by
    intro id
    rw [← Nat.not_le, ← Nat.not_le, ← Array.getElem?_eq_none_iff, ← Array.getElem?_eq_none_iff, h.classes,
      Option.map_eq_none_iff]
  refine (List.perm_ext_iff_of_nodup (List.nodup_range.map number.injective) List.nodup_range).mpr fun id => ?_
  rw [List.mem_map, List.mem_range]
  constructor
  · rintro ⟨old, hold, rfl⟩
    exact (hlt old).mpr (List.mem_range.mp hold)
  · intro hid
    refine ⟨number.symm id, List.mem_range.mpr ((hlt _).mp ?_), number.apply_symm_apply id⟩
    rw [number.apply_symm_apply]
    exact hid

/-- The ancestors of a class are the same ones in the same order. -/
theorem Renumbered.ancestors_eq (id : ClassId) : other.ancestors (number id) = (index.ancestors id).map number := by
  rw [ancestors, ancestors, h.parentsOf_eq, ← walk_map number h.parentsOf_eq, List.map_erase number.injective]
  exact (walk_perm _ (h.range_perm.erase _) _).symm

theorem Renumbered.inheritedRefs_eq (id : ClassId) : other.inheritedRefs (number id) = index.inheritedRefs id := by
  rw [inheritedRefs, inheritedRefs, h.ancestors_eq, List.flatMap_map]
  exact List.flatMap_congr fun ancestor _ => h.memberRefsOf_eq ancestor

theorem Renumbered.inheritances_perm : other.inheritances.Perm index.inheritances := by
  have hsame : ∀ id, other.inheritancesOf (number id) = index.inheritancesOf id := by
    intro id
    rw [inheritancesOf, inheritancesOf, h.classes, h.inheritedRefs_eq, Option.map_map]
    rfl
  have hall : index.inheritances = ((List.range index.classes.size).map number).flatMap other.inheritancesOf := by
    rw [List.flatMap_map]
    exact List.flatMap_congr fun id _ => (hsame id).symm
  rw [hall]
  exact (h.range_perm.flatMap_right _).symm

end Renumbered

/-! ## What modules gain -/

/-- What the classes of a module inherit, class by class. -/
def gained (index : Index) (id : ModuleId) : List String :=
  (index.inheritances.filter (·.1 = id)).map Prod.snd

theorem refs_foldl_inheritRef (inherited : List (ModuleId × String)) (index : Index) (id : ModuleId) :
    (inherited.foldl inheritRef index).modules[id]?.map (fun record => (record.classRefs, record.packageRefs)) =
      index.modules[id]?.map fun record =>
        (record.classRefs.addAll ((inherited.filter (·.1 = id)).map Prod.snd),
          record.packageRefs.addAll (((inherited.filter (·.1 = id)).map Prod.snd).filterMap packageOf?)) := by
  induction inherited generalizing index with
  | nil => rfl
  | cons first rest ih =>
    obtain ⟨module, typeName⟩ := first
    rw [List.foldl_cons, ih, inheritRef, refer, getElem?_updateModule]
    by_cases hid : module = id
    · rw [if_pos hid, List.filter_cons_of_pos (by simpa using hid), List.map_cons, Option.map_map]
      refine congrArg (fun change => Option.map change _) (funext fun record => ?_)
      cases hp : packageOf? typeName with
      | none =>
        rw [List.filterMap_cons_none hp]
        rfl
      | some package =>
        rw [List.filterMap_cons_some hp]
        rfl
    · rw [if_neg hid, List.filter_cons_of_neg (by simpa using hid)]
      rfl

theorem refs_inheritAll (index : Index) (id : ModuleId) :
    index.inheritAll.modules[id]?.map (fun record => (record.classRefs, record.packageRefs)) =
      (index.modules[id]?.map fun record => (record.classRefs, record.packageRefs)).map fun refs =>
        (refs.1.addAll (index.gained id), refs.2.addAll ((index.gained id).filterMap packageOf?)) := by
  rw [inheritAll_eq, refs_foldl_inheritRef, Option.map_map]
  rfl

theorem Renumbered.counts_eq {number : Equiv.Perm ClassId} {index other : Index} (h : Renumbered number index other)
    (id : ModuleId) (name : String) :
    (other.inheritAll.classCountsOf id).get? name = (index.inheritAll.classCountsOf id).get? name ∧
    (other.inheritAll.packageCountsOf id).get? name = (index.inheritAll.packageCountsOf id).get? name := by
  have hgained : (other.gained id).Perm (index.gained id) := (h.inheritances_perm.filter _).map _
  -- what was referred to before is the same, and what is gained is counted as often
  have hrefs := (refs_inheritAll other id).trans (congrArg (Option.map _) (h.refs id))
  have hrefs' := refs_inheritAll index id
  have hview : ∀ i : Index, i.classCountsOf id =
      ((i.modules[id]?.map fun record => (record.classRefs, record.packageRefs)).map Prod.fst).getD {} ∧
      i.packageCountsOf id =
        ((i.modules[id]?.map fun record => (record.classRefs, record.packageRefs)).map Prod.snd).getD {} := by
    intro i
    rw [classCountsOf, packageCountsOf, Option.map_map, Option.map_map]
    exact ⟨rfl, rfl⟩
  rw [(hview _).1, (hview _).2, (hview index.inheritAll).1, (hview index.inheritAll).2, hrefs, hrefs']
  cases index.modules[id]? with
  | none => exact ⟨rfl, rfl⟩
  | some record =>
    simp only [Option.map_some, Option.getD_some, Counts.get?_addAll, hgained.count_eq,
      (hgained.filterMap packageOf?).count_eq, and_self]

/-- The walk through the ancestors of a class, whatever the links are, gives the references of the members of every
other class that links lead to, once each and in the order of the recursion. So what modules refer to in the end, and
how often, does not depend on how the classes are numbered. -/
theorem inherits_in_preorder (index : Index) :
    (∀ id, index.inheritedRefs id = (index.above id).flatMap index.memberRefsOf ∧ (index.above id).Nodup ∧
      ∀ ancestor, ancestor ∈ index.above id ↔
        ancestor < index.classes.size ∧ index.ProperAncestor id ancestor) ∧
    ∀ (number : Equiv.Perm ClassId) (other : Index), Renumbered number index other →
      ∀ (id : ModuleId) (name : String),
        (other.inheritAll.classCountsOf id).get? name = (index.inheritAll.classCountsOf id).get? name ∧
        (other.inheritAll.packageCountsOf id).get? name = (index.inheritAll.packageCountsOf id).get? name := by
  refine ⟨fun id => ?_, fun number other h => h.counts_eq⟩
  rw [inheritedRefs, ← ancestors_eq_above]
  exact ⟨rfl, index.nodup_ancestors id, fun ancestor => mem_ancestors⟩

end Index

end ModuleAudit
