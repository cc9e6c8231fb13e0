import Mathlib.Logic.Relation
import ModuleAudit.Index.Supertypes
import ModuleAudit.Proofs.Visibility.View

/-! The walk through the ancestors of a class. It meets exactly the classes that can be reached from where it
starts without leaving what is left to be met (`mem_walk`), and so, in any index, cyclic ones too, exactly the
other classes that links lead to (`mem_ancestors`). -/

namespace ModuleAudit
set_option autoImplicit false

namespace Index

/-- There is a way from one class to another by links, all of it within `left`. -/
inductive Reaches (parents : ClassId → List ClassId) (left : List ClassId) : ClassId → ClassId → Prop
  | here {a : ClassId} (ha : a ∈ left) : Reaches parents left a a
  | step {a b c : ClassId} (ha : a ∈ left) (hb : b ∈ parents a) (h : Reaches parents left b c) :
    Reaches parents left a c

section Reaches

variable {parents : ClassId → List ClassId} {left : List ClassId} {a b c : ClassId}

theorem Reaches.start_mem (h : Reaches parents left a b) : a ∈ left := by
  cases h with
  | here ha => exact ha
  | step ha _ _ => exact ha

theorem Reaches.end_mem (h : Reaches parents left a b) : b ∈ left := by
  induction h with
  | here ha => exact ha
  | step _ _ _ ih => exact ih

theorem Reaches.of_erase (h : Reaches parents (left.erase c) a b) : Reaches parents left a b := by
  induction h with
  | here ha => exact .here (List.mem_of_mem_erase ha)
  | step ha hb _ ih => exact .step (List.mem_of_mem_erase ha) hb ih

/-- A way either keeps clear of a class or can be taken up again after its last visit there. -/
theorem Reaches.cut (h : Reaches parents left a b) (c : ClassId) :
    b = c ∨ Reaches parents (left.erase c) a b ∨ ∃ p ∈ parents c, Reaches parents (left.erase c) p b := by
  induction h with
  | @here a ha =>
    by_cases hac : a = c
    · exact Or.inl hac
    · exact Or.inr (Or.inl (.here ((List.mem_erase_of_ne hac).mpr ha)))
  | @step a p b ha hp _ ih =>
    rcases ih with hbc | hclear | hlater
    · exact Or.inl hbc
    · by_cases hac : a = c
      · subst hac
        exact Or.inr (Or.inr ⟨p, hp, hclear⟩)
      · exact Or.inr (Or.inl (.step ((List.mem_erase_of_ne hac).mpr ha) hp hclear))
    · exact Or.inr (Or.inr hlater)

/-- From a class itself, what can be reached is the class and what its parents reach without it. -/
theorem Reaches.cut_start (h : Reaches parents left a b) :
    b = a ∨ ∃ p ∈ parents a, Reaches parents (left.erase a) p b := by
  rcases h.cut a with hba | hclear | hlater
  · exact Or.inl hba
  · cases hclear with
    | here _ => exact Or.inl rfl
    | step _ hp hrest => exact Or.inr ⟨_, hp, hrest⟩
  · exact Or.inr hlater

end Reaches

theorem mem_walk (parents : ClassId → List ClassId) (left pending : List ClassId) (x : ClassId) :
    x ∈ walk parents left pending ↔ ∃ p ∈ pending, Reaches parents left p x := by
  fun_induction walk parents left pending with
  | case1 left => simp
  | case2 left id pending hfresh ih =>
    rw [List.mem_cons, ih]
    constructor
    · rintro (rfl | ⟨p, hp, hreach⟩)
      · exact ⟨x, List.mem_cons_self, .here hfresh⟩
      · rcases List.mem_append.mp hp with hparent | hpending
        · exact ⟨id, List.mem_cons_self, .step hfresh hparent hreach.of_erase⟩
        · exact ⟨p, List.mem_cons_of_mem _ hpending, hreach.of_erase⟩
    · rintro ⟨p, hp, hreach⟩
      rcases List.mem_cons.mp hp with rfl | hpending
      · rcases hreach.cut_start with hx | ⟨q, hq, hrest⟩
        · exact Or.inl hx
        · exact Or.inr ⟨q, List.mem_append_left _ hq, hrest⟩
      · rcases hreach.cut id with hx | hclear | ⟨q, hq, hrest⟩
        · exact Or.inl hx
        · exact Or.inr ⟨p, List.mem_append_right _ hpending, hclear⟩
        · exact Or.inr ⟨q, List.mem_append_left _ hq, hrest⟩
  | case3 left id pending hfresh ih =>
    rw [ih]
    constructor
    · rintro ⟨p, hp, hreach⟩
      exact ⟨p, List.mem_cons_of_mem _ hp, hreach⟩
    · rintro ⟨p, hp, hreach⟩
      rcases List.mem_cons.mp hp with rfl | hpending
      · exact absurd hreach.start_mem hfresh
      · exact ⟨p, hpending, hreach⟩

/-- One class is linked to another. -/
def Linked (index : Index) (a b : ClassId) : Prop := b ∈ index.parentsOf a

/-- A class is another one that links lead to from the first. -/
def ProperAncestor (index : Index) (id ancestor : ClassId) : Prop :=
  ancestor ≠ id ∧ Relation.TransGen index.Linked id ancestor

section Ancestors

variable {index : Index} {id a b : ClassId}

theorem transGen_of_reaches {left : List ClassId} (hp : a ∈ index.parentsOf id)
    (h : Reaches index.parentsOf left a b) : Relation.TransGen index.Linked id b := by
  induction h generalizing id with
  | here _ => exact .single hp
  | step _ hb _ ih => exact .head hp (ih hb)

theorem reaches_of_reflTransGen (h : Relation.ReflTransGen index.Linked a b) (hlt : b < index.classes.size)
    (hne : b ≠ id) :
    Reaches index.parentsOf ((List.range index.classes.size).erase id) a b ∨
      ∃ p ∈ index.parentsOf id, Reaches index.parentsOf ((List.range index.classes.size).erase id) p b := by
  have hleft : ∀ {c : ClassId}, c < index.classes.size → c ≠ id →
      c ∈ (List.range index.classes.size).erase id :=
    fun hc hcid => (List.mem_erase_of_ne hcid).mpr (List.mem_range.mpr hc)
  induction h using Relation.ReflTransGen.head_induction_on with
  | refl => exact Or.inl (.here (hleft hlt hne))
  | @head a p hp _ ih =>
    rcases ih with hclear | hlater
    · by_cases ha : a = id
      · subst ha
        exact Or.inr ⟨p, hp, hclear⟩
      · exact Or.inl (.step (hleft (lt_size_of_mem hp) ha) hp hclear)
    · exact Or.inr hlater

theorem mem_ancestors :
    a ∈ index.ancestors id ↔ a < index.classes.size ∧ index.ProperAncestor id a := by
  have hdistinct : (List.range index.classes.size).Nodup := List.nodup_range
  rw [ancestors, mem_walk]
  constructor
  · rintro ⟨p, hp, hreach⟩
    obtain ⟨hne, hrange⟩ := (List.Nodup.mem_erase_iff hdistinct).mp hreach.end_mem
    exact ⟨List.mem_range.mp hrange, hne, transGen_of_reaches hp hreach⟩
  · rintro ⟨hlt, hne, hlinks⟩
    obtain ⟨p, hp, hrest⟩ := Relation.TransGen.head'_iff.mp hlinks
    rcases reaches_of_reflTransGen hrest hlt hne with hclear | hlater
    · exact ⟨p, hp, hclear⟩
    · exact hlater

theorem mem_inheritedRefs {typeName : String} : typeName ∈ index.inheritedRefs id ↔
    ∃ ancestor, index.ProperAncestor id ancestor ∧ typeName ∈ index.memberRefsOf ancestor := by
  rw [inheritedRefs, List.mem_flatMap]
  constructor
  · rintro ⟨ancestor, ha, hm⟩
    exact ⟨ancestor, (mem_ancestors.mp ha).2, hm⟩
  · rintro ⟨ancestor, ha, hm⟩
    exact ⟨ancestor, mem_ancestors.mpr ⟨lt_size_of_mem hm, ha⟩, hm⟩

end Ancestors

end Index

end ModuleAudit
