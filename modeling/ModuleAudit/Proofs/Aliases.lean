import ModuleAudit.Index.Basic
import ModuleAudit.Proofs.Ordered

/-! Following aliases finds the module at the end of a chain of aliases, if there is one, and nothing else
(`follow_eq_some_iff`). Each alias is followed at most once, and that loses nothing: a chain that comes back to a
name can be taken up again after the last visit there (`StandsFor.cut`). -/

namespace ModuleAudit
set_option autoImplicit false

theorem OrderedMap.get?_erase {κ υ : Type} [DecidableEq κ] (m : OrderedMap κ υ) (key other : κ) :
    (m.erase key).get? other = if other = key then none else m.get? other := by
  rw [get?, erase, List.find?_filter]
  by_cases h : other = key
  · subst h
    simp
  · have hpred : (fun entry : κ × υ => decide (decide (entry.1 ≠ key) = true ∧ decide (entry.1 = other) = true)) =
        fun entry => decide (entry.1 = other) := by
      funext entry
      by_cases he : entry.1 = other
      · simp [he, h]
      · simp [he]
    rw [if_neg h, hpred]
    rfl

namespace Index

/-- A name stands for a module if it is the module's own, or no module's own and an alias of a name that stands for
the module. -/
inductive StandsFor (byName : OrderedMap String ModuleId) (aliases : OrderedMap String String) :
    String → ModuleId → Prop
  | own {name : String} {id : ModuleId} (hn : byName.get? name = some id) : StandsFor byName aliases name id
  | link {name target : String} {id : ModuleId} (hn : byName.get? name = none)
      (ha : aliases.get? name = some target) (h : StandsFor byName aliases target id) :
      StandsFor byName aliases name id

section StandsFor

variable {byName : OrderedMap String ModuleId} {aliases : OrderedMap String String} {name target other : String}
  {id : ModuleId}

theorem StandsFor.of_erase (h : StandsFor byName (aliases.erase other) name id) :
    StandsFor byName aliases name id := by
  induction h with
  | own hn => exact .own hn
  | @link name target id hn ha _ ih =>
    rw [OrderedMap.get?_erase] at ha
    split at ha
    · cases ha
    · exact .link hn ha ih

/-- A chain keeps clear of an alias, or can be taken up again at its target. -/
theorem StandsFor.cut (h : StandsFor byName aliases other id) (ha : aliases.get? name = some target) :
    StandsFor byName (aliases.erase name) other id ∨ StandsFor byName (aliases.erase name) target id := by
  induction h with
  | own hn => exact Or.inl (.own hn)
  | @link other next id hn hnext _ ih =>
    by_cases he : other = name
    · subst he
      obtain rfl : next = target := Option.some.inj (hnext.symm.trans ha)
      exact Or.inr (ih.elim (fun h => h) (fun h => h))
    · rcases ih with hclear | hlater
      · refine Or.inl (.link hn ?_ hclear)
        rw [OrderedMap.get?_erase, if_neg he, hnext]
      · exact Or.inr hlater

end StandsFor

theorem follow_eq_some_iff {byName : OrderedMap String ModuleId} {aliases : OrderedMap String String}
    {name : String} {id : ModuleId} :
    follow byName aliases name = some id ↔ StandsFor byName aliases name id := by
  fun_induction follow byName aliases name with
  | case1 aliases name known hn =>
    constructor
    · intro h
      exact .own (hn.trans h)
    · intro h
      cases h with
      | own hn' => exact hn.symm.trans hn'
      | link hn' => rw [hn] at hn'; cases hn'
  | case2 aliases name hn target ha ih =>
    rw [ih]
    constructor
    · intro h
      exact .link hn ha h.of_erase
    · intro h
      cases h with
      | own hn' => rw [hn] at hn'; cases hn'
      | @link _ next _ _ hnext h =>
        obtain rfl : next = target := Option.some.inj (hnext.symm.trans ha)
        exact (h.cut ha).elim (fun h => h) (fun h => h)
  | case3 aliases name hn ha =>
    constructor
    · intro h
      cases h
    · intro h
      cases h with
      | own hn' => rw [hn] at hn'; cases hn'
      | link _ ha' => rw [ha] at ha'; cases ha'

theorem StandsFor.congr {byName byName' : OrderedMap String ModuleId} {aliases aliases' : OrderedMap String String}
    (hn : ∀ name, byName.get? name = byName'.get? name) (ha : ∀ name, aliases.get? name = aliases'.get? name)
    {name : String} {id : ModuleId} (h : StandsFor byName aliases name id) : StandsFor byName' aliases' name id := by
  induction h with
  | own h => exact .own ((hn _).symm.trans h)
  | link h h' _ ih => exact .link ((hn _).symm.trans h) ((ha _).symm.trans h') ih

/-- What a name stands for depends on look-ups alone. -/
theorem follow_congr {byName byName' : OrderedMap String ModuleId} {aliases aliases' : OrderedMap String String}
    (hn : ∀ name, byName.get? name = byName'.get? name) (ha : ∀ name, aliases.get? name = aliases'.get? name) :
    follow byName aliases = follow byName' aliases' := by
  funext name
  refine Option.ext fun id => ?_
  rw [follow_eq_some_iff, follow_eq_some_iff]
  exact ⟨fun h => h.congr hn ha, fun h => h.congr (fun n => (hn n).symm) fun n => (ha n).symm⟩

end Index

end ModuleAudit
