import Mathlib.Logic.Relation
import ModuleAudit.Proofs.Aliases
import ModuleAudit.Proofs.Symbols

/-! What names stand for after any row of registrations. A name that is no module's leads to the target of its last
alias (`Forwards`), and the module of a name is at the end of such a chain. A chain that has no module at its end runs
into a name that leads nowhere or comes back to itself (`follow_eq_none_iff`). What is only pooled plays no part in
this, and a pooled name keeps its symbol whatever comes later. -/

namespace ModuleAudit
set_option autoImplicit false

open Relation

namespace Index

/-! ## Chains of aliases -/

/-- A name is no module's own and an alias of another. -/
def Forwards (owner : String → Option ModuleId) (target : String → Option String) (name next : String) : Prop :=
  owner name = none ∧ target name = some next

/-- A name is neither a module's own nor an alias. -/
def DeadEnd (owner : String → Option ModuleId) (target : String → Option String) (name : String) : Prop :=
  owner name = none ∧ target name = none

/-- The chain from a name runs into a dead end or into a cycle. -/
def Stuck (owner : String → Option ModuleId) (target : String → Option String) (name : String) : Prop :=
  ∃ last, ReflTransGen (Forwards owner target) name last ∧
    (DeadEnd owner target last ∨ TransGen (Forwards owner target) last last)

section Chains

variable {byName : OrderedMap String ModuleId} {aliases : OrderedMap String String} {name : String} {id : ModuleId}

theorem standsFor_iff_chain : StandsFor byName aliases name id ↔
    ∃ last, ReflTransGen (Forwards byName.get? aliases.get?) name last ∧ byName.get? last = some id := by
  constructor
  · intro h
    induction h with
    | own hn => exact ⟨_, .refl, hn⟩
    | link hn ha _ ih =>
      obtain ⟨last, hchain, hlast⟩ := ih
      exact ⟨last, .head ⟨hn, ha⟩ hchain, hlast⟩
  · rintro ⟨last, hchain, hlast⟩
    induction hchain using ReflTransGen.head_induction_on with
    | refl => exact .own hlast
    | head hstep _ ih => exact .link hstep.1 hstep.2 ih

/-- What stands for a module is not stuck, since each name leads to one other at most. -/
theorem StandsFor.not_stuck (h : StandsFor byName aliases name id) : ¬Stuck byName.get? aliases.get? name := by
  induction h with
  | @own name id hn =>
    have hnone : ∀ next, ¬Forwards byName.get? aliases.get? name next := by
      rintro next ⟨ho, -⟩
      rw [hn] at ho
      cases ho
    rintro ⟨last, hchain, hlast⟩
    rcases hchain.cases_head with rfl | ⟨next, hnext, -⟩
    · rcases hlast with ⟨ho, -⟩ | hcycle
      · rw [hn] at ho
        cases ho
      · obtain ⟨next, hnext, -⟩ := TransGen.head'_iff.mp hcycle
        exact hnone next hnext
    · exact hnone next hnext
  | @link name target id hn ha _ ih =>
    have honly : ∀ next, Forwards byName.get? aliases.get? name next → next = target := by
      rintro next ⟨-, hnext⟩
      exact Option.some.inj (hnext.symm.trans ha)
    rintro ⟨last, hchain, hlast⟩
    rcases hchain.cases_head with rfl | ⟨next, hnext, hrest⟩
    · rcases hlast with ⟨-, hdead⟩ | hcycle
      · rw [ha] at hdead
        cases hdead
      · -- A cycle through the name passes through its target.
        obtain ⟨next, hnext, hback⟩ := TransGen.head'_iff.mp hcycle
        obtain rfl := honly next hnext
        exact ih ⟨next, .refl, Or.inr (TransGen.tail' hback hnext)⟩
    · obtain rfl := honly next hnext
      exact ih ⟨last, hrest, hlast⟩

/-- The aliases that are not left have been followed on the way here, so that coming back to one closes a cycle. -/
theorem stuck_of_follow_eq_none {left : OrderedMap String String}
    (hleft : ∀ known, left.get? known = aliases.get? known ∨
      left.get? known = none ∧ TransGen (Forwards byName.get? aliases.get?) known name)
    (h : follow byName left name = none) : Stuck byName.get? aliases.get? name := by
  fun_induction follow byName left name with
  | case1 left name known hn => cases h
  | case2 left name hn target ht ih =>
    have hstep : Forwards byName.get? aliases.get? name target := by
      rcases hleft name with heq | ⟨hnone, -⟩
      · exact ⟨hn, heq ▸ ht⟩
      · rw [hnone] at ht
        cases ht
    have hnext : ∀ known, (left.erase name).get? known = aliases.get? known ∨
        (left.erase name).get? known = none ∧ TransGen (Forwards byName.get? aliases.get?) known target := by
      intro known
      rw [OrderedMap.get?_erase]
      by_cases hk : known = name
      · rw [if_pos hk, hk]
        exact Or.inr ⟨rfl, .single hstep⟩
      · rw [if_neg hk]
        exact (hleft known).imp_right fun hgone => ⟨hgone.1, .tail hgone.2 hstep⟩
    obtain ⟨last, hchain, hlast⟩ := ih hnext h
    exact ⟨last, .head hstep hchain, hlast⟩
  | case3 left name hn ht =>
    rcases hleft name with heq | ⟨-, hcycle⟩
    · exact ⟨name, .refl, Or.inl ⟨hn, heq.symm.trans ht⟩⟩
    · exact ⟨name, .refl, Or.inr hcycle⟩

theorem follow_eq_none_iff : follow byName aliases name = none ↔ Stuck byName.get? aliases.get? name := by
  refine ⟨stuck_of_follow_eq_none fun _ => Or.inl rfl, fun hstuck => ?_⟩
  rw [Option.eq_none_iff_forall_not_mem]
  intro id hid
  exact (follow_eq_some_iff.mp hid).not_stuck hstuck

end Chains

end Index

/-! ## Histories -/

/-- What an index is told of names: a module, an alias, or a text that is only pooled. -/
inductive Naming where
  | module (name : String)
  | link (name target : String)
  | text (text : String)
  deriving Repr, DecidableEq

namespace Naming

/-- The module that is registered. -/
def module? : Naming → Option String
  | .module name => some name
  | _ => none

/-- The target that a name is given. -/
def targetOf? (name : String) : Naming → Option String
  | .link known target => if known = name then some target else none
  | _ => none

/-- Whether something is said to stand for something. -/
def binds : Naming → Bool
  | .text _ => false
  | _ => true

/-- Tells an index. -/
def apply (index : Index) : Naming → Index
  | .module name => (index.addModule name).1
  | .link name target => index.addAlias name target
  | .text pooled => index.pooling (·.add pooled)

end Naming

/-- The modules of a history in the order in which they were first registered. -/
def modulesIn (history : List Naming) : List String := (history.filterMap Naming.module?).eraseDups

/-- The number of a module. -/
def numberIn? (history : List Naming) (name : String) : Option ModuleId := (modulesIn history).idxOf? name

/-- The target that a name was given last. -/
def targetIn? (history : List Naming) (name : String) : Option String :=
  history.reverse.findSome? (Naming.targetOf? name)

/-- The index that was told a history. -/
def Index.ofHistory (history : List Naming) : Index := history.foldl Naming.apply {}

section Histories

variable (history : List Naming)

theorem modulesIn_concat_of_none {naming : Naming} (h : naming.module? = none) :
    modulesIn (history ++ [naming]) = modulesIn history := by
  rw [modulesIn, List.filterMap_append, List.filterMap_cons_none h, List.filterMap_nil, List.append_nil, modulesIn]

theorem modulesIn_concat_module (name : String) : modulesIn (history ++ [.module name]) =
    if name ∈ modulesIn history then modulesIn history else modulesIn history ++ [name] := by
  have hone : [Naming.module name].filterMap Naming.module? = [name] := rfl
  simp only [modulesIn, List.filterMap_append, hone, List.eraseDups_append, List.mem_eraseDups]
  generalize history.filterMap Naming.module? = known
  by_cases h : name ∈ known
  · simp [List.removeAll, h]
  · simp [List.removeAll, h, List.eraseDups_cons]

theorem numberIn?_concat_module (name other : String) : numberIn? (history ++ [.module name]) other =
    (numberIn? history other).or (if other = name then some (modulesIn history).length else none) := by
  rw [numberIn?, numberIn?, modulesIn_concat_module]
  split
  · rename_i hmem
    by_cases ho : other = name
    · obtain ⟨number, hn⟩ := Option.isSome_iff_exists.mp (List.isSome_idxOf?.mpr (ho ▸ hmem))
      rw [hn, Option.some_or]
    · rw [if_neg ho, Option.or_none]
  · have hfind : ∀ l : List String, l.idxOf? other = l.findIdx? (· == other) := fun _ => rfl
    rw [hfind, hfind, List.findIdx?_append]
    by_cases ho : other = name
    · simp [ho, List.findIdx?_cons]
    · simp [ho, List.findIdx?_cons, Ne.symm ho]

theorem targetIn?_concat (naming : Naming) (name : String) :
    targetIn? (history ++ [naming]) name = (naming.targetOf? name).or (targetIn? history name) := by
  rw [targetIn?, targetIn?, List.reverse_append, List.reverse_singleton, List.singleton_append, List.findSome?_cons]
  cases naming.targetOf? name <;> rfl

theorem mem_modulesIn_iff (name : String) : name ∈ modulesIn history ↔ (numberIn? history name).isSome := by
  rw [numberIn?, List.isSome_idxOf?]

/-! ## The index of a history -/

namespace Index

/-- The tables of an index say what its history says. -/
structure Knows (index : Index) : Prop where
  records : index.modules.toList.map (·.name) = modulesIn history
  numbers : index.byName.get? = numberIn? history
  targets : index.aliases.get? = targetIn? history

variable {history} {index : Index} (h : index.Knows history)
include h

/-- What registers no module leaves the modules alone. -/
theorem Knows.of_module?_eq_none {naming : Naming} (hnone : naming.module? = none) {next : Index}
    (hmodules : next.modules = index.modules) (hnumbers : next.byName = index.byName)
    (htargets : next.aliases.get? = targetIn? (history ++ [naming])) : next.Knows (history ++ [naming]) where
  records := by rw [hmodules, modulesIn_concat_of_none history hnone, h.records]
  numbers := by
    funext other
    rw [hnumbers, numberIn?, modulesIn_concat_of_none history hnone, h.numbers, numberIn?]
  targets := htargets

theorem Knows.addModule (name : String) : (index.addModule name).1.Knows (history ++ [.module name]) := by
  have hsize : index.modules.size = (modulesIn history).length := by
    rw [← h.records, List.length_map, Array.length_toList]
  have htargets : index.aliases.get? = targetIn? (history ++ [.module name]) := by
    funext other
    rw [h.targets, targetIn?_concat]
    rfl
  simp only [Index.addModule, pooling]
  cases hn : index.byName.get? name with
  | some id =>
    have hmem : name ∈ modulesIn history := by
      rw [mem_modulesIn_iff, ← h.numbers, hn]
      rfl
    refine ⟨?_, ?_, htargets⟩
    · rw [modulesIn_concat_module, if_pos hmem, h.records]
    · funext other
      rw [numberIn?, modulesIn_concat_module, if_pos hmem, h.numbers, numberIn?]
  | none =>
    have hnew : name ∉ modulesIn history := by
      rw [mem_modulesIn_iff, ← h.numbers, hn]
      simp
    refine ⟨?_, ?_, htargets⟩
    · rw [modulesIn_concat_module, if_neg hnew, Array.toList_push, List.map_append, h.records]
      rfl
    · funext other
      rw [numberIn?_concat_module, ← h.numbers, ← hsize]
      simp only [OrderedMap.insert, OrderedMap.get?_alter]
      by_cases ho : other = name
      · rw [if_pos ho, if_pos ho, ho, hn, Option.none_or]
      · rw [if_neg ho, if_neg ho, Option.or_none]

theorem Knows.addAlias (name target : String) :
    (index.addAlias name target).Knows (history ++ [.link name target]) := by
  refine h.of_module?_eq_none rfl rfl rfl ?_
  funext other
  rw [targetIn?_concat, Naming.targetOf?, ← h.targets]
  simp only [Index.addAlias, pooling, OrderedMap.insert, OrderedMap.get?_alter]
  by_cases ho : other = name
  · rw [if_pos ho, if_pos ho.symm, Option.some_or]
  · rw [if_neg ho, if_neg (Ne.symm ho), Option.none_or]

theorem Knows.apply (naming : Naming) : (naming.apply index).Knows (history ++ [naming]) := by
  cases naming with
  | module name => exact h.addModule name
  | link name target => exact h.addAlias name target
  | text pooled =>
    refine h.of_module?_eq_none rfl rfl rfl ?_
    funext other
    rw [targetIn?_concat, ← h.targets]
    rfl

omit h in
theorem knows_ofHistory (history : List Naming) : (ofHistory history).Knows history :=
  foldl_passed (P := fun done index => Knows done index) ⟨rfl, rfl, rfl⟩ fun _ naming _ _ _ h => h.apply naming

theorem Knows.findModule?_iff_chain (name : String) (id : ModuleId) : index.findModule? name = some id ↔
    ∃ last, ReflTransGen (Forwards (numberIn? history) (targetIn? history)) name last ∧
      numberIn? history last = some id := by
  rw [findModule?, follow_eq_some_iff, standsFor_iff_chain, h.numbers, h.targets]

theorem Knows.findModule?_eq_none_iff (name : String) :
    index.findModule? name = none ↔ Stuck (numberIn? history) (targetIn? history) name := by
  rw [findModule?, follow_eq_none_iff, h.numbers, h.targets]

/-- What is no module's own stands for what its alias stands for. -/
theorem Knows.findModule?_eq_of_forwards {name target : String}
    (hforwards : Forwards (numberIn? history) (targetIn? history) name target) :
    index.findModule? name = index.findModule? target := by
  refine Option.ext fun id => ?_
  rw [h.findModule?_iff_chain, h.findModule?_iff_chain]
  constructor
  · rintro ⟨last, hchain, hlast⟩
    rcases hchain.cases_head with rfl | ⟨next, hnext, hrest⟩
    · rw [hforwards.1] at hlast
      cases hlast
    · obtain rfl : next = target := Option.some.inj (hnext.2.symm.trans hforwards.2)
      exact ⟨last, hrest, hlast⟩
  · rintro ⟨last, hchain, hlast⟩
    exact ⟨last, .head hforwards hchain, hlast⟩

end Index

end Histories

/-! ## Pooled names -/

namespace Naming

/-- The names that are pooled. -/
def pooled : Naming → List String
  | .module name => [name]
  | .link name target => [name, target]
  | .text pooled => [pooled]

theorem pool_apply (naming : Naming) (index : Index) :
    (naming.apply index).pool = naming.pooled.foldl NamePool.add index.pool := by
  cases naming with
  | module name =>
    simp only [apply, Index.addModule, Index.pooling]
    split <;> rfl
  | link name target => rfl
  | text pooled => rfl

end Naming

namespace Index

theorem lookup?_foldl_add {pool : NamePool} {name : String} {symbol : Symbol} (h : pool.lookup? name = some symbol)
    (added : List String) : (added.foldl NamePool.add pool).lookup? name = some symbol := by
  induction added generalizing pool with
  | nil => exact h
  | cons first rest ih => exact ih (NamePool.lookup?_add h first)

theorem pool_ofHistory (history : List Naming) :
    (ofHistory history).pool = (history.flatMap Naming.pooled).foldl NamePool.add {} := by
  refine foldl_passed (P := fun done (index : Index) =>
    index.pool = (done.flatMap Naming.pooled).foldl NamePool.add {}) rfl ?_
  intro done naming rest index _ h
  rw [naming.pool_apply, h, List.flatMap_append, List.foldl_append, List.flatMap_singleton]

theorem exists_lookup?_of_mem {added : List String} {name : String} (h : name ∈ added) (pool : NamePool) :
    ∃ symbol, (added.foldl NamePool.add pool).lookup? name = some symbol := by
  obtain ⟨before, after, rfl⟩ := List.append_of_mem h
  obtain ⟨symbol, hs⟩ := NamePool.exists_lookup?_add (before.foldl NamePool.add pool) name
  rw [List.foldl_append, List.foldl_cons]
  exact ⟨symbol, lookup?_foldl_add hs after⟩

/-- A name that stands for a module is pooled. -/
theorem mem_pooled_of_findModule? {history : List Naming} {name : String} {id : ModuleId}
    (h : (ofHistory history).findModule? name = some id) : name ∈ history.flatMap Naming.pooled := by
  obtain ⟨last, hchain, hlast⟩ := ((knows_ofHistory history).findModule?_iff_chain name id).mp h
  rcases hchain.cases_head with rfl | ⟨next, ⟨-, htarget⟩, -⟩
  · have hmem : name ∈ modulesIn history := (mem_modulesIn_iff history name).mpr (by rw [hlast]; rfl)
    rw [modulesIn, List.mem_eraseDups, List.mem_filterMap] at hmem
    obtain ⟨naming, hn, hm⟩ := hmem
    refine List.mem_flatMap.mpr ⟨naming, hn, ?_⟩
    cases naming with
    | module known => exact List.mem_singleton.mpr (Option.some.inj hm).symm
    | _ => cases hm
  · obtain ⟨naming, hn, ht⟩ := List.exists_of_findSome?_eq_some htarget
    refine List.mem_flatMap.mpr ⟨naming, List.mem_reverse.mp hn, ?_⟩
    cases naming with
    | link known target =>
      rw [Naming.targetOf?] at ht
      split at ht
      · rename_i hknown
        exact hknown ▸ List.mem_cons_self
      · cases ht
    | _ => cases ht

/-- Answers depend on what was said to stand for something, and on nothing else. -/
theorem findModule?_congr {history other : List Naming} (h : other.filter Naming.binds = history.filter Naming.binds) :
    (ofHistory other).findModule? = (ofHistory history).findModule? := by
  have hmodules : ∀ l : List Naming, modulesIn l = modulesIn (l.filter Naming.binds) := by
    intro l
    rw [modulesIn, modulesIn, List.filterMap_filter]
    congr 2
    funext naming
    cases naming <;> rfl
  have htargets : ∀ (l : List Naming) (name : String), targetIn? l name = targetIn? (l.filter Naming.binds) name := by
    intro l name
    rw [targetIn?, targetIn?, ← List.head?_filterMap, ← List.head?_filterMap, ← List.filter_reverse,
      List.filterMap_filter]
    congr 2
    funext naming
    cases naming <;> rfl
  refine follow_congr (fun name => ?_) fun name => ?_
  · rw [(knows_ofHistory other).numbers, (knows_ofHistory history).numbers, numberIn?, numberIn?, hmodules other, h,
      ← hmodules]
  · rw [(knows_ofHistory other).targets, (knows_ofHistory history).targets, htargets other, h, ← htargets]

/-- After any history, a name stands for the module at the end of the chain of last aliases that starts with it, and
for none where the chain ends without a module or never ends. A module's own name is the end of its chain whatever
aliases it has, the last alias of another name is the one that counts, and texts that are pooled as well change
nothing. -/
theorem name_stands_for_chain_end (history : List Naming) (name : String) :
    (∀ id, (ofHistory history).findModule? name = some id ↔
      ∃ last, ReflTransGen (Forwards (numberIn? history) (targetIn? history)) name last ∧
        numberIn? history last = some id) ∧
    ((ofHistory history).findModule? name = none ↔ Stuck (numberIn? history) (targetIn? history) name) ∧
    (ofHistory history).modules.toList.map (·.name) = modulesIn history ∧
    (∀ id, numberIn? history name = some id → (ofHistory history).findModule? name = some id) ∧
    (∀ target, name ∉ modulesIn history →
      (ofHistory (history ++ [.link name target])).findModule? name =
        (ofHistory (history ++ [.link name target])).findModule? target) ∧
    (∀ other : List Naming, other.filter Naming.binds = history.filter Naming.binds →
      (ofHistory other).findModule? name = (ofHistory history).findModule? name) ∧
    (∀ id, (ofHistory history).findModule? name = some id → ∃ symbol,
      ∀ later, (ofHistory (history ++ later)).pool.lookup? name = some symbol) := by
  have h := knows_ofHistory history
  refine ⟨h.findModule?_iff_chain name, h.findModule?_eq_none_iff name, h.records, ?_, ?_, ?_, ?_⟩
  · exact fun id hid => (h.findModule?_iff_chain name id).mpr ⟨name, .refl, hid⟩
  · intro target hnew
    refine (knows_ofHistory _).findModule?_eq_of_forwards ⟨?_, ?_⟩
    · rw [numberIn?, modulesIn_concat_of_none history rfl]
      exact List.idxOf?_eq_none_iff.mpr hnew
    · rw [targetIn?_concat, Naming.targetOf?, if_pos rfl, Option.some_or]
  · exact fun other hother => congrFun (findModule?_congr hother) name
  · intro id hid
    obtain ⟨symbol, hs⟩ := exists_lookup?_of_mem (mem_pooled_of_findModule? hid) {}
    refine ⟨symbol, fun later => ?_⟩
    rw [pool_ofHistory, List.flatMap_append, List.foldl_append]
    exact lookup?_foldl_add hs _

end Index

end ModuleAudit
