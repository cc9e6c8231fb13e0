import Mathlib.Data.Finset.Card
import Mathlib.Data.Finset.Dedup
import Mathlib.Data.Finset.SDiff
import ModuleAudit.Proofs.Visibility.Closure
import ModuleAudit.Proofs.Visibility.Coherent

/-! The two tables of what is visible, over any row of calls and of spreading. All that happens to a record is that
packages become visible through a module or that a module is passed on (`ModuleRecord.Gains`). So the tables stay
transposes of each other, whatever a table holds stays where it is, and a call adds the pairs it is given
(`ModuleRecord.visible_provide`) and counts those that are new. -/

namespace ModuleAudit
set_option autoImplicit false

open Relation

namespace ModuleRecord

/-! ## Visible pairs -/

/-- The packages that are visible in a module, each with the modules it is visible through. -/
def visible (record : ModuleRecord) : Finset (String × ModuleId) :=
  (record.providers.entries.flatMap fun entry => entry.2.toList.map fun target => (entry.1, target)).toFinset

/-- The pairs that a call is given. -/
def pairsOf (packages : List String) (target : ModuleId) : Finset (String × ModuleId) :=
  (packages.map fun package => (package, target)).toFinset

theorem mem_visible {record : ModuleRecord} {package : String} {target : ModuleId} :
    (package, target) ∈ record.visible ↔ target ∈ record.through package := by
  simp only [visible, List.mem_toFinset, List.mem_flatMap, List.mem_map, Prod.mk.injEq, through]
  constructor
  · rintro ⟨entry, he, _, ht, rfl, rfl⟩
    rw [OrderedMap.get?_of_mem_entries he]
    exact ht
  · intro ht
    cases hg : record.providers.get? package with
    | none => simp [hg] at ht
    | some targets =>
      obtain ⟨entry, hfound, rfl⟩ := Option.map_eq_some_iff.mp hg
      have hkey : entry.1 = package := by simpa using List.find?_some hfound
      rw [hg] at ht
      exact ⟨entry, List.mem_of_find?_eq_some hfound, target, ht, hkey, rfl⟩

theorem mem_pairsOf {packages : List String} {package : String} {target other : ModuleId} :
    (package, other) ∈ pairsOf packages target ↔ package ∈ packages ∧ other = target := by
  rw [pairsOf, List.mem_toFinset, List.mem_map]
  constructor
  · rintro ⟨_, hp, he⟩
    cases he
    exact ⟨hp, rfl⟩
  · rintro ⟨hp, rfl⟩
    exact ⟨package, hp, rfl⟩

theorem visible_provide (record : ModuleRecord) (packages : List String) (edge : DependencyEdge) :
    (record.provide packages edge).visible = record.visible ∪ pairsOf packages edge.target := by
  ext ⟨package, target⟩
  rw [Finset.mem_union, mem_visible, mem_visible, mem_pairsOf, mem_through_provide]

theorem newlyProvided_eq_card (record : ModuleRecord) (packages : List String) (target : ModuleId) :
    record.newlyProvided packages target = (pairsOf packages target \ record.visible).card := by
  have hpair : Function.Injective fun package : String => (package, target) := fun _ _ h => (Prod.mk.inj h).1
  rw [newlyProvided, ← List.length_map fun package => (package, target),
    ← List.toFinset_card_of_nodup (((nodup_eraseDups packages).filter _).map hpair)]
  congr 1
  ext ⟨package, other⟩
  rw [Finset.mem_sdiff, mem_pairsOf, mem_visible, List.mem_toFinset, List.mem_map]
  simp only [List.mem_filter, List.mem_eraseDups, OrderedSet.contains, Bool.not_eq_true', decide_eq_false_iff_not]
  constructor
  · rintro ⟨_, ⟨hp, hnew⟩, he⟩
    cases he
    exact ⟨⟨hp, rfl⟩, hnew⟩
  · rintro ⟨⟨hp, rfl⟩, hnew⟩
    exact ⟨package, ⟨hp, hnew⟩, rfl⟩

/-! ## What happens to a record -/

/-- One change that a call or spreading makes to a record. -/
inductive Gains : ModuleRecord → ModuleRecord → Prop
  | provide (record : ModuleRecord) (packages : List String) (edge : DependencyEdge) :
    Gains record (record.provide packages edge)
  | reExport (record : ModuleRecord) (target : ModuleId) : Gains record (record.reExport target)

/-- Each module that packages are visible through is the target of an edge. -/
def Backed (record : ModuleRecord) : Prop :=
  ∀ target ∈ record.provided.keys, ∃ edge ∈ record.dependencies, edge.target = target

/-- What is recorded stays in its place, and what is added comes after it. -/
structure Extends (record later : ModuleRecord) : Prop where
  through : ∀ package, record.through package <+: later.through package
  passedBy : ∀ target, record.passedBy target <+: later.passedBy target
  dependencies : record.dependencies <+: later.dependencies

theorem Extends.refl (record : ModuleRecord) : record.Extends record :=
  ⟨fun _ => List.prefix_rfl, fun _ => List.prefix_rfl, List.prefix_rfl⟩

theorem Extends.trans {a b c : ModuleRecord} (h : a.Extends b) (h' : b.Extends c) : a.Extends c :=
  ⟨fun package => (h.through package).trans (h'.through package),
    fun target => (h.passedBy target).trans (h'.passedBy target), h.dependencies.trans h'.dependencies⟩

theorem passedBy_extends_provide (record : ModuleRecord) (packages : List String) (edge : DependencyEdge)
    (target : ModuleId) : record.passedBy target <+: (record.provide packages edge).passedBy target := by
  by_cases ht : target = edge.target
  · have e : (record.provide packages edge).passedBy target =
        (((record.provided.get? target).getD {}).insertAll packages).toList := by
      simp only [passedBy, provide, OrderedMap.get?_alter, ht, if_true, Option.getD_some]
    rw [e, OrderedSet.toList_insertAll]
    exact List.prefix_append _ _
  · have e : (record.provide packages edge).passedBy target = record.passedBy target := by
      simp only [passedBy, provide, OrderedMap.get?_alter, if_neg ht]
    exact e ▸ List.prefix_rfl

section Gains

variable {record later : ModuleRecord}

theorem Gains.extends (h : record.Gains later) : record.Extends later := by
  cases h with
  | provide packages edge =>
    refine ⟨fun package => ?_, record.passedBy_extends_provide packages edge, List.prefix_append _ _⟩
    rw [through_provide]
    split
    · exact List.prefix_append _ _
    · exact List.prefix_rfl
  | reExport target => exact ⟨fun _ => List.prefix_rfl, fun _ => List.prefix_rfl, List.prefix_rfl⟩

theorem Gains.coherent (h : record.Gains later) (hc : record.Coherent) : later.Coherent := by
  cases h with
  | provide packages edge => exact hc.provide packages edge
  | reExport target => exact ⟨hc.transposed, hc.nonempty⟩

theorem Gains.backed (h : record.Gains later) (hb : record.Backed) : later.Backed := by
  cases h with
  | provide packages edge =>
    intro target ht
    simp only [ModuleRecord.provide, OrderedMap.keys_alter] at ht ⊢
    -- The target of the call is that of the edge it adds, and the others had theirs.
    by_cases he : target = edge.target
    · exact ⟨edge, List.mem_append_right _ List.mem_cons_self, he.symm⟩
    · have hold : target ∈ record.provided.keys := by
        split at ht
        · exact ht
        · exact (List.mem_append.mp ht).resolve_right fun hm => he (List.mem_singleton.mp hm)
      obtain ⟨known, hk, hkt⟩ := hb target hold
      exact ⟨known, List.mem_append_left _ hk, hkt⟩
  | reExport target => exact hb

/-- What a change keeps is kept by any number of changes. -/
theorem gains_induct {P : ModuleRecord → Prop} (hstep : ∀ {a b : ModuleRecord}, a.Gains b → P a → P b)
    (h : ReflTransGen Gains record later) (hr : P record) : P later := by
  induction h with
  | refl => exact hr
  | tail _ hs ih => exact hstep hs ih

end Gains

end ModuleRecord

namespace Index

open ModuleRecord

/-! ## Steps and calls -/

section Steps

variable {carried : ModuleId → String → Prop} {i j : Index} {id : ModuleId} {record : ModuleRecord}

theorem Step.gains (h : Step carried i j) (hr : i.modules[id]? = some record) :
    ∃ later, j.modules[id]? = some later ∧ ReflTransGen Gains record later := by
  have hchange : ∀ (module : ModuleId) (change : ModuleRecord → ModuleRecord), (∀ r, Gains r (change r)) →
      ∃ later, (i.updateModule module change).modules[id]? = some later ∧ ReflTransGen Gains record later := by
    intro module change hg
    rw [getElem?_updateModule, hr]
    split
    · exact ⟨_, rfl, .single (hg record)⟩
    · exact ⟨record, rfl, .refl⟩
  cases h with
  | provide => exact hchange _ _ fun r => .provide r _ _
  | reExport => exact hchange _ _ fun r => .reExport r _

theorem Steps.gains (h : Steps carried i j) (hr : i.modules[id]? = some record) :
    ∃ later, j.modules[id]? = some later ∧ ReflTransGen Gains record later := by
  induction h with
  | refl => exact ⟨record, hr, .refl⟩
  | tail _ hs ih =>
    obtain ⟨middle, hm, hgains⟩ := ih
    obtain ⟨later, hl, hlast⟩ := hs.gains hm
    exact ⟨later, hl, hgains.trans hlast⟩

end Steps

theorem getElem?_provide (index : Index) (id : ModuleId) (packages : List String) (edge : DependencyEdge)
    (other : ModuleId) : (index.provide id packages edge).1.modules[other]? =
      if id = other then index.modules[other]?.map (·.provide packages edge) else index.modules[other]? :=
  getElem?_updateModule (index.pooling fun pool => packages.foldl NamePool.add pool) id _ other

end Index

/-- What makes packages visible: a call for one module, or spreading the packages of all modules. -/
inductive Showing where
  | call (module : ModuleId) (packages : List String) (edge : DependencyEdge)
  | spread
  deriving Repr, DecidableEq

namespace Showing

open Index ModuleRecord

/-- The index after a call or after spreading. -/
def apply (index : Index) : Showing → Index
  | .call module packages edge => (index.provide module packages edge).1
  | .spread => index.spreadAll

/-- The index after a row of calls and of spreading. -/
def applyAll (index : Index) (showings : List Showing) : Index := showings.foldl apply index

section Runs

variable {index : Index} {id : ModuleId} {record : ModuleRecord}

theorem size_apply (index : Index) (showing : Showing) :
    (showing.apply index).modules.size = index.modules.size := by
  cases showing with
  | call module packages edge => exact Array.size_modify
  | spread => exact size_congr (steps_spreadAll index).ground_eq

theorem gains_apply (showing : Showing) (hr : index.modules[id]? = some record) :
    ∃ later, (showing.apply index).modules[id]? = some later ∧ ReflTransGen Gains record later := by
  cases showing with
  | call module packages edge =>
    rw [apply, getElem?_provide, hr]
    split
    · exact ⟨_, rfl, .single (.provide record packages edge)⟩
    · exact ⟨record, rfl, .refl⟩
  | spread => exact (steps_spreadAll index).gains hr

/-- Every record that is reached has come from one of the start by changes. -/
theorem gains_applyAll {showings : List Showing} (h : (applyAll index showings).modules[id]? = some record) :
    ∃ start ∈ index.modules, ReflTransGen Gains start record := by
  have hall := foldl_passed (l := showings) (f := apply) (b := index)
    (P := fun _ reached => reached.modules.size = index.modules.size ∧ ∀ start, index.modules[id]? = some start →
      ∃ later, reached.modules[id]? = some later ∧ ReflTransGen Gains start later)
    ⟨rfl, fun start hs => ⟨start, hs, .refl⟩⟩ ?_
  · obtain ⟨hsize, hgains⟩ := hall
    have hlt : id < index.modules.size := hsize ▸ (Array.getElem?_eq_some_iff.mp h).1
    obtain ⟨later, hl, hstart⟩ := hgains _ (Array.getElem?_eq_getElem hlt)
    obtain rfl : later = record := Option.some.inj (hl.symm.trans h)
    exact ⟨_, Array.getElem_mem hlt, hstart⟩
  · rintro done showing rest reached - ⟨hsize, hgains⟩
    refine ⟨(size_apply reached showing).trans hsize, fun start hs => ?_⟩
    obtain ⟨middle, hm, hmiddle⟩ := hgains start hs
    obtain ⟨later, hl, hlater⟩ := gains_apply showing hm
    exact ⟨later, hl, hmiddle.trans hlater⟩

end Runs

/-- In modules that start without visible packages, after any row of calls and of spreading, the two tables of visible
packages are transposes of each other, and every module in them is the target of an edge. Whatever comes next leaves
what is recorded in its place. In any index a call adds its edge and the pairs it is given, and counts those that are
new. -/
theorem tables_stay_transposed (index : Index)
    (hnew : ∀ record ∈ index.modules, record.providers = {} ∧ record.provided = {}) (showings : List Showing)
    (id : ModuleId) (record : ModuleRecord) (hrecord : (applyAll index showings).modules[id]? = some record) :
    (∀ package target, target ∈ record.through package ↔ package ∈ record.passedBy target) ∧
    (∀ target ∈ record.provided.keys, ∃ edge ∈ record.dependencies, edge.target = target) ∧
    (∀ showing : Showing, ∃ later, (showing.apply (applyAll index showings)).modules[id]? = some later ∧
      record.Extends later) ∧
    (∀ (i : Index) (known : ModuleRecord), i.modules[id]? = some known → ∀ packages edge, ∃ later,
      (i.provide id packages edge).1.modules[id]? = some later ∧
      later.dependencies = known.dependencies ++ [edge] ∧
      later.visible = known.visible ∪ pairsOf packages edge.target ∧
      (i.provide id packages edge).2 = (pairsOf packages edge.target \ known.visible).card) := by
  obtain ⟨start, hs, hgains⟩ := gains_applyAll hrecord
  obtain ⟨hproviders, hprovided⟩ := hnew start hs
  have hcoherent : record.Coherent := gains_induct Gains.coherent hgains (coherent_of_empty hproviders hprovided)
  have hbacked : record.Backed := by
    refine gains_induct Gains.backed hgains fun target ht => ?_
    rw [hprovided] at ht
    cases ht
  refine ⟨fun package target => (hcoherent.transposed package target).symm, hbacked, fun showing => ?_,
    fun i known hknown packages edge => ?_⟩
  · obtain ⟨later, hl, hlater⟩ := gains_apply showing hrecord
    exact ⟨later, hl, gains_induct (fun h he => he.trans h.extends) hlater (Extends.refl record)⟩
  · refine ⟨known.provide packages edge, ?_, rfl, visible_provide known packages edge, ?_⟩
    · rw [getElem?_provide, if_pos rfl, hknown]
      rfl
    · rw [Index.provide, hknown]
      exact newlyProvided_eq_card known packages edge.target

/-- In the pair of modules that pass everything on to each other, spreading twice with a call in between. -/
theorem tables_stay_transposed_mutualPair :
    ∃ record, (applyAll mutualPair [.spread, .call 0 ["q", "pa", "q"] ⟨1, 0⟩, .spread]).modules[0]? = some record ∧
      1 ∈ record.through "pa" ∧ "pa" ∈ record.passedBy 1 ∧ "q" ∈ record.passedBy 1 := by
  have hnew : ∀ record ∈ mutualPair.modules, record.providers = {} ∧ record.provided = {} := by simp [mutualPair]
  have hrecord : ∃ record,
      (applyAll mutualPair [.spread, .call 0 ["q", "pa", "q"] ⟨1, 0⟩, .spread]).modules[0]? = some record ∧
        1 ∈ record.through "pa" ∧ 1 ∈ record.through "q" := by
    decide +kernel
  obtain ⟨record, hr, hpa, hq⟩ := hrecord
  obtain ⟨htransposed, -⟩ := tables_stay_transposed mutualPair hnew _ 0 record hr
  exact ⟨record, hr, hpa, (htransposed "pa" 1).mp hpa, (htransposed "q" 1).mp hq⟩

end Showing

end ModuleAudit
