import ModuleAudit.Audit.Usage
import ModuleAudit.Proofs.Visibility.Step

/-! What spreading keeps of each record: the packages that are visible through each module say the same as
the modules that each package is visible through (`Coherent`), and the edges that are added to a module's
own stand for declarations that lead to the same module already. -/

namespace ModuleAudit
set_option autoImplicit false

namespace ModuleRecord

/-- The two tables of visible packages agree, and no package is listed that nothing provides. -/
structure Coherent (record : ModuleRecord) : Prop where
  transposed : ∀ package target, package ∈ record.passedBy target ↔ target ∈ record.through package
  nonempty : ∀ package ∈ record.providers.keys, record.through package ≠ []

theorem coherent_of_empty {record : ModuleRecord} (hp : record.providers = {}) (hd : record.provided = {}) :
    record.Coherent where
  transposed package target := by simp [passedBy, through, hp, hd, OrderedMap.get?]
  nonempty package h := by
    rw [hp] at h
    exact absurd h (by simp [OrderedMap.keys])

theorem Coherent.provide {record : ModuleRecord} (h : record.Coherent) (packages : List String)
    (edge : DependencyEdge) : (record.provide packages edge).Coherent where
  transposed package target := by
    rw [mem_passedBy_provide, mem_through_provide, h.transposed]
  nonempty package hk := by
    rw [OrderedMap.mem_keys_iff, providers_provide] at hk
    by_cases hp : package ∈ packages
    · exact List.ne_nil_of_mem ((mem_through_provide ..).mpr (Or.inr ⟨hp, rfl⟩))
    · rw [if_neg hp, ← OrderedMap.mem_keys_iff] at hk
      obtain ⟨target, ht⟩ := List.exists_mem_of_ne_nil _ (h.nonempty package hk)
      exact List.ne_nil_of_mem ((mem_through_provide ..).mpr (Or.inl ht))

theorem Coherent.mem_keys_providers {record : ModuleRecord} (h : record.Coherent) (package : String) :
    package ∈ record.providers.keys ↔ record.through package ≠ [] := by
  refine ⟨h.nonempty package, fun hne => ?_⟩
  rw [OrderedMap.mem_keys_iff]
  cases hg : record.providers.get? package with
  | none => exact absurd (by simp [through, hg]) hne
  | some set => rfl

theorem Coherent.get?_providers_congr {record other : ModuleRecord} (h : record.Coherent) (ho : other.Coherent)
    {package : String} (e : record.through package = other.through package) :
    record.providers.get? package = other.providers.get? package := by
  have hk := h.mem_keys_providers package
  have hk' := ho.mem_keys_providers package
  rw [OrderedMap.mem_keys_iff, e] at hk
  rw [OrderedMap.mem_keys_iff] at hk'
  have hsome : (record.providers.get? package).isSome = (other.providers.get? package).isSome :=
    Bool.eq_iff_iff.mpr (hk.trans hk'.symm)
  rw [through, through] at e
  cases hr : record.providers.get? package with
  | none =>
    cases ho : other.providers.get? package with
    | none => rfl
    | some set => rw [hr, ho] at hsome; exact absurd hsome (by simp)
  | some set =>
    cases ho : other.providers.get? package with
    | none => rw [hr, ho] at hsome; exact absurd hsome (by simp)
    | some set' =>
      rw [hr, ho] at e
      exact congrArg some (OrderedSet.ext_toList e)

theorem Coherent.refersThrough_iff {record : ModuleRecord} (h : record.Coherent) (target : ModuleId) :
    record.refersThrough target = true ↔
      ∃ package ∈ record.packageRefs.keys, target ∈ record.through package := by
  have hpassed : record.refersThrough target = true ↔
      ∃ package ∈ record.packageRefs.keys, package ∈ record.passedBy target := by
    rw [refersThrough, passedBy]
    cases record.provided.get? target with
    | none => simp
    | some packages => simp [OrderedSet.contains]
  rw [hpassed]
  exact exists_congr fun package => and_congr_right fun _ => h.transposed package target

end ModuleRecord

namespace Index

/-- Every record is coherent. -/
def Coherent (index : Index) : Prop :=
  ∀ (id : ModuleId) record, index.modules[id]? = some record → ModuleRecord.Coherent record

/-- The edges that start at a module. -/
def dependenciesOf (index : Index) (id : ModuleId) : List DependencyEdge :=
  (index.modules[id]?.map (·.dependencies)).getD []

section Steps

variable {carried : ModuleId → String → Prop} {i j : Index}

theorem Step.coherent (h : Step carried i j) (hi : i.Coherent) : j.Coherent := by
  intro id record hr
  cases h with
  | provide member nonempty arrive =>
    rw [provideAt, getElem?_updateModule] at hr
    split at hr
    · obtain ⟨r, hri, rfl⟩ := Option.map_eq_some_iff.mp hr
      exact (hi id r hri).provide _ _
    · exact hi id record hr
  | reExport =>
    rw [reExportAt, getElem?_updateModule] at hr
    split at hr
    · obtain ⟨r, hri, rfl⟩ := Option.map_eq_some_iff.mp hr
      exact ⟨(hi id r hri).transposed, (hi id r hri).nonempty⟩
    · exact hi id record hr

theorem Steps.coherent (h : Steps carried i j) (hi : i.Coherent) : j.Coherent := by
  induction h with
  | refl => exact hi
  | tail _ hs ih => exact hs.coherent ih

theorem Step.dependenciesOf_eq (h : Step carried i j) (id : ModuleId) :
    ∃ added, j.dependenciesOf id = i.dependenciesOf id ++ added ∧
      ∀ edge ∈ added, (⟨id, edge.declaration⟩ : DependentEdge) ∈ i.dependentsOf edge.target := by
  cases h with
  | @provide source edge packages member nonempty arrive =>
    rw [dependenciesOf, provideAt, getElem?_updateModule]
    split
    · rename_i he
      cases hr : i.modules[id]? with
      | none => exact ⟨[], by simp [dependenciesOf, hr], by simp⟩
      | some record =>
        refine ⟨[⟨source, edge.declaration⟩], by simp [dependenciesOf, hr, ModuleRecord.provide], ?_⟩
        intro added ha
        rw [List.mem_singleton.mp ha, ← he]
        exact member
    · exact ⟨[], by simp [dependenciesOf], by simp⟩
  | @reExport source edge package member arrives imported exported =>
    have e : (i.reExportAt source edge).dependenciesOf id = i.dependenciesOf id := by
      rw [dependenciesOf, reExportAt, getElem?_updateModule]
      split
      · rw [Option.map_map]
        rfl
      · rfl
    exact ⟨[], by rw [e, List.append_nil], by simp⟩

theorem Steps.dependenciesOf_eq (h : Steps carried i j) (id : ModuleId) :
    ∃ added, j.dependenciesOf id = i.dependenciesOf id ++ added ∧
      ∀ edge ∈ added, (⟨id, edge.declaration⟩ : DependentEdge) ∈ i.dependentsOf edge.target := by
  induction h with
  | refl => exact ⟨[], by simp, by simp⟩
  | tail hs hstep ih =>
    obtain ⟨before, hb, hbefore⟩ := ih
    obtain ⟨last, hl, hlast⟩ := hstep.dependenciesOf_eq id
    refine ⟨before ++ last, by rw [hl, hb, List.append_assoc], ?_⟩
    intro edge he
    rcases List.mem_append.mp he with he | he
    · exact hbefore edge he
    · rw [← dependentsOf_congr (Steps.ground_eq hs)]
      exact hlast edge he

end Steps

end Index

end ModuleAudit
