import ModuleAudit.Audit.UnusedDependencies
import ModuleAudit.Proofs.Build.Complete

/-! When a dependency is reported. A module may declare a dependency on the same module more than once; the
first of those declarations alone decides (`reported_iff`). What a declaration adds to the decision is whether
it is idle: the other reasons are the same for all of them. -/

namespace ModuleAudit
set_option autoImplicit false

/-- The declaration gives no reason of its own to keep a dependency on `provider`: it imports no services,
passes no package on, and is not optional. -/
def Dependency.Idle (declared : Dependency) (provider : ModuleRecord) : Prop :=
  declared.imports.accepts PathFilter.servicesPath = false ∧
    (∀ package ∈ provider.packages.keys ++ provider.providers.keys, declared.passesOn package = false) ∧
    declared.isOptional = false

theorem usageOf_eq_none {record provider : ModuleRecord} {target : ModuleId} {declared : Dependency} :
    usageOf record target provider declared = none ↔
      (target ∉ record.reExports.toList ∧ record.refersThrough target = false) ∧ declared.Idle provider := by
  have hreason : ∀ (c : Bool) (usage : Usage) (rest : Option Usage),
      (if c then some usage else rest) = none ↔ c = false ∧ rest = none := by
    intro c usage rest
    cases c <;> simp
  have hcontains : record.reExports.contains target = false ↔ target ∉ record.reExports.toList := by
    rw [← OrderedSet.contains_iff, Bool.not_eq_true]
  simp only [usageOf, hreason, hcontains, Dependency.Idle, List.mem_append, or_imp, forall_and,
    List.any_eq_false, Bool.not_eq_true, and_assoc, and_true]

namespace Index

/-- The first declaration of a module that leads to `target`. -/
def firstDeclaration (index : Index) (id target : ModuleId) : Option Dependency :=
  (index.declarationsOf id).find? fun declaration => index.resolve declaration = some target

/-! ## Judgements -/

theorem mem_firstEdges {edges : List DependencyEdge} {edge : DependencyEdge} :
    edge ∈ firstEdges edges ↔ edges.find? (·.target = edge.target) = some edge := by
  induction edges with
  | nil => simp [firstEdges]
  | cons first rest ih =>
    rw [firstEdges, List.mem_cons, List.mem_filter, ih, List.find?_cons]
    by_cases h : first.target = edge.target
    · simp [h, eq_comm]
    · have hne : edge ≠ first := fun e => h (e ▸ rfl)
      simp [h, hne, Ne.symm h]

theorem mem_judgements {index : Index} {judgement : Judgement} :
    judgement ∈ index.judgements ↔
      (index.dependenciesOf judgement.module).find? (·.target = judgement.edge.target) = some judgement.edge ∧
        judgement.usage = index.usage judgement.module judgement.edge := by
  obtain ⟨module, edge, usage⟩ := judgement
  simp only [judgements, judgementsOn, List.mem_flatMap, List.mem_map, Prod.exists, dependenciesOf,
    List.mem_zipIdx_iff_getElem?, mem_firstEdges, Array.getElem?_toList, Judgement.mk.injEq]
  constructor
  · rintro ⟨record, id, hr, e, he, rfl, rfl, rfl⟩
    rw [hr]
    exact ⟨he, rfl⟩
  · rintro ⟨hf, rfl⟩
    cases hr : index.modules[module]? with
    | none =>
      rw [hr] at hf
      exact absurd hf (by simp)
    | some record =>
      rw [hr] at hf
      exact ⟨record, module, hr, edge, hf, rfl, rfl, rfl⟩

theorem mem_findings {index : Index} {finding : UnusedDependency} :
    finding ∈ index.unusedDependencies.findings ↔
      ∃ judgement ∈ index.judgements, judgement.usage = none ∧
        index.moduleName judgement.module = finding.module ∧
        index.moduleName judgement.edge.target = finding.dependency := by
  obtain ⟨module, dependency⟩ := finding
  simp only [unusedDependencies, List.mem_filterMap, findingOf?]
  refine exists_congr fun judgement => and_congr_right fun _ => ?_
  cases judgement.usage with
  | none => simp
  | some usage => simp

/-! ## The first declaration decides -/

theorem firstDeclaration_eq (index : Index) (id target : ModuleId) :
    index.firstDeclaration id target = ((index.toward id target).head?).map Prod.fst := by
  rw [firstDeclaration, ← List.head?_filter, ← map_fst_toward, List.head?_map]

section Gathered

variable {index : Index} (hg : index.Gathered)
include hg

/-- The first edge of a module to another stands for the first declaration that leads there. -/
theorem Gathered.find?_dependenciesOf_completed (id target : ModuleId) :
    (index.completed.dependenciesOf id).find? (·.target = target) =
      ((index.toward id target).head?).map fun entry => ⟨target, entry.2⟩ := by
  obtain ⟨added, hdeps, hadded⟩ := (steps_spreadAll index.drawn).dependenciesOf_eq id
  have hown : (index.outgoing id).find? (·.target = target) =
      ((index.toward id target).head?).map fun entry => ⟨target, entry.2⟩ := by
    rw [← List.head?_filter, filter_outgoing, List.head?_map]
  rw [dependenciesOf_completed, hdeps, hg.dependenciesOf_drawn, List.find?_append, hown]
  cases hhead : (index.toward id target).head? with
  | some entry => rfl
  | none =>
    have hnone : added.find? (·.target = target) = none := by
      rw [List.find?_eq_none]
      intro edge he ht
      have htarget : edge.target = target := by simpa using ht
      obtain ⟨declaration, hd, hr⟩ := hg.mem_dependentsOf_drawn.mp (hadded edge he)
      have hmem : (declaration, edge.declaration) ∈ index.toward id target :=
        mem_toward.mpr ⟨hd, by rw [hr, htarget]⟩
      rw [List.head?_eq_none_iff.mp hhead] at hmem
      exact absurd hmem (by simp)
    rw [hnone]
    rfl

theorem Gathered.lt_size_of_toward {id target : ModuleId} {entry : Dependency × Nat}
    (h : entry ∈ index.toward id target) : id < index.modules.size ∧ target < index.modules.size := by
  obtain ⟨hd, hr⟩ := mem_toward.mp h
  exact ⟨lt_size_of_mem (List.mem_of_getElem? hd), hg.lt_size_of_resolve hr⟩

theorem Gathered.eq_of_moduleName {id other : ModuleId} {record : ModuleRecord}
    (hrecord : index.completed.modules[id]? = some record) (hlt : other < index.modules.size)
    (hn : index.completed.moduleName other = record.name) : other = id := by
  have hid : index.nameOf? id = some record.name := by
    rw [← nameOf?_completed, nameOf?, hrecord]
    rfl
  have hother : index.nameOf? other = some record.name := by
    have e := nameOf?_completed index other
    have hsome : index.nameOf? other = some index.modules[other].name := by
      rw [nameOf?, Array.getElem?_eq_getElem hlt]
      rfl
    rw [hsome] at e ⊢
    rw [← hn, moduleName, ← nameOf?, e]
    rfl
  exact hg.eq_of_nameOf? hother hid

omit hg in
theorem usage_completed {id target : ModuleId} {record provider : ModuleRecord} {declaration : Dependency}
    {i : Nat} (hrecord : index.completed.modules[id]? = some record)
    (hprovider : index.completed.modules[target]? = some provider)
    (h : (declaration, i) ∈ index.toward id target) :
    index.completed.usage id ⟨target, i⟩ = usageOf record target provider declaration := by
  have hd : record.declarations[i]? = some declaration := by
    have e := declarationsOf_completed index id
    rw [declarationsOf, hrecord] at e
    rw [← (mem_toward.mp h).1, ← e]
    rfl
  simp only [usage, hrecord, hprovider, hd, bind, Option.bind_some]

theorem Gathered.reported_iff {id target : ModuleId} {record provider : ModuleRecord}
    (hrecord : index.completed.modules[id]? = some record)
    (hprovider : index.completed.modules[target]? = some provider) :
    ⟨record.name, provider.name⟩ ∈ index.completed.unusedDependencies.findings ↔
      ∃ declaration, index.firstDeclaration id target = some declaration ∧
        usageOf record target provider declaration = none := by
  rw [mem_findings, firstDeclaration_eq]
  constructor
  · rintro ⟨⟨module, edge, usage⟩, hj, rfl, hmodule, hdependency⟩
    obtain ⟨hfind, husage⟩ := mem_judgements.mp hj
    rw [hg.find?_dependenciesOf_completed] at hfind
    obtain ⟨⟨declaration, i⟩, hhead, hedge⟩ := Option.map_eq_some_iff.mp hfind
    have hmem := List.mem_of_head? hhead
    obtain ⟨hlt, hlt'⟩ := hg.lt_size_of_toward hmem
    have hid := hg.eq_of_moduleName hrecord hlt hmodule
    have htarget := hg.eq_of_moduleName hprovider hlt' hdependency
    simp only at hid htarget hedge husage
    rw [hid, htarget] at hhead hmem
    refine ⟨declaration, by rw [hhead]; rfl, ?_⟩
    rw [← usage_completed hrecord hprovider hmem, husage, hid, ← hedge, htarget]
  · rintro ⟨declaration, hfirst, hnone⟩
    obtain ⟨⟨d, i⟩, hhead, rfl⟩ := Option.map_eq_some_iff.mp hfirst
    have hmem := List.mem_of_head? hhead
    refine ⟨⟨id, ⟨target, i⟩, none⟩, mem_judgements.mpr ⟨?_, ?_⟩, rfl, ?_, ?_⟩
    · rw [hg.find?_dependenciesOf_completed, hhead]
      rfl
    · rw [usage_completed hrecord hprovider hmem, hnone]
    · rw [moduleName, hrecord]
      rfl
    · rw [moduleName, hprovider]
      rfl

end Gathered

end Index

namespace Build

/-- A dependency is reported exactly if the first declaration of it is unused. Once it is, all declarations of
it are unused exactly if all of them are idle. -/
theorem reported_iff_first_unused (findings : List Finding) {id target : ModuleId}
    {record provider : ModuleRecord} (hrecord : (run findings).index.modules[id]? = some record)
    (hprovider : (run findings).index.modules[target]? = some provider) :
    (⟨record.name, provider.name⟩ ∈ (run findings).index.unusedDependencies.findings ↔
      ∃ declared, record.declarations.find? (fun d => (run findings).index.resolve d = some target) =
        some declared ∧ usageOf record target provider declared = none) ∧
    (⟨record.name, provider.name⟩ ∈ (run findings).index.unusedDependencies.findings →
      ((∀ declared ∈ record.declarations, (run findings).index.resolve declared = some target →
          usageOf record target provider declared = none) ↔
        ∀ declared ∈ record.declarations, (run findings).index.resolve declared = some target →
          declared.Idle provider)) := by
  rw [run_index] at hrecord hprovider ⊢
  have hg := (ofFindings_gathered (fun _ _ => true) findings).1
  have hdeclarations : (ofFindings findings).index.declarationsOf id = record.declarations := by
    rw [← Index.declarationsOf_completed, Index.declarationsOf, hrecord]
    rfl
  have hiff := hg.reported_iff hrecord hprovider
  rw [Index.firstDeclaration, hdeclarations, ← Index.resolve_completed] at hiff
  refine ⟨hiff, fun hreported => ?_⟩
  -- The reasons that are not the declaration's own are missing, since the first declaration is unused.
  obtain ⟨first, -, hfirst⟩ := hiff.mp hreported
  have hothers := (usageOf_eq_none.mp hfirst).1
  refine forall_congr' fun declared => forall_congr' fun _ => forall_congr' fun _ => ?_
  rw [usageOf_eq_none]
  exact and_iff_right hothers

/-- A module that declares a dependency plainly and then as an optional one. -/
def plainAndOptional : List Finding :=
  [{ name := "a"
     outcome := .ok (some (.module "a" none []
       [Dependency.onModule "b", (Dependency.onModule "b").withOptional true])) },
   { name := "b", outcome := .ok (some (.module "b" none [] [])) }]

theorem reported_iff_first_unused_plainAndOptional :
    ∃ record provider, (run plainAndOptional).index.modules[0]? = some record ∧
      (run plainAndOptional).index.modules[1]? = some provider ∧
      ∃ declared, record.declarations.find?
        (fun d => (run plainAndOptional).index.resolve d = some 1) = some declared ∧
          usageOf record 1 provider declared = none := by
  have ha : (run plainAndOptional).index.nameOf? 0 = some "a" := by decide +kernel
  have hb : (run plainAndOptional).index.nameOf? 1 = some "b" := by decide +kernel
  obtain ⟨record, hrecord, hname⟩ := Option.map_eq_some_iff.mp ha
  obtain ⟨provider, hprovider, hname'⟩ := Option.map_eq_some_iff.mp hb
  refine ⟨record, provider, hrecord, hprovider, ?_⟩
  refine (reported_iff_first_unused plainAndOptional hrecord hprovider).1.mp ?_
  rw [hname, hname']
  decide +kernel

/-- The dependency is reported although its second declaration is optional. -/
theorem optional_declaration_reported :
    ⟨"a", "b"⟩ ∈ (run plainAndOptional).index.unusedDependencies.findings ∧
      (run plainAndOptional).index.usage 0 ⟨1, 1⟩ = some .optional := by
  decide +kernel

end Build

end ModuleAudit
