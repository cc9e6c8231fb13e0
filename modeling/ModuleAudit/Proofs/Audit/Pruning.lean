import ModuleAudit.Proofs.Audit.Reported
import ModuleAudit.Proofs.Build.Core
import ModuleAudit.Proofs.Visibility.Thinned

/-! Leaving out all declarations of reported dependencies. The edges that go are those between the modules of
a finding, along which nothing is passed on, so spreading runs as before without them. A module refers to no
package that came along them, so its classes are linked as before, and it refers to the same types. -/

namespace ModuleAudit
set_option autoImplicit false

/-! ## Usages -/

theorem reason_congr {c : Bool} {usage other : Usage} {rest rest' : Option Usage}
    (h : (if c then some other else rest) = some usage) (hrest : rest = some usage → rest' = some usage) :
    (if c then some other else rest') = some usage := by
  cases c with
  | true => exact h
  | false => exact hrest h

/-- A dependency that has another reason to be kept than what its target could pass on keeps it when fewer
packages are visible in the target. -/
theorem usageOf_of_fewer_providers {record record' provider provider' : ModuleRecord} {target : ModuleId}
    {declared : Dependency} {usage : Usage} (hre : record'.reExports = record.reExports)
    (hrefers : record'.refersThrough target = record.refersThrough target)
    (hpackages : provider'.packages = provider.packages)
    (hkeys : ∀ package ∈ provider'.providers.keys, package ∈ provider.providers.keys)
    (h : usageOf record target provider declared = some usage) (hu : usage ≠ .dependencyPathsPassedOn) :
    usageOf record' target provider' declared = some usage := by
  rw [usageOf] at h ⊢
  rw [hre, hrefers, hpackages]
  refine reason_congr h fun h => reason_congr h fun h => reason_congr h fun h => reason_congr h fun h => ?_
  split at h
  · exact absurd (Option.some.inj h).symm hu
  · rename_i hnone
    have hnone' : ¬provider'.providers.keys.any declared.passesOn = true := by
      rw [List.any_eq_true] at hnone ⊢
      rintro ⟨package, hp, hpass⟩
      exact hnone ⟨package, hkeys package hp, hpass⟩
    rw [if_neg hnone']
    exact h

namespace Index

/-- Whether the dependency of one module on another is reported. -/
def reports (index : Index) (id target : ModuleId) : Bool :=
  ⟨index.moduleName id, index.moduleName target⟩ ∈ index.unusedDependencies.findings

/-- Whether a declaration of the module `name` leads to a module its dependency on which is not reported. -/
def keepsUsed (index : Index) (name : String) (declaration : Dependency) : Bool :=
  match index.resolve declaration with
  | some target => ⟨name, index.moduleName target⟩ ∉ index.unusedDependencies.findings
  | none => true

/-! ## The edges that stay -/

section Edges

variable {index : Index} (hg : index.Gathered) {keep : String → Dependency → Bool}

theorem declarationsOf_keeping {id : ModuleId} {name : String} (hn : index.nameOf? id = some name) :
    (index.keeping keep).declarationsOf id = (index.declarationsOf id).filter (keep name) := by
  obtain ⟨record, hr, rfl⟩ := Option.map_eq_some_iff.mp hn
  rw [declarationsOf, keeping, getElem?_mapRecords, declarationsOf, hr]
  rfl

include hg

theorem Gathered.keeping : (index.keeping keep).Gathered := by
  refine hg.of_map rfl rfl fun id => ?_
  rw [Index.keeping, getElem?_mapRecords, Option.map_map]
  rfl

/-- The edges to a module as spreading reads them, module by module. -/
theorem Gathered.map_seen_dependentsOf_drawn (target : ModuleId) :
    (index.drawn.dependentsOf target).map index.drawn.seen =
      (List.range index.modules.size).flatMap fun id =>
        ((index.declarationsOf id).filter fun declaration => index.resolve declaration = some target).map
          fun declaration => (id, some declaration) := by
  rw [hg.dependentsOf_drawn, allEdges, List.filter_flatMap, List.map_flatMap, List.map_flatMap]
  congr 1
  funext id
  have hdeclared : ∀ entry ∈ index.toward id target,
      index.drawn.seen ⟨id, entry.2⟩ = (id, some entry.1) := by
    rintro ⟨declaration, i⟩ he
    rw [seen, declared_eq, drawn, declarationsOf_foldl_addEdge, (mem_toward.mp he).1]
  calc ((((index.outgoing id).map (id, ·)).filter (·.2.target = target)).map
        fun edge => DependentEdge.mk edge.1 edge.2.declaration).map index.drawn.seen
      = ((index.outgoing id).filter (·.target = target)).map
          (fun edge => index.drawn.seen ⟨id, edge.declaration⟩) := by
        rw [List.filter_map, List.map_map, List.map_map]
        rfl
    _ = (index.toward id target).map (fun entry => (id, some entry.1)) := by
        rw [filter_outgoing, List.map_map]
        exact List.map_congr_left hdeclared
    _ = ((index.declarationsOf id).filter fun declaration => index.resolve declaration = some target).map
          (fun declaration => (id, some declaration)) := by
        rw [← map_fst_toward, List.map_map]
        rfl

/-- Keeping the declarations that lead to other targets leaves out the edges that `drop` names. -/
theorem Gathered.thinned {drop : ModuleId → ModuleId → Bool}
    (hkeep : ∀ id name declaration target, index.nameOf? id = some name →
      index.resolve declaration = some target → keep name declaration = !drop id target) :
    Thinned drop index.drawn (index.keeping keep).drawn where
  size_eq := size_of_core_eq (by rw [core_drawn, core_drawn, core_keeping])
  packagesOf_eq := by
    funext id
    have hcore : (index.keeping keep).drawn.core = index.drawn.core := by
      rw [core_drawn, core_drawn, core_keeping]
    exact congrArg (Option.getD · []) (map_of_core_eq (fun _ => rfl) hcore id)
  edges target := by
    have hsize : (index.keeping keep).modules.size = index.modules.size := size_of_core_eq (core_keeping index keep)
    have hseen : ((index.drawn.dependentsOf target).filter fun edge => !drop edge.dependent target).map
        index.drawn.seen =
          ((index.drawn.dependentsOf target).map index.drawn.seen).filter fun edge => !drop edge.1 target := by
      rw [List.filter_map]
      rfl
    rw [hseen, hg.map_seen_dependentsOf_drawn, hg.keeping.map_seen_dependentsOf_drawn, hsize,
      List.filter_flatMap]
    refine List.flatMap_congr fun id hid => ?_
    obtain ⟨name, hn⟩ : ∃ name, index.nameOf? id = some name :=
      ⟨_, by rw [nameOf?, Array.getElem?_eq_getElem (List.mem_range.mp hid)]; rfl⟩
    rw [declarationsOf_keeping hn, List.filter_filter, List.filter_map, List.filter_filter]
    apply congrArg (List.map _)
    refine List.filter_congr fun declaration _ => ?_
    have hresolve : (index.keeping keep).resolve declaration = index.resolve declaration := rfl
    rw [hresolve]
    by_cases hr : index.resolve declaration = some target
    · simp [hr, hkeep id name declaration target hn hr]
    · simp [hr]

end Edges

/-! ## Pruning -/

section Pruning

variable {index : Index} (hg : index.Gathered)
include hg

omit hg in
theorem keepsUsed_completed (id : ModuleId) (name : String) (declaration : Dependency) (target : ModuleId)
    (hn : index.nameOf? id = some name) (hr : index.resolve declaration = some target) :
    index.completed.keepsUsed name declaration = !index.completed.reports id target := by
  have hname : index.completed.moduleName id = name := by
    rw [moduleName, ← nameOf?, nameOf?_completed, hn]
    rfl
  rw [keepsUsed, resolve_completed, hr, reports, hname]
  simp

theorem Gathered.reports_iff {id target : ModuleId} {record provider : ModuleRecord}
    (hrecord : index.completed.modules[id]? = some record)
    (hprovider : index.completed.modules[target]? = some provider) :
    index.completed.reports id target = true ↔
      ∃ declaration, index.firstDeclaration id target = some declaration ∧
        usageOf record target provider declaration = none := by
  rw [← hg.reported_iff hrecord hprovider, reports, decide_eq_true_eq, moduleName, moduleName, hrecord, hprovider]
  rfl

/-- A module neither passes on the target of a reported dependency nor refers to a package through it. -/
theorem Gathered.unneeded_of_reports {id target : ModuleId} {record : ModuleRecord}
    (hrecord : index.completed.modules[id]? = some record) (hlt : target < index.modules.size)
    (h : index.completed.reports id target = true) :
    target ∉ record.reExports.toList ∧ record.refersThrough target = false := by
  obtain ⟨provider, hprovider⟩ := exists_record_completed hlt
  obtain ⟨declaration, -, hnone⟩ := (hg.reports_iff hrecord hprovider).mp h
  exact (usageOf_eq_none.mp hnone).1

/-- Both ends of an edge are modules of the index. -/
theorem Gathered.lt_size_of_edge {edge : DependentEdge} {target : ModuleId}
    (h : edge ∈ index.drawn.dependentsOf target) :
    edge.dependent < index.modules.size ∧ target < index.modules.size := by
  obtain ⟨declaration, hd, hr⟩ := hg.mem_dependentsOf_drawn.mp h
  exact hg.lt_size_of_toward (mem_toward.mpr ⟨hd, hr⟩)

theorem Gathered.clean_reports : Clean index.completed.reports index.drawn.spreadAll := by
  intro id target hreports ht
  obtain ⟨edge, he, rfl, -⟩ := (spreadAll_sound hg.unspread_drawn).2 id target ht
  obtain ⟨hlt, hlt'⟩ := hg.lt_size_of_edge he
  obtain ⟨record, hrecord⟩ := exists_record_completed hlt
  refine (hg.unneeded_of_reports hrecord hlt' hreports).1 ?_
  rw [← reExportsOf_completed, reExportsOf, hrecord] at ht
  exact ht

theorem Gathered.mirrors_pruned :
    Mirrors index.completed.reports index.drawn (index.keeping index.completed.keepsUsed).drawn
      index.drawn.spreadAll (index.keeping index.completed.keepsUsed).drawn.spreadAll :=
  spreadAll_mirrors (hg.thinned keepsUsed_completed) hg.unspread_drawn hg.keeping.unspread_drawn hg.clean_reports

theorem Gathered.coherent_completed : index.completed.Coherent := by
  have hspread := (steps_spreadAll index.drawn).coherent hg.coherent_drawn
  intro id record hr
  have e := map_completed index (f := ModuleRecord.Coherent)
    (fun record _ _ _ => propext ⟨fun h => ⟨h.1, h.2⟩, fun h => ⟨h.1, h.2⟩⟩) id
  rw [hr, Option.map_some] at e
  obtain ⟨r, hi, hc⟩ := Option.map_eq_some_iff.mp e.symm
  rw [← hc]
  exact hspread id r hi

/-- The packages that a module refers to are visible through the same modules as before. -/
theorem Gathered.through_pruned {id : ModuleId} {package : String}
    (h : package ∈ index.completed.packageRefsOf id) :
    (index.keeping index.completed.keepsUsed).drawn.spreadAll.through id package =
      index.drawn.spreadAll.through id package := by
  -- Whatever came through a reported dependency the module does not refer to, so nothing is filtered out.
  rw [hg.mirrors_pruned.through_eq, List.filter_eq_self]
  intro target ht
  obtain ⟨edge, he, rfl, -⟩ := (spreadAll_sound hg.unspread_drawn).1 id target package ht
  obtain ⟨hlt, hlt'⟩ := hg.lt_size_of_edge he
  obtain ⟨record, hrecord⟩ := exists_record_completed hlt
  rw [← through_completed, through, hrecord] at ht
  rw [packageRefsOf, hrecord] at h
  apply Classical.not_not.mp
  intro hreports
  have hrefers := (hg.unneeded_of_reports hrecord hlt' (by simpa using hreports)).2
  have htrue := ((hg.coherent_completed _ _ hrecord).refersThrough_iff target).mpr ⟨package, h, ht⟩
  exact absurd (hrefers.symm.trans htrue) (by simp)

theorem Gathered.core_pruned :
    (index.keeping index.completed.keepsUsed).completed.core = index.completed.core := by
  refine core_completed_congr (core_keeping index _) ?_
  intro record hr name hn package hp
  exact hg.through_pruned (packageRefsOf_completed index (hg.supers record hr name hn package hp))

section Records

variable {id target : ModuleId} {record record' provider provider' : ModuleRecord}
  (hr : index.completed.modules[id]? = some record)
  (hr' : (index.keeping index.completed.keepsUsed).completed.modules[id]? = some record')
include hr hr'

theorem Gathered.core_record_pruned : record'.core = record.core := by
  have e := congrArg (fun i : Index => i.modules[id]?) hg.core_pruned
  simp only [core, getElem?_mapRecords, hr, hr', Option.map_some, Option.some.injEq] at e
  exact e

theorem Gathered.reExports_record_pruned : record'.reExports = record.reExports := by
  have e := hg.mirrors_pruned.reExports_eq id
  rw [← reExportsOf_completed, ← reExportsOf_completed, reExportsOf, reExportsOf, hr, hr'] at e
  exact OrderedSet.ext_toList e

theorem Gathered.through_record_pruned (package : String) :
    record'.through package = (record.through package).filter fun target => !index.completed.reports id target := by
  have e := hg.mirrors_pruned.through_eq id package
  rw [← through_completed, ← through_completed, through, through, hr, hr'] at e
  exact e

theorem Gathered.through_record_pruned_of_refers {package : String} (h : package ∈ record.packageRefs.keys) :
    record'.through package = record.through package := by
  have hrefs : package ∈ index.completed.packageRefsOf id := by
    rw [packageRefsOf, hr]
    exact h
  have e := hg.through_pruned hrefs
  rw [← through_completed, ← through_completed, through, through, hr, hr'] at e
  exact e

theorem Gathered.refersThrough_record_pruned (target : ModuleId) :
    record'.refersThrough target = record.refersThrough target := by
  obtain ⟨-, -, -, -, hrefs⟩ := ModuleRecord.fields_of_core_eq (hg.core_record_pruned hr hr')
  rw [Bool.eq_iff_iff, (hg.coherent_completed _ _ hr).refersThrough_iff,
    (hg.keeping.coherent_completed _ _ hr').refersThrough_iff, hrefs]
  refine exists_congr fun package => and_congr_right fun hp => ?_
  rw [hg.through_record_pruned_of_refers hr hr' hp]

theorem Gathered.mem_keys_providers_pruned {package : String} (h : package ∈ record'.providers.keys) :
    package ∈ record.providers.keys := by
  rw [(hg.keeping.coherent_completed _ _ hr').mem_keys_providers, hg.through_record_pruned hr hr'] at h
  rw [(hg.coherent_completed _ _ hr).mem_keys_providers]
  intro hnil
  exact h (by rw [hnil]; rfl)

/-- Every reason to keep a dependency but that its target could pass something on stays. -/
theorem Gathered.usageOf_pruned (hp : index.completed.modules[target]? = some provider)
    (hp' : (index.keeping index.completed.keepsUsed).completed.modules[target]? = some provider')
    {declared : Dependency} {usage : Usage} (h : usageOf record target provider declared = some usage)
    (hu : usage ≠ .dependencyPathsPassedOn) : usageOf record' target provider' declared = some usage := by
  obtain ⟨-, -, hpackages, -⟩ := ModuleRecord.fields_of_core_eq (hg.core_record_pruned hp hp')
  exact usageOf_of_fewer_providers (hg.reExports_record_pruned hr hr')
    (hg.refersThrough_record_pruned hr hr' target) hpackages
    (fun _ hk => hg.mem_keys_providers_pruned hp hp' hk) h hu

end Records

omit hg in
/-- Where a dependency is not reported, the first declaration of it stays the first. -/
theorem firstDeclaration_pruned {id target : ModuleId} (hlt : id < index.modules.size)
    (h : index.completed.reports id target = false) :
    (index.keeping index.completed.keepsUsed).firstDeclaration id target = index.firstDeclaration id target := by
  have hn : index.nameOf? id = some index.modules[id].name := by
    rw [nameOf?, Array.getElem?_eq_getElem hlt]
    rfl
  rw [firstDeclaration, declarationsOf_keeping hn, firstDeclaration, ← List.head?_filter, ← List.head?_filter,
    List.filter_filter]
  apply congrArg List.head?
  refine List.filter_congr fun declaration _ => ?_
  have hresolve : (index.keeping index.completed.keepsUsed).resolve declaration = index.resolve declaration := rfl
  rw [hresolve]
  by_cases hr : index.resolve declaration = some target
  · simp [hr, keepsUsed_completed id _ declaration target hn hr, h]
  · simp [hr]

/-- A dependency that is kept for another reason than what its target could pass on is not reported when
those that were reported are gone. -/
theorem Gathered.not_reported_pruned {judgement : Judgement} (hj : judgement ∈ index.completed.judgements)
    {usage : Usage} (husage : judgement.usage = some usage) (hu : usage ≠ .dependencyPathsPassedOn) :
    (index.keeping index.completed.keepsUsed).completed.reports judgement.module judgement.edge.target =
      false := by
  obtain ⟨id, ⟨target, i⟩, u⟩ := judgement
  obtain ⟨hfind, hu'⟩ := mem_judgements.mp hj
  simp only at hfind hu' husage ⊢
  rw [hg.find?_dependenciesOf_completed] at hfind
  obtain ⟨⟨declared, position⟩, hhead, hedge⟩ := Option.map_eq_some_iff.mp hfind
  cases hedge
  have hmem := List.mem_of_head? hhead
  obtain ⟨hlt, hlt'⟩ := hg.lt_size_of_toward hmem
  have hsize : (index.keeping index.completed.keepsUsed).modules.size = index.modules.size :=
    size_of_core_eq (core_keeping index _)
  obtain ⟨record, hr⟩ := exists_record_completed hlt
  obtain ⟨provider, hp⟩ := exists_record_completed hlt'
  obtain ⟨record', hr'⟩ := exists_record_completed (hsize.symm ▸ hlt)
  obtain ⟨provider', hp'⟩ := exists_record_completed (hsize.symm ▸ hlt')
  have hused : usageOf record target provider declared = some usage := by
    rw [← usage_completed hr hp hmem, ← hu', husage]
  have hfirst : index.firstDeclaration id target = some declared := by
    rw [firstDeclaration_eq, hhead]
    rfl
  have hkept : index.completed.reports id target = false := by
    rw [← Bool.not_eq_true, hg.reports_iff hr hp]
    rintro ⟨d, hd, hnone⟩
    rw [hfirst] at hd
    rw [← Option.some.inj hd, hused] at hnone
    exact absurd hnone (by simp)
  rw [← Bool.not_eq_true, hg.keeping.reports_iff hr' hp', firstDeclaration_pruned hlt hkept]
  rintro ⟨d, hd, hnone⟩
  rw [hfirst] at hd
  rw [← Option.some.inj hd, hg.usageOf_pruned hr hr' hp hp' hused hu] at hnone
  exact absurd hnone (by simp)

end Pruning

end Index

namespace Build

/-- The findings without the declarations of dependencies that are reported. -/
def pruned (findings : List Finding) : List Finding :=
  findings.map (Finding.keeping (run findings).index.keepsUsed)

theorem run_pruned_index (findings : List Finding) :
    (run (pruned findings)).index =
      ((ofFindings findings).index.keeping (ofFindings findings).index.completed.keepsUsed).completed := by
  rw [run_index, pruned, ← (ofFindings_gathered _ findings).2, run_index]

/-- Pruning all reported dependencies leaves alone what the modules need. They have the same classes, linked
in the same way, refer to the same types and packages and pass the same modules on. What is visible is what
was visible before through a module the dependency on which is not reported; so the packages that a module
refers to come through the same modules in the same order. A dependency that was needed for another reason
than that its target could pass packages on is needed for the same reason, and is not reported. -/
theorem pruning_keeps_needs (findings : List Finding) :
    (run (pruned findings)).index.modules.size = (run findings).index.modules.size ∧
    (run (pruned findings)).index.classes = (run findings).index.classes ∧
    (∀ (id : ModuleId) record record', (run findings).index.modules[id]? = some record →
      (run (pruned findings)).index.modules[id]? = some record' →
      (record'.name = record.name ∧ record'.classes = record.classes ∧
        record'.classRefs = record.classRefs ∧ record'.packageRefs = record.packageRefs ∧
        record'.reExports = record.reExports) ∧
      (∀ package target, target ∈ record'.through package ↔ target ∈ record.through package ∧
        ⟨record.name, (run findings).index.moduleName target⟩ ∉
          (run findings).index.unusedDependencies.findings) ∧
      (∀ package ∈ record.packageRefs.keys,
        record'.providers.get? package = record.providers.get? package) ∧
      ∀ (target : ModuleId) provider provider', (run findings).index.modules[target]? = some provider →
        (run (pruned findings)).index.modules[target]? = some provider' →
        ∀ declared usage, usageOf record target provider declared = some usage →
          usage ≠ .dependencyPathsPassedOn → usageOf record' target provider' declared = some usage) ∧
    ∀ judgement ∈ (run findings).index.judgements, ∀ usage, judgement.usage = some usage →
      usage ≠ .dependencyPathsPassedOn →
      ⟨(run findings).index.moduleName judgement.module, (run findings).index.moduleName judgement.edge.target⟩ ∉
        (run (pruned findings)).index.unusedDependencies.findings := by
  have hg := (ofFindings_gathered (fun _ _ => true) findings).1
  rw [run_pruned_index, run_index]
  refine ⟨Index.size_of_core_eq hg.core_pruned, Index.classes_of_core_eq hg.core_pruned, ?_, ?_⟩
  · intro id record record' hr hr'
    obtain ⟨hname, hclasses, -, hrefs, hpackageRefs⟩ :=
      ModuleRecord.fields_of_core_eq (hg.core_record_pruned hr hr')
    refine ⟨⟨hname, hclasses, hrefs, hpackageRefs, hg.reExports_record_pruned hr hr'⟩, ?_, ?_, ?_⟩
    · intro package target
      have hmodule : (ofFindings findings).index.completed.moduleName id = record.name := by
        rw [Index.moduleName, hr]
        rfl
      rw [hg.through_record_pruned hr hr', List.mem_filter, Index.reports, hmodule]
      simp
    · intro package hp
      exact (hg.keeping.coherent_completed id record' hr').get?_providers_congr (hg.coherent_completed id record hr)
        (hg.through_record_pruned_of_refers hr hr' hp)
    · intro target provider provider' hp hp' declared usage hused hu
      exact hg.usageOf_pruned hr hr' hp hp' hused hu
  · intro judgement hj usage husage hu
    have hkept := hg.not_reported_pruned hj husage hu
    have hnames : ∀ id, ((ofFindings findings).index.keeping
        (ofFindings findings).index.completed.keepsUsed).completed.moduleName id =
          (ofFindings findings).index.completed.moduleName id :=
      fun id => congrArg (Option.getD · "") (Index.map_of_core_eq (fun _ => rfl) hg.core_pruned id)
    rw [Index.reports, hnames, hnames, decide_eq_false_iff_not] at hkept
    exact hkept

end Build

end ModuleAudit
