import ModuleAudit.Proofs.Audit.Pruning
import ModuleAudit.Proofs.Prune.Meaning
import ModuleAudit.Proofs.Repository.Scan
import ModuleAudit.Prune.Fix

/-! What a fix does with a dependency that is reported. A finding names the module that a declaration leads to, and a
fix looks for entries with that name. So it acts on a finding exactly if the descriptor names the module itself, and
not if only aliases of it are declared. -/

namespace ModuleAudit
set_option autoImplicit false

/-! ## Edits of descriptors that were parsed -/

namespace Prune

open Markup Node

/-- A descriptor with a dependency on a module can be edited, unless a character would be torn behind the mark that it
starts with. The edit acts on the unused modules that dependencies name. -/
theorem exists_edit_of_parse {text name : String} {mainClass : Option String}
    {resources : List ModuleDescriptor.Resource} {dependencies : List Dependency}
    (hparse : ModuleDescriptor.parse text = .ok (.module name mainClass resources dependencies))
    {declared : Dependency} (hdeclared : declared ∈ dependencies) (hmodule : declared.isModule = true)
    (unused : List String) :
    (∃ edit notes, removeDependencies text unused = .ok (edit, notes) ∧
      ∀ module, (module ∈ edit.removed ∨ module ∈ edit.preserved) ↔
        module ∈ unused ∧ ∃ dependency ∈ dependencies, dependency.moduleName? = some module) ∨
    text.toList.head? = some byteOrderMark ∧ removeDependencies text unused = .error .tornCharacter := by
  obtain ⟨root, hroot, hroot'⟩ := ModuleDescriptor.parse_eq_module_iff.mp hparse
  obtain ⟨row, hread, hrow⟩ := Option.bind_eq_some_iff.mp hroot
  obtain ⟨nodes, rest, more, rfl, -, hnodes⟩ :=
    exists_elements_of_rootOf? (read?_eq_some_iff.mp hread).2 hrow
  -- an entry stands for the dependency, so the dependencies are there, and are no empty tag
  have hentries : ModuleDescriptor.entriesOf root "dependencies" ≠ [] := by
    intro hnone
    obtain ⟨found, hfound, rfl⟩ := hroot'.dependencies
    rw [hnone] at hfound
    obtain rfl := Except.ok.inj hfound
    rw [List.mem_singleton.mp hdeclared] at hmodule
    cases hmodule
  rcases hchild : root.child? "dependencies" with _ | child
  · rw [ModuleDescriptor.entriesOf, hchild] at hentries
    exact absurd rfl hentries
  rcases exists_layout rest hnodes hchild with ⟨hempty, -⟩ | ⟨layout, elements, htokens, -, rfl, rfl⟩
  · rw [ModuleDescriptor.entriesOf, hchild] at hentries
    exact absurd hempty hentries
  · rw [← htokens] at hread
    obtain ⟨decisions, groups, labels, hedited, hdecided, choices, inside, rfl, hnames, -, -⟩ :=
      elements.exists_edited hread hroot' unused
    cases hwhole : decisions.isWhole text.toList with
    | false =>
      refine .inr ⟨by_contra fun hmark => ?_, hdecided.trans (if_neg (by rw [hwhole]; exact Bool.false_ne_true))⟩
      rw [← Layout.row_frame] at hread
      exact Bool.false_ne_true (hwhole.symm.trans (hedited.isWhole hread hmark))
    | true =>
      refine .inl ⟨_, _, hdecided.trans (Decisions.outcome_of_isWhole hwhole),
        fun module => (hedited.acted_iff hnames module).trans ?_⟩
      have hown : Dependency.onOwn.moduleName? ≠ some module := by
        intro hname
        cases hname
      rw [List.exists_mem_cons_iff, or_iff_right hown]

end Prune

/-! ## Declarations of an index -/

namespace Build

/-- What a module of the index declares, a finding declares for it. -/
theorem exists_spec_of_declared (findings : List Finding) {id : ModuleId} {name : String}
    (hname : (ofFindings findings).index.nameOf? id = some name) {declared : Dependency}
    (h : declared ∈ (ofFindings findings).index.declarationsOf id) :
    ∃ finding ∈ findings, ∃ mainClass roots dependencies,
      finding.outcome = .ok (some (.module name mainClass roots dependencies)) ∧ declared ∈ dependencies := by
  classical
  -- leaving out what no finding declares leaves out nothing
  let keep : String → Dependency → Bool := fun module dependency => decide (∃ finding ∈ findings,
    ∃ mainClass roots dependencies, finding.outcome = .ok (some (.module module mainClass roots dependencies)) ∧
      dependency ∈ dependencies)
  have hall : findings.map (Finding.keeping keep) = findings := by
    refine (List.map_congr_left fun finding hfinding => ?_).trans (List.map_id findings)
    obtain ⟨key, log, outcome⟩ := finding
    rcases outcome with error | _ | spec
    · rfl
    · rfl
    · cases spec with
      | link other target => rfl
      | module own mainClass roots dependencies =>
        have hkept : dependencies.filter (keep own) = dependencies := by
          refine List.filter_eq_self.mpr fun dependency hdependency => decide_eq_true ?_
          exact ⟨_, hfinding, mainClass, roots, dependencies, rfl, hdependency⟩
        change Finding.mk key log (.ok (some (.module own mainClass roots (dependencies.filter (keep own))))) = _
        rw [hkept]
        rfl
  have hsame := (ofFindings_gathered keep findings).2
  rw [hall] at hsame
  have hfilter : ((ofFindings findings).index.keeping keep).declarationsOf id =
      ((ofFindings findings).index.declarationsOf id).filter (keep name) := Index.declarationsOf_keeping hname
  rw [hsame] at hfilter
  rw [hfilter] at h
  exact of_decide_eq_true (List.mem_filter.mp h).2

end Build

namespace UnusedDependencies

/-- The unused dependencies of a module. -/
def targetsOf (unused : UnusedDependencies) (module : String) : List String :=
  (unused.findings.filter (·.module = module)).map (·.dependency)

theorem mem_targetsOf {unused : UnusedDependencies} {module target : String} :
    target ∈ unused.targetsOf module ↔ ⟨module, target⟩ ∈ unused.findings := by
  rw [targetsOf, List.mem_map]
  constructor
  · rintro ⟨⟨source, dependency⟩, hmem, rfl⟩
    obtain ⟨hfinding, hsource⟩ := List.mem_filter.mp hmem
    obtain rfl := of_decide_eq_true hsource
    exact hfinding
  · intro hfinding
    exact ⟨⟨module, target⟩, List.mem_filter.mpr ⟨hfinding, decide_eq_true rfl⟩, rfl⟩

theorem get?_byModule (unused : UnusedDependencies) (module : String) : unused.byModule.get? module =
    if unused.targetsOf module = [] then none else some (unused.targetsOf module) := by
  obtain ⟨findings, exports⟩ := unused
  rw [byModule, targetsOf]
  dsimp only
  induction findings using List.reverseRecOn with
  | nil => rfl
  | append_singleton findings finding ih =>
    rw [List.foldl_append, List.foldl_cons, List.foldl_nil, OrderedMap.get?_alter, List.filter_append,
      List.map_append]
    by_cases hmodule : module = finding.module
    · subst hmodule
      have hknown : ∀ targets : List String, (if targets = [] then none else some targets).getD [] = targets := by
        intro targets
        split
        · rename_i hempty
          exact hempty.symm
        · rfl
      have hown : ([finding].filter (·.module = finding.module)).map (·.dependency) = [finding.dependency] := by
        simp
      rw [if_pos rfl, ih, hknown, hown, if_neg (List.append_ne_nil_of_right_ne_nil _ (List.cons_ne_nil _ _))]
    · rw [if_neg hmodule, ih, List.filter_cons_of_neg (by simp [Ne.symm hmodule]), List.filter_nil, List.map_nil,
        List.append_nil]

end UnusedDependencies

/-! ## Findings of a repository on disk -/

namespace Index

/-- A declaration of the module leads to what is reported. -/
theorem Gathered.exists_declared_of_mem_findings {index : Index} (hg : index.Gathered) {module target : String}
    (h : ⟨module, target⟩ ∈ index.completed.unusedDependencies.findings) :
    ∃ id found declared, index.nameOf? id = some module ∧ declared ∈ index.declarationsOf id ∧
      index.completed.resolve declared = some found ∧ index.completed.moduleName found = target := by
  obtain ⟨judgement, hjudgement, -, rfl, rfl⟩ := mem_findings.mp h
  obtain ⟨hfind, -⟩ := mem_judgements.mp hjudgement
  rw [hg.find?_dependenciesOf_completed] at hfind
  obtain ⟨⟨declared, i⟩, hhead, -⟩ := Option.map_eq_some_iff.mp hfind
  have hmem := List.mem_of_head? hhead
  obtain ⟨hdeclared, hresolve⟩ := mem_toward.mp hmem
  refine ⟨judgement.module, judgement.edge.target, declared, nameOf?_of_lt (hg.lt_size_of_toward hmem).1,
    List.mem_of_getElem? hdeclared, ?_, rfl⟩
  rw [resolve_completed]
  exact hresolve

end Index

/-- The index of the repository that the roots make on disk. -/
def DiskRepository.index (tree : FileTree) (roots : List String) : Index :=
  (Build.run (findings tree (scan tree roots).2)).index

namespace Prune

/-- Every dependency that is reported comes from the descriptor of its module. The edit of that descriptor acts on it
exactly if the descriptor has an entry that names it, and not if all entries for it name aliases. There is no edit only
where a character would be torn behind the mark that the descriptor starts with. -/
theorem edit_acts_on_reported_iff {tree : FileTree} (htree : tree.Proper) (roots : List String)
    {module target : String}
    (h : ⟨module, target⟩ ∈ (DiskRepository.index tree roots).unusedDependencies.findings) :
    ∃ path text mainClass resources dependencies targets,
      (DiskRepository.scan tree roots).2.descriptors.get? module = some path ∧
      tree.readText? path = some text ∧
      ModuleDescriptor.parse text = .ok (.module module mainClass resources dependencies) ∧
      (DiskRepository.index tree roots).unusedDependencies.byModule.get? module = some targets ∧
      target ∈ targets ∧
      (∃ declared ∈ dependencies, ∃ written id, declared.moduleName? = some written ∧
        (DiskRepository.index tree roots).findModule? written = some id ∧
        (DiskRepository.index tree roots).moduleName id = target) ∧
      ((∃ edit notes, removeDependencies text targets = .ok (edit, notes) ∧
          ((target ∈ edit.removed ∨ target ∈ edit.preserved) ↔
            ∃ declared ∈ dependencies, declared.moduleName? = some target)) ∨
        text.toList.head? = some Markup.byteOrderMark ∧
          removeDependencies text targets = .error .tornCharacter) := by
  have htargets := UnusedDependencies.mem_targetsOf.mpr h
  have hlisted := UnusedDependencies.get?_byModule (DiskRepository.index tree roots).unusedDependencies module
  rw [if_neg (List.ne_nil_of_mem htargets)] at hlisted
  have hg := (Build.ofFindings_gathered (fun _ _ => true)
    (DiskRepository.findings tree (DiskRepository.scan tree roots).2)).1
  rw [DiskRepository.index, Build.run_index] at h
  obtain ⟨id, found, declared, hname, hdeclared, hresolve, hfound⟩ := hg.exists_declared_of_mem_findings h
  obtain ⟨finding, hfinding, mainClass, resourceRoots, dependencies, houtcome, hmem⟩ :=
    Build.exists_spec_of_declared _ hname hdeclared
  obtain ⟨path, text, resources, hpath, htext, hparse⟩ :=
    DiskRepository.exists_text_of_mem_findings (DiskRepository.keyed_scan htree roots) hfinding houtcome
  obtain ⟨written, hwritten, hresolve⟩ := Option.bind_eq_some_iff.mp hresolve
  have hmodule : declared.isModule = true := by
    rw [Dependency.isModule, hwritten]
    rfl
  refine ⟨path, text, mainClass, resources, dependencies, _, hpath, htext, hparse, hlisted, htargets,
    ⟨declared, hmem, written, found, hwritten, ?_, ?_⟩, ?_⟩
  · rw [DiskRepository.index, Build.run_index]
    exact hresolve
  · rw [DiskRepository.index, Build.run_index]
    exact hfound
  · refine (exists_edit_of_parse hparse hmem hmodule _).imp_left ?_
    rintro ⟨edit, notes, hedit, hacts⟩
    exact ⟨edit, notes, hedit, (hacts target).trans (and_iff_right htargets)⟩

/-- A descriptor with an entry for an alias and an entry for a module. -/
def workshopApp : String :=
  "<module name=\"app\"><dependencies><module name=\"alias\"/><module name=\"tool\"/></dependencies></module>"

/-- The descriptor of `app`, of an alias of `lib`, and of modules that have nothing. -/
def workshop : FileTree where
  nodes := .ofList
    [(["r"], .directory), (["r", "app"], .directory), (["r", "app", "module.xml"], .file (Utf8.bytesOf workshopApp)),
      (["r", "alias"], .directory), (["r", "alias", "module.xml"],
        .file (Utf8.bytesOf "<module-alias name=\"alias\" target-name=\"lib\"/>")),
      (["r", "lib"], .directory), (["r", "lib", "module.xml"], .file (Utf8.bytesOf "<module name=\"lib\"/>")),
      (["r", "tool"], .directory), (["r", "tool", "module.xml"], .file (Utf8.bytesOf "<module name=\"tool\"/>"))]

theorem findings_workshop : (DiskRepository.index workshop ["r"]).unusedDependencies.findings =
    [⟨"app", "lib"⟩, ⟨"app", "tool"⟩] := by decide +kernel

theorem edit_acts_on_reported_iff_workshop : workshop.Proper ∧
    ⟨"app", "tool"⟩ ∈ (DiskRepository.index workshop ["r"]).unusedDependencies.findings ∧
    ∃ path text mainClass resources dependencies targets,
      (DiskRepository.scan workshop ["r"]).2.descriptors.get? "app" = some path ∧
      workshop.readText? path = some text ∧
      ModuleDescriptor.parse text = .ok (.module "app" mainClass resources dependencies) ∧
      (DiskRepository.index workshop ["r"]).unusedDependencies.byModule.get? "app" = some targets ∧
      "tool" ∈ targets ∧
      (∃ declared ∈ dependencies, ∃ written id, declared.moduleName? = some written ∧
        (DiskRepository.index workshop ["r"]).findModule? written = some id ∧
        (DiskRepository.index workshop ["r"]).moduleName id = "tool") ∧
      ((∃ edit notes, removeDependencies text targets = .ok (edit, notes) ∧
          (("tool" ∈ edit.removed ∨ "tool" ∈ edit.preserved) ↔
            ∃ declared ∈ dependencies, declared.moduleName? = some "tool")) ∨
        text.toList.head? = some Markup.byteOrderMark ∧
          removeDependencies text targets = .error .tornCharacter) := by
  have hproper : workshop.Proper := by decide +kernel
  have hreported : ⟨"app", "tool"⟩ ∈ (DiskRepository.index workshop ["r"]).unusedDependencies.findings := by
    rw [findings_workshop]
    decide
  exact ⟨hproper, hreported, edit_acts_on_reported_iff hproper ["r"] hreported⟩

/-- An entry that names an alias is left alone, although the dependency on what the alias stands for is reported. -/
theorem alias_entry_left_alone : workshop.Proper ∧
    ⟨"app", "lib"⟩ ∈ (DiskRepository.index workshop ["r"]).unusedDependencies.findings ∧
    (DiskRepository.index workshop ["r"]).unusedDependencies.byModule.get? "app" = some ["lib", "tool"] ∧
    workshop.readText? "r/app/module.xml" = some workshopApp ∧
    ∃ edit notes, removeDependencies workshopApp ["lib", "tool"] = .ok (edit, notes) ∧ edit.removed = ["tool"] ∧
      edit.preserved = [] := by
  have hacted : (removeDependencies workshopApp ["lib", "tool"]).map (fun result =>
      (result.1.removed, result.1.preserved)) = .ok (["tool"], []) := by decide +kernel
  refine ⟨by decide +kernel, ?_, ?_, by decide +kernel, ?_⟩
  · rw [findings_workshop]
    decide
  · rw [UnusedDependencies.get?_byModule, UnusedDependencies.targetsOf, findings_workshop]
    decide
  · cases hedit : removeDependencies workshopApp ["lib", "tool"] with
    | error fault =>
      rw [hedit] at hacted
      cases hacted
    | ok result =>
      rw [hedit] at hacted
      obtain ⟨hremoved, hpreserved⟩ := Prod.mk.inj (Except.ok.inj hacted)
      exact ⟨result.1, result.2, rfl, hremoved, hpreserved⟩

end Prune

end ModuleAudit
