import ModuleAudit.Proofs.Build.Filed
import ModuleAudit.Proofs.Build.Recorded

/-! The books of a build while findings are added to it. What is added is counted once, as what it turns out to be: a
name as a module, an alias or missing, a class file as a class of the index or as failed, a declaration as one that is
stored. Each step enters what it changes (`Booked`), so the books are right after any findings
(`ofFindings_accounted`). -/

namespace ModuleAudit
set_option autoImplicit false

/-- How a warning about a dependency that leads nowhere begins. -/
def unresolvedLead : String := "Unresolved dependency"

/-- Whether a message warns about a dependency that leads nowhere. -/
def Message.isUnresolved (message : Message) : Bool :=
  message.level = .warning && unresolvedLead.toList.isPrefixOf message.text.toList

def unresolvedIn (log : Log) : Nat := log.countP Message.isUnresolved

def ResourceItem.said : ResourceItem → Log
  | .notice message => [message]
  | .entry _ _ => []

/-- What a repository itself said about a name. -/
def Finding.said (finding : Finding) : Log := finding.log ++ finding.items.flatMap ResourceItem.said

namespace Index

def allOf {α : Type} (index : Index) (f : ModuleRecord → List α) : List α := index.modules.toList.flatMap f

/-- Whether a declaration is on a module that is not there. -/
def isUnresolved (index : Index) (declared : Dependency) : Bool :=
  declared.isModule && (index.resolve declared).isNone

/-- How many links lead from classes to their supertypes and interfaces. -/
def linkCount (index : Index) : Nat :=
  index.classes.toList.countP (·.superLink.isSome) +
    (index.classes.toList.flatMap (·.interfaceLinks.toList)).length

end Index

/-! ## Messages -/

theorem Message.isUnresolved_warning {lead : String}
    (h : (unresolvedLead.toList.isPrefixOf lead.toList || lead.toList.isPrefixOf unresolvedLead.toList) = false)
    (rest : String) : (Message.warning (lead ++ rest)).isUnresolved = false := by
  rw [Bool.or_eq_false_iff] at h
  have hlead : lead.toList <+: (lead ++ rest).toList := by
    rw [String.toList_append]
    exact List.prefix_append _ _
  refine Bool.eq_false_iff.mpr fun hstart => ?_
  rw [isUnresolved, Bool.and_eq_true_iff, List.isPrefixOf_iff_prefix] at hstart
  rcases List.prefix_or_prefix_of_prefix hstart.2 hlead with hp | hp
  · exact absurd (List.isPrefixOf_iff_prefix.mpr hp) (by simp [h.1])
  · exact absurd (List.isPrefixOf_iff_prefix.mpr hp) (by simp [h.2])

theorem Message.isUnresolved_warning_of_lead {lead : String}
    (h : unresolvedLead.toList.isPrefixOf lead.toList = true) (rest : String) :
    (Message.warning (lead ++ rest)).isUnresolved = true := by
  have hall := (List.isPrefixOf_iff_prefix.mp h).trans (List.prefix_append lead.toList rest.toList)
  rw [← String.toList_append, ← List.isPrefixOf_iff_prefix] at hall
  exact Bool.and_eq_true_iff.mpr ⟨rfl, hall⟩

theorem unresolvedIn_append (log more : Log) : unresolvedIn (log ++ more) = unresolvedIn log + unresolvedIn more :=
  List.countP_append

theorem unresolvedIn_of_false {message : Message} (h : message.isUnresolved = false) : unresolvedIn [message] = 0 := by
  simp [unresolvedIn, h]

/-! ## Sums over modules -/

namespace Index

theorem allOf_eq {α : Type} (index : Index) (f : ModuleRecord → List α) :
    index.allOf f = (List.range index.modules.size).flatMap fun id => (index.modules[id]?.map f).getD [] := by
  have hmap : index.modules.toList.map f =
      (List.range index.modules.size).map fun id => (index.modules[id]?.map f).getD [] := by
    refine List.ext_getElem (by simp) fun i h _ => ?_
    simp only [List.length_map, Array.length_toList] at h
    simp [h]
  rw [allOf, List.flatMap_def, List.flatMap_def, hmap]

theorem allOf_congr {α : Type} {i j : Index} {f : ModuleRecord → List α}
    (h : ∀ id : ModuleId, i.modules[id]?.map f = j.modules[id]?.map f) : i.allOf f = j.allOf f := by
  have hmap : i.modules.map f = j.modules.map f := by
    refine Array.ext_getElem? fun id => ?_
    rw [Array.getElem?_map, Array.getElem?_map, h]
  have hlists := congrArg (fun lists : Array (List α) => lists.toList.flatten) hmap
  simp only [Array.toList_map] at hlists
  exact hlists

theorem length_flatMap_range {α : Type} {f g : Nat → List α} {extra : List α} {m : Nat}
    (h : ∀ id, g id = f id ++ if id = m then extra else []) (n : Nat) :
    ((List.range n).flatMap g).length = ((List.range n).flatMap f).length + if m < n then extra.length else 0 := by
  induction n with
  | zero => rfl
  | succ n ih =>
    rw [List.range_succ, List.flatMap_append, List.flatMap_append, List.length_append, List.length_append, ih,
      List.flatMap_singleton, List.flatMap_singleton, h n, List.length_append]
    by_cases hn : n = m
    · subst hn
      simp
      omega
    · have hiff : m < n + 1 ↔ m < n := by omega
      simp only [hn, hiff, if_false, List.length_nil]
      omega

theorem length_dependents_addEdge {index : Index} {edge : ModuleId × DependencyEdge}
    (hlt : edge.2.target < index.modules.size) :
    ((index.addEdge edge).allOf (·.dependents)).length = (index.allOf (·.dependents)).length + 1 := by
  have hsize : (index.addEdge edge).modules.size = index.modules.size := Array.size_modify.trans Array.size_modify
  have hadded : ∀ id, ((index.addEdge edge).modules[id]?.map (·.dependents)).getD [] =
      (index.modules[id]?.map (·.dependents)).getD [] ++
        if id = edge.2.target then [⟨edge.1, edge.2.declaration⟩] else [] := by
    intro id
    rw [getElem?_addEdge, Option.map_map]
    by_cases hid : id = edge.2.target
    · rw [hid, Array.getElem?_eq_getElem hlt]
      simp [withEdges]
    · have hid' : edge.2.target ≠ id := fun e => hid e.symm
      simp [withEdges, hid, hid', Function.comp_def]
  rw [allOf_eq, allOf_eq, hsize, length_flatMap_range hadded, if_pos hlt]
  rfl

theorem addModule_keeps (index : Index) (name : String) : (index.addModule name).1.classes = index.classes ∧
    (index.addModule name).1.allOf (·.declarations) = index.allOf (·.declarations) := by
  rcases index.addModule_cases name with ⟨id, -, e⟩ | ⟨-, e⟩
  · rw [e]
    exact ⟨rfl, rfl⟩
  · rw [e]
    refine ⟨rfl, ?_⟩
    rw [allOf, Array.toList_push, List.flatMap_append, List.flatMap_singleton, List.append_nil]
    rfl

end Index

theorem Change.size_foldl_apply (module : ModuleId) (changes : List Change) (index : Index) :
    (changes.foldl (apply module) index).modules.size = index.modules.size := by
  induction changes generalizing index with
  | nil => rfl
  | cons change rest ih =>
    rw [List.foldl_cons, ih]
    cases change with
    | pool change => rfl
    | attach record => exact Index.size_attachClass index record
    | _ => exact Array.size_modify

/-! ## Adding contents -/

namespace BuildStats

/-- The counters that adding contents leaves alone. -/
def others (stats : BuildStats) : Nat × Nat × Nat × Nat × Nat :=
  (stats.modules, stats.aliases, stats.missingModules, stats.dependentEdges, stats.unresolvedDependencies)

/-- All counters in the books. -/
def counted (stats : BuildStats) : Nat × Nat × Nat × (Nat × Nat × Nat × Nat × Nat) :=
  (stats.classes, stats.failedClasses, stats.dependencies, stats.others)

end BuildStats

namespace Build

/-- Contents that make `changes` and about which the repository `said` something are entered into the books: a class
file that is no class has failed, and nothing is said on the way about unresolved dependencies. -/
structure Booked (before : Build) (changes : List Change) (said : Log) (after : Build) : Prop where
  classes : after.stats.classes + before.stats.failedClasses =
    before.stats.classes + after.stats.failedClasses + (changes.flatMap Change.attached).length
  declared : after.stats.dependencies = before.stats.dependencies + (changes.flatMap Change.declared).length
  others : after.stats.others = before.stats.others
  told : unresolvedIn after.log = unresolvedIn before.log + unresolvedIn said

section Booked

variable {before between after : Build} {changes more : List Change} {said also : Log}

/-- What counts, changes and says nothing of interest. -/
theorem Booked.idle (hattached : changes.flatMap Change.attached = [])
    (hdeclared : changes.flatMap Change.declared = [])
    (hcounted : after.stats.counted = before.stats.counted) (hlog : unresolvedIn after.log = unresolvedIn before.log) :
    Booked before changes [] after := by
  simp only [BuildStats.counted, Prod.mk.injEq] at hcounted
  obtain ⟨hclasses, hfailed, hdependencies, hothers⟩ := hcounted
  refine ⟨?_, ?_, hothers, hlog⟩
  · rw [hattached, hclasses, hfailed]
    rfl
  · rw [hdeclared, hdependencies]
    rfl

theorem Booked.trans (h : Booked before changes said between) (h' : Booked between more also after) :
    Booked before (changes ++ more) (said ++ also) after := by
  refine ⟨?_, ?_, h'.others.trans h.others, ?_⟩
  · have e := h.classes
    have e' := h'.classes
    rw [List.flatMap_append, List.length_append]
    omega
  · rw [h'.declared, h.declared, List.flatMap_append, List.length_append, Nat.add_assoc]
  · rw [h'.told, h.told, unresolvedIn_append, Nat.add_assoc]

theorem Booked.foldl {α : Type} {f : Build → α → Build} {changes : α → List Change} {said : α → Log}
    (h : ∀ build a, Booked build (changes a) (said a) (f build a)) (l : List α) (build : Build) :
    Booked build (l.flatMap changes) (l.flatMap said) (l.foldl f build) := by
  induction l generalizing build with
  | nil => exact .idle rfl rfl rfl rfl
  | cons a rest ih =>
    rw [List.flatMap_cons, List.flatMap_cons, List.foldl_cons]
    exact (h build a).trans (ih (f build a))

end Booked

theorem unresolvedIn_say {build : Build} {message : Message} (h : message.isUnresolved = false) :
    unresolvedIn (build.say message).log = unresolvedIn build.log := by
  rw [say, unresolvedIn_append, unresolvedIn_of_false h, Nat.add_zero]

theorem booked_addService (build : Build) (module : ModuleId) (service : ServiceFile) :
    Booked build service.changes [] (build.addService module service) := by
  have hkept : ∀ (implementations : List String) (build : Build),
      (implementations.foldl (addImplementation module (slashed service.interface)) build).stats.counted =
          build.stats.counted ∧
        (implementations.foldl (addImplementation module (slashed service.interface)) build).log = build.log := by
    intro implementations
    induction implementations with
    | nil => exact fun _ => ⟨rfl, rfl⟩
    | cons first rest ih =>
      intro build
      rw [List.foldl_cons, (ih _).1, (ih _).2]
      simp only [addImplementation, count, counting, BuildStats.counted, BuildStats.others, and_self]
  have hdeclared : service.changes.flatMap Change.declared = [] :=
    List.flatMap_eq_nil_iff.mpr fun change hc => (ServiceFile.plain_of_mem_changes hc).1
  obtain ⟨hcounted, hlog⟩ := hkept service.implementations _
  exact .idle service.attached_changes hdeclared hcounted (congrArg unresolvedIn hlog)

theorem booked_addClassFile (build : Build) (module : ModuleId) (location : String) {name : String}
    (hname : endsWith classSuffix name = true) (contents : Except String Bytes) :
    Booked build (ResourceItem.changes module (.entry name contents)) []
      (build.addClassFile module location name contents) := by
  have htold : ∀ reason : String,
      Message.isUnresolved (.warning s!"Failed to read class {name} in {location}: {reason}") = false := by
    intro reason
    simp only [String.append_assoc]
    exact Message.isUnresolved_warning (by decide) _
  -- a class file is counted before it is read, so one that fails is counted twice
  have hcounts : ∀ classes failed : Nat, classes + 1 + failed = classes + (failed + 1) + 0 := by omega
  cases contents with
  | error reason => exact ⟨hcounts _ _, rfl, rfl, unresolvedIn_say (htold reason)⟩
  | ok bytes =>
    have he := ingest_eq build.index.pool module bytes
    simp only [addClassFile, index_count, index_counting, ResourceItem.changes, hname, if_true, classIn?, ← he]
    cases (ingest build.index.pool module bytes).2 with
    | error failure => exact ⟨hcounts _ _, rfl, rfl, unresolvedIn_say (htold failure.message)⟩
    | ok record => exact ⟨Nat.add_right_comm _ _ _, rfl, rfl, rfl⟩

theorem booked_addResource (module : ModuleId) (location : String) (build : Build) (item : ResourceItem) :
    Booked build (item.changes module) item.said (addResource module location build item) := by
  cases item with
  | notice message => exact ⟨rfl, rfl, rfl, unresolvedIn_append build.log [message]⟩
  | entry name contents =>
    rw [addResource]
    split
    · rename_i hname
      exact booked_addClassFile build module location hname contents
    · rename_i hname
      cases contents with
      | error reason =>
        have htold : Message.isUnresolved
            (.warning s!"Failed to read service file {name} in {location}: {reason}") = false := by
          simp only [String.append_assoc]
          exact Message.isUnresolved_warning (by decide) _
        split
        · exact .idle rfl rfl rfl (unresolvedIn_say htold)
        · exact .idle rfl rfl rfl rfl
      | ok bytes =>
        rw [ResourceItem.changes, if_neg hname, addServiceFile]
        cases hs : ServiceFile.parse? name (Utf8.lossy bytes) with
        | none => split <;> exact .idle rfl rfl rfl rfl
        | some service =>
          rw [if_pos (isPrefixOf_of_parse? hs)]
          exact booked_addService build module service

theorem booked_addRoot (module : ModuleId) (moduleName : String) (build : Build) (root : ResourceRoot) :
    Booked build (root.changes module) (root.items.flatMap ResourceItem.said)
      (addRoot module moduleName build root) := by
  cases root with
  | unlisted location => exact .idle rfl rfl rfl (unresolvedIn_say rfl)
  | listed listing =>
    have hstart : Booked build [] []
        ((build.counting fun s => { s with resourceRoots := s.resourceRoots + 1 }).count "resource roots") :=
      .idle rfl rfl rfl rfl
    have hitems := hstart.trans (Booked.foldl (booked_addResource module listing.location) listing.items _)
    rw [addRoot]
    split
    · rename_i failure _
      have htold : Message.isUnresolved (.warning s!"Failed to read resource root: {failure.message}") = false :=
        Message.isUnresolved_warning (by decide) _
      exact ⟨hitems.classes, hitems.declared, hitems.others, (unresolvedIn_say htold).trans hitems.told⟩
    · exact hitems

/-- The contents of a module are entered as the changes that they make. -/
theorem booked_contents (build : Build) (module : ModuleId) (name : String) (mainClass : Option String)
    (roots : List ResourceRoot) (dependencies : List Dependency) :
    Booked build (contentChanges module mainClass roots dependencies)
      ((roots.flatMap ResourceRoot.items).flatMap ResourceItem.said)
      (dependencies.foldl (addDeclaration module)
        (roots.foldl (addRoot module name) (build.setMainClass module mainClass))) := by
  have hmain : Booked build (mainClass.toList.flatMap fun name => [Change.main name, .refer (slashed name) 1]) []
      (build.setMainClass module mainClass) := by
    cases mainClass with
    | none => exact .idle rfl rfl rfl rfl
    | some main => exact .idle rfl rfl (by simp only [setMainClass]) (by simp only [setMainClass])
  have hdeclaration : ∀ (build : Build) (dependency : Dependency),
      Booked build [.declare dependency] [] (addDeclaration module build dependency) :=
    fun _ _ => ⟨rfl, rfl, rfl, rfl⟩
  have hroots := hmain.trans (Booked.foldl (booked_addRoot module name) roots (build.setMainClass module mainClass))
  have hall := hroots.trans (Booked.foldl hdeclaration dependencies
    (roots.foldl (addRoot module name) (build.setMainClass module mainClass)))
  have hsaid : (dependencies.flatMap fun _ => ([] : Log)) = [] := List.flatMap_eq_nil_iff.mpr fun _ _ => rfl
  rw [← List.map_eq_flatMap, hsaid, List.append_nil, List.nil_append, ← List.flatMap_assoc] at hall
  exact hall

/-! ## All findings -/

/-- The books of a build to which a number of names was added, about which the repository `said` something. -/
structure Accounted (names : Nat) (said : Log) (build : Build) : Prop where
  named : build.stats.modules + build.stats.aliases + build.stats.missingModules = names
  classes : build.stats.classes = build.index.classes.size + build.stats.failedClasses
  declared : build.stats.dependencies = (build.index.allOf (·.declarations)).length
  undrawn : build.stats.dependentEdges = 0 ∧ build.stats.unresolvedDependencies = 0
  told : unresolvedIn build.log = unresolvedIn said

section Accounted

variable {names : Nat} {said also : Log} {build after : Build} (h : Accounted names said build)
include h

/-- One more name is counted, and neither classes nor declarations are new. -/
theorem Accounted.name
    (hnamed : after.stats.modules + after.stats.aliases + after.stats.missingModules =
      build.stats.modules + build.stats.aliases + build.stats.missingModules + 1)
    (hstats : (after.stats.classes, after.stats.failedClasses, after.stats.dependencies, after.stats.dependentEdges,
      after.stats.unresolvedDependencies) = (build.stats.classes, build.stats.failedClasses, build.stats.dependencies,
        build.stats.dependentEdges, build.stats.unresolvedDependencies))
    (hclasses : after.index.classes = build.index.classes)
    (hdeclared : after.index.allOf (·.declarations) = build.index.allOf (·.declarations))
    (htold : unresolvedIn after.log = unresolvedIn (build.log ++ also)) :
    Accounted (names + 1) (said ++ also) after := by
  simp only [Prod.mk.injEq] at hstats
  obtain ⟨hc, hf, hd, he, hu⟩ := hstats
  refine ⟨?_, ?_, ?_, ?_, ?_⟩
  · rw [hnamed, h.named]
  · rw [hc, hf, hclasses, h.classes]
  · rw [hd, h.declared, hdeclared]
  · rw [he, hu]
    exact h.undrawn
  · rw [htold, unresolvedIn_append, h.told, unresolvedIn_append]

/-- Contents are booked as they change the index. -/
theorem Accounted.book {module : ModuleId} {name : String} (hname : build.index.nameOf? module = some name)
    {changes : List Change} (hbooked : Booked build changes also after)
    (hindex : after.index = changes.foldl (Change.apply module) build.index) :
    Accounted names (said ++ also) after := by
  have hothers := hbooked.others
  simp only [BuildStats.others, Prod.mk.injEq] at hothers
  obtain ⟨hmodules, haliases, hmissing, hedges, hunresolved⟩ := hothers
  refine ⟨?_, ?_, ?_, ?_, ?_⟩
  · rw [hmodules, haliases, hmissing, h.named]
  · have hsize : after.index.classes.size =
        build.index.classes.size + (changes.flatMap Change.attached).length := by
      rw [hindex, ← Array.length_toList, Change.classes_foldl_apply, List.length_append, Array.length_toList]
    have hcounted := hbooked.classes
    have hbefore := h.classes
    omega
  · have hlength := Index.length_flatMap_range (Change.declarationsOf_foldl_apply changes hname)
      build.index.modules.size
    rw [if_pos (Index.lt_size_of_nameOf? hname)] at hlength
    rw [hbooked.declared, h.declared, hindex, Index.allOf_eq, Index.allOf_eq, Change.size_foldl_apply]
    exact hlength.symm
  · rw [hedges, hunresolved]
    exact h.undrawn
  · rw [hbooked.told, h.told, unresolvedIn_append]

theorem Accounted.addFinding (hg : build.index.Gathered) (finding : Finding) :
    Accounted (names + 1) (said ++ finding.said) (build.addFinding finding) := by
  rw [Finding.said, Finding.items, Finding.spec?, Build.addFinding]
  cases finding.outcome with
  | error error =>
    have htold : Message.isUnresolved (.warning s!"Unable to load module \"{finding.name}\": {error.message}") =
        false := by
      simp only [String.append_assoc]
      exact Message.isUnresolved_warning (by decide) _
    rw [List.flatMap_nil, List.append_nil]
    exact h.name rfl rfl rfl rfl (unresolvedIn_say htold)
  | ok found =>
    cases found with
    | none =>
      have htold : Message.isUnresolved (.warning s!"Unable to find module \"{finding.name}\"") = false := by
        simp only [String.append_assoc]
        exact Message.isUnresolved_warning (by decide) _
      rw [List.flatMap_nil, List.append_nil]
      exact h.name rfl rfl rfl rfl (unresolvedIn_say htold)
    | some spec =>
      cases spec with
      | link name target =>
        rw [List.flatMap_nil, List.append_nil]
        exact h.name (Nat.add_right_comm _ 1 _) rfl rfl rfl rfl
      | module name mainClass roots dependencies =>
        have hcounts : ∀ modules aliases missing : Nat,
            modules + 1 + aliases + missing = modules + aliases + missing + 1 := by omega
        -- the name is counted first, and then the contents are entered under the module that it was given
        have hstart : Accounted (names + 1) (said ++ finding.log)
            (({ build with log := build.log ++ finding.log, index := (build.index.addModule name).1 }.counting
              fun s => { s with modules := s.modules + 1 }).count "modules") :=
          h.name (hcounts _ _ _) rfl (Index.addModule_keeps build.index name).1
            (Index.addModule_keeps build.index name).2 rfl
        have hbooked := booked_contents
          (({ build with log := build.log ++ finding.log, index := (build.index.addModule name).1 }.counting
            fun s => { s with modules := s.modules + 1 }).count "modules")
          (build.index.addModule name).2 name mainClass roots dependencies
        rw [← List.append_assoc]
        exact hstart.book (hg.addModule name).2 hbooked
          (addSpec_index { build with log := build.log ++ finding.log } name mainClass roots dependencies)

end Accounted

theorem ofFindings_accounted (findings : List Finding) :
    Accounted findings.length (findings.flatMap Finding.said) (ofFindings findings) := by
  have hpassed := foldl_passed (l := findings) (f := addFinding) (b := {})
    (P := fun done build => build = ofFindings done ∧ Accounted done.length (done.flatMap Finding.said) build) ?_ ?_
  · exact hpassed.2
  · exact ⟨rfl, rfl, rfl, rfl, ⟨rfl, rfl⟩, rfl⟩
  · rintro done finding rest build - ⟨hbuild, haccounted⟩
    have hg : build.index.Gathered := by
      rw [hbuild]
      exact (ofFindings_gathered (fun _ _ => true) done).1
    refine ⟨?_, ?_⟩
    · rw [hbuild, ofFindings, ofFindings, List.foldl_append]
      rfl
    · rw [List.length_append, List.length_singleton, List.flatMap_append, List.flatMap_singleton]
      exact haccounted.addFinding hg finding

end Build

end ModuleAudit
