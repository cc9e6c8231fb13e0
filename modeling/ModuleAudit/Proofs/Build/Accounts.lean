import ModuleAudit.Proofs.Build.Booked
import ModuleAudit.Repository.Disk
import ModuleAudit.Repository.Memory

/-! The books of a whole build. Each declaration is drawn as an edge or left for one of three reasons (`Drawn`), a link
is counted where it is made, and nothing but an unresolved dependency is reported as one. So what a build counts is
what is in its index and in its log (`run_accounts_balance`). -/

namespace ModuleAudit
set_option autoImplicit false

namespace Build

/-! ## Edges -/

/-- The books after the edges of some declarations were drawn. -/
structure Drawn (start : Build) (done : List Dependency) (build : Build) : Prop where
  resolve : build.index.resolve = start.index.resolve
  declarations : build.index.declarationsOf = start.index.declarationsOf
  size : build.index.modules.size = start.index.modules.size
  stats : build.stats = { start.stats with
    dependentEdges := start.stats.dependentEdges + done.countP fun d => (start.index.resolve d).isSome
    unresolvedDependencies := start.stats.unresolvedDependencies +
      done.countP fun d => start.index.isUnresolved d && !d.isOptional }
  dependents : (build.index.allOf (·.dependents)).length =
    (start.index.allOf (·.dependents)).length + done.countP fun d => (start.index.resolve d).isSome
  told : unresolvedIn build.log = unresolvedIn start.log +
    done.countP fun d => start.index.isUnresolved d && !d.isOptional

section Drawn

variable {start build : Build} {done : List Dependency} (h : Drawn start done build)

include h

theorem Drawn.leave {declared : Dependency} (hnone : start.index.resolve declared = none)
    (hquiet : (start.index.isUnresolved declared && !declared.isOptional) = false) :
    Drawn start (done ++ [declared]) build := by
  obtain ⟨hresolve, hdeclarations, hsize, hstats, hdependents, htold⟩ := h
  exact ⟨hresolve, hdeclarations, hsize, by simpa [hnone, hquiet] using hstats, by simpa [hnone] using hdependents,
    by simpa [hquiet] using htold⟩

/-- One declaration becomes an edge, or is left because it is not on a module, because the module may be absent, or
because it is missing; only then is there something to say. -/
theorem Drawn.drawEdge (hrange : ∀ declared target, start.index.resolve declared = some target →
    target < start.index.modules.size) (id : ModuleId) (declared : Dependency) (i : Nat) :
    Drawn start (done ++ [declared]) (drawEdge id build (declared, i)) := by
  have hresolve : start.index.resolve declared = declared.moduleName?.bind build.index.findModule? := by
    rw [← h.resolve]
    rfl
  rw [Build.drawEdge]
  cases hm : declared.moduleName? with
  | none =>
    rw [hm, Option.bind_none] at hresolve
    exact h.leave hresolve (by simp [Index.isUnresolved, Dependency.isModule, hm])
  | some name =>
    rw [hm, Option.bind_some] at hresolve
    simp only
    cases hf : build.index.findModule? name with
    | some target =>
      rw [hf] at hresolve
      have hlt := h.size ▸ hrange declared target hresolve
      have hquiet : start.index.isUnresolved declared = false := by simp [Index.isUnresolved, hresolve]
      refine ⟨h.resolve, ?_, ?_, ?_, ?_, ?_⟩
      · rw [← h.declarations]
        exact Index.declarationsOf_foldl_addEdge [(id, ⟨target, i⟩)] build.index
      · exact Array.size_modify.trans (Array.size_modify.trans h.size)
      · simp [counting, count, h.stats, hresolve, hquiet, Nat.add_assoc]
      · have hone : [declared].countP (fun d => (start.index.resolve d).isSome) = 1 := by simp [hresolve]
        rw [List.countP_append, ← Nat.add_assoc, ← h.dependents, hone]
        exact @Index.length_dependents_addEdge _ (id, ⟨target, i⟩) hlt
      · simp [counting, count, h.told, hquiet]
    | none =>
      rw [hf] at hresolve
      -- only a dependency that is not optional is counted and reported
      have hunresolved : start.index.isUnresolved declared = true := by
        simp [Index.isUnresolved, Dependency.isModule, hm, hresolve]
      simp only
      split
      · rename_i hoptional
        exact h.leave hresolve (by simp [hoptional])
      · rename_i hoptional
        have htold : Message.isUnresolved (.warning
            s!"Unresolved dependency from \"{build.index.moduleName id}\" to \"{name}\"") = true := by
          simp only [String.append_assoc]
          exact Message.isUnresolved_warning_of_lead (by decide) _
        refine ⟨h.resolve, h.declarations, h.size, ?_, ?_, ?_⟩
        · simp [counting, say, h.stats, hresolve, hunresolved, hoptional, Nat.add_assoc]
        · simp [counting, say, h.dependents, hresolve]
        · rw [say, unresolvedIn_append, counting, h.told, List.countP_append, Nat.add_assoc]
          simp [unresolvedIn, htold, hunresolved, hoptional]

theorem Drawn.drawEdgesOf (hrange : ∀ declared target, start.index.resolve declared = some target →
    target < start.index.modules.size) (id : ModuleId) :
    Drawn start (done ++ start.index.declarationsOf id) (build.drawEdgesOf id) := by
  have hpassed := foldl_passed (l := (start.index.declarationsOf id).zipIdx) (f := Build.drawEdge id) (b := build)
    (P := fun entries build => Drawn start (done ++ entries.map Prod.fst) build) ?_ ?_
  · rw [List.zipIdx_map_fst, ← h.declarations] at hpassed
    rw [← h.declarations]
    exact hpassed
  · simpa using h
  · rintro entries ⟨declared, i⟩ rest build - hdrawn
    rw [List.map_append, ← List.append_assoc]
    exact hdrawn.drawEdge hrange id declared i

end Drawn

theorem drawn_drawEdges {build : Build} (hg : build.index.Gathered) :
    Drawn build (build.index.allOf (·.declarations)) build.drawEdges := by
  have hpassed := foldl_passed (l := List.range build.index.modules.size) (f := drawEdgesOf)
    (b := { build with tally := .start ["dependent edges"] })
    (P := fun ids after => Drawn build (ids.flatMap build.index.declarationsOf) after) ?_ ?_
  · rw [Index.allOf_eq]
    exact hpassed
  · exact ⟨rfl, rfl, rfl, rfl, rfl, rfl⟩
  · rintro ids id rest after - hdrawn
    rw [List.flatMap_append, List.flatMap_singleton]
    exact hdrawn.drawEdgesOf (fun _ _ => hg.lt_size_of_resolve) id

end Build

namespace Index

/-- A declaration leads to a module, or it does not for one of three reasons. -/
theorem length_eq_countP (index : Index) (declarations : List Dependency) : declarations.length =
    declarations.countP (fun d => (index.resolve d).isSome) +
      declarations.countP (fun d => index.isUnresolved d && !d.isOptional) +
      declarations.countP (fun d => index.isUnresolved d && d.isOptional) +
      declarations.countP (fun d => !d.isModule) := by
  induction declarations with
  | nil => rfl
  | cons d rest ih =>
    simp only [List.length_cons, List.countP_cons]
    by_cases hm : d.isModule = true
    · cases hr : index.resolve d with
      | some target =>
        have hleads : index.isUnresolved d = false := by simp [isUnresolved, hr]
        simp [hm, hleads]
        omega
      | none =>
        have hleft : index.isUnresolved d = true := by simp [isUnresolved, hm, hr]
        cases hoptional : d.isOptional with
        | false =>
          simp [hm, hleft]
          omega
        | true =>
          simp [hm, hleft]
          omega
    · have hnone : index.resolve d = none := by
        rw [resolve, Option.not_isSome_iff_eq_none.mp hm, Option.bind_none]
      have hleft : index.isUnresolved d = false := by simp [isUnresolved, hm]
      simp [hm, hleft, hnone]
      omega

/-! ## Links -/

theorem linkClass_count {index : Index} {record : ClassRecord} (h : record.Unlinked) :
    (index.linkClass record).2 = (index.linkClass record).1.superLink.toList.length +
      (index.linkClass record).1.interfaceLinks.toList.length := by
  simp only [linkClass, h.2]
  rfl

theorem Filed.linkCount_eq {index : Index} (h : index.Filed) :
    index.linkSupertypes.2 = index.linkSupertypes.1.linkCount := by
  have hall : ∀ (records : List ClassRecord) (n : Nat), (∀ record ∈ records, record.Unlinked) →
      (records.map fun record => (index.linkClass record).2).foldl (· + ·) n =
        n + ((records.map fun record => (index.linkClass record).1).countP (·.superLink.isSome) +
          ((records.map fun record => (index.linkClass record).1).flatMap (·.interfaceLinks.toList)).length) := by
    intro records
    induction records with
    | nil => exact fun _ _ => rfl
    | cons record rest ih =>
      intro n hunlinked
      rw [List.forall_mem_cons] at hunlinked
      rw [List.map_cons, List.foldl_cons, ih _ hunlinked.2, linkClass_count hunlinked.1, List.map_cons,
        List.countP_cons, List.flatMap_cons, List.length_append]
      cases (index.linkClass record).1.superLink with
      | none =>
        simp
        omega
      | some parent =>
        simp
        omega
  have hclasses := hall index.classes.toList 0 fun record hr => h.unlinked record (Array.mem_toList_iff.mp hr)
  simp only [linkSupertypes, linkCount, Array.toList_map, List.map_map]
  rw [Nat.zero_add] at hclasses
  exact hclasses

theorem size_classes_completed (index : Index) : index.completed.classes.size = index.classes.size := by
  rw [completed, classes_inheritAll, linkSupertypes, Array.size_map, Array.size_map,
    classes_of_core_eq (core_spreadAll_drawn index)]

end Index

/-! ## What repositories say -/

theorem unresolvedIn_eq_zero {log : Log} (h : ∀ message ∈ log, message.isUnresolved = false) : unresolvedIn log = 0 :=
  List.countP_eq_zero.mpr fun message hm => Bool.eq_false_iff.mp (h message hm)

theorem MemoryRepository.said_eq_nil {repository : MemoryRepository} {finding : Finding}
    (h : finding ∈ repository.findings) : finding.said = [] := by
  obtain ⟨name, -, rfl⟩ := List.mem_map.mp h
  rw [Finding.said, List.nil_append, Finding.items, Finding.spec?, find?]
  cases repository.entries.get? name with
  | none => rfl
  | some entry =>
    cases entry with
    | link target => rfl
    | module m =>
      refine List.flatMap_eq_nil_iff.mpr fun item hi => ?_
      obtain ⟨root, hr, hi⟩ := List.mem_flatMap.mp hi
      obtain ⟨⟨entries, number⟩, -, rfl⟩ := List.mem_map.mp hr
      obtain ⟨entry, -, rfl⟩ := List.mem_map.mp hi
      rfl

theorem Listing.quiet_ofDirectory (tree : FileTree) (path : String) :
    (Listing.ofDirectory tree path).items.flatMap ResourceItem.said = [] := by
  rw [Listing.ofDirectory]
  split
  · simp [List.flatMap_map, ResourceItem.said]
  · rfl

theorem Listing.quiet_ofArchive (tree : FileTree) (path : String) {message : Message}
    (h : message ∈ (Listing.ofArchive tree path).items.flatMap ResourceItem.said) : message.isUnresolved = false := by
  rw [Listing.ofArchive] at h
  split at h
  · cases h
  · cases h
  · split at h
    · cases h
    · rw [List.flatMap_cons, List.mem_append] at h
      rcases h with h | h
      · rw [List.mem_singleton.mp h]
        rfl
      · obtain ⟨item, hi, hm⟩ := List.mem_flatMap.mp h
        obtain ⟨⟨entry, number⟩, -, hentry⟩ := List.mem_filterMap.mp hi
        rw [itemOf?] at hentry
        split at hentry
        · rw [← Option.some.inj hentry] at hm
          rw [List.mem_singleton.mp hm]
          simp only [String.append_assoc]
          exact Message.isUnresolved_warning (by decide) _
        · split at hentry
          · rw [← Option.some.inj hentry] at hm
            cases hm
          · cases hentry

theorem quiet_resourceRoot (tree : FileTree) (directory : String) (resource : ModuleDescriptor.Resource)
    {message : Message} (h : message ∈ (resourceRoot tree directory resource).1 ++
      (resourceRoot tree directory resource).2.items.flatMap ResourceItem.said) : message.isUnresolved = false := by
  cases resource with
  | artifact coordinates => cases h
  | path relative =>
    simp only [resourceRoot] at h
    split at h
    · rw [List.nil_append, ResourceRoot.items, Listing.quiet_ofDirectory] at h
      cases h
    · split at h
      · exact Listing.quiet_ofArchive tree _ h
      · rw [List.mem_singleton.mp h]
        rfl

theorem DiskRepository.quiet_of_mem_said {tree : FileTree} {repository : DiskRepository} {finding : Finding}
    (h : finding ∈ repository.findings tree) {message : Message} (hm : message ∈ finding.said) :
    message.isUnresolved = false := by
  obtain ⟨name, -, rfl⟩ := List.mem_map.mp h
  rw [find] at hm
  split at hm
  · cases hm
  · split at hm
    · cases hm
    · split at hm
      · cases hm
      · rename_i descriptor _
        cases descriptor with
        | link known target => cases hm
        | module known mainClass resources dependencies =>
          rcases List.mem_append.mp hm with hlog | hitem
          · obtain ⟨root, hr, hroot⟩ := List.mem_flatMap.mp hlog
            obtain ⟨resource, -, rfl⟩ := List.mem_map.mp hr
            exact quiet_resourceRoot tree _ resource (List.mem_append_left _ hroot)
          · obtain ⟨item, hi, hsaid⟩ := List.mem_flatMap.mp hitem
            obtain ⟨listed, hl, hi⟩ := List.mem_flatMap.mp hi
            obtain ⟨root, hr, rfl⟩ := List.mem_map.mp hl
            obtain ⟨resource, -, rfl⟩ := List.mem_map.mp hr
            exact quiet_resourceRoot tree _ resource
              (List.mem_append_right _ (List.mem_flatMap.mpr ⟨item, hi, hsaid⟩))

namespace Build

/-- A build is completed with the books as they were after the last finding. -/
theorem exists_start (findings : List Finding) : ∃ start : Build,
    run findings = start.drawEdges.spreadPackages.linkClasses ∧ start.index = (ofFindings findings).index ∧
      start.stats = (ofFindings findings).stats ∧ unresolvedIn start.log = unresolvedIn (ofFindings findings).log ∧
      Drawn start ((ofFindings findings).index.allOf (·.declarations)) start.drawEdges := by
  have hg := (ofFindings_gathered (fun _ _ => true) findings).1
  exact ⟨_, rfl, rfl, rfl, unresolvedIn_say rfl, drawn_drawEdges hg⟩

theorem run_stats (findings : List Finding) :
    (run findings).stats = { (ofFindings findings).stats with
      dependentEdges := ((ofFindings findings).index.allOf (·.declarations)).countP
        fun d => ((ofFindings findings).index.resolve d).isSome
      unresolvedDependencies := ((ofFindings findings).index.allOf (·.declarations)).countP
        fun d => (ofFindings findings).index.isUnresolved d && !d.isOptional
      classLinks := (run findings).index.linkCount } := by
  obtain ⟨start, hrun, hindex, hstats, -, hdrawn⟩ := exists_start findings
  obtain ⟨hedges, hunresolved⟩ := (ofFindings_accounted findings).undrawn
  have hlinks : (run findings).stats.classLinks = (run findings).index.linkCount := by
    have hfiled := (ofFindings_filed findings).of_core_eq (Index.core_spreadAll_drawn (ofFindings findings).index)
    have hlast : (run findings).stats.classLinks = start.drawEdges.index.spreadAll.linkSupertypes.2 := by
      rw [hrun]
      rfl
    rw [hlast, drawEdges_index, hindex, hfiled.linkCount_eq, run_index, Index.linkCount, Index.linkCount,
      Index.completed, Index.classes_inheritAll]
  have hrest : (run findings).stats =
      { start.drawEdges.stats with classLinks := (run findings).stats.classLinks } := by
    rw [hrun]
    rfl
  rw [hrest, hlinks, hdrawn.stats, hindex, hstats, hedges, hunresolved, Nat.zero_add, Nat.zero_add]

theorem length_dependents_run (findings : List Finding) :
    ((run findings).index.allOf (·.dependents)).length = (run findings).stats.dependentEdges := by
  obtain ⟨start, -, hindex, -, -, hdrawn⟩ := exists_start findings
  have hg := (ofFindings_gathered (fun _ _ => true) findings).1
  have hnone : start.index.allOf (·.dependents) = [] := by
    rw [hindex]
    refine List.flatMap_eq_nil_iff.mpr fun record hr => ?_
    obtain ⟨id, hid⟩ := Array.mem_iff_getElem?.mp (Array.mem_toList_iff.mp hr)
    exact (hg.fresh id record hid).2.1
  have hkept : (run findings).index.allOf (·.dependents) = start.drawEdges.index.allOf (·.dependents) := by
    rw [run_index, drawEdges_index, hindex]
    refine Index.allOf_congr fun id => ?_
    rw [Index.map_completed _ (fun _ _ _ _ => rfl),
      Index.map_of_ground_eq (fun _ => rfl) (Index.steps_spreadAll _).ground_eq]
  rw [hkept, hdrawn.dependents, hnone, run_stats, hindex]
  exact Nat.zero_add _

theorem unresolvedIn_run (findings : List Finding) : unresolvedIn (run findings).log =
    (run findings).stats.unresolvedDependencies + unresolvedIn (findings.flatMap Finding.said) := by
  obtain ⟨start, hrun, hindex, -, hlog, hdrawn⟩ := exists_start findings
  have hlast : unresolvedIn (run findings).log = unresolvedIn start.drawEdges.log := by
    rw [hrun]
    exact (unresolvedIn_append _ _).trans (unresolvedIn_say rfl)
  rw [hlast, hdrawn.told, hlog, (ofFindings_accounted findings).told, run_stats, hindex, Nat.add_comm]

/-- Nothing is lost in a build. Every name is a module, an alias or missing; every class file is a class of the index or
has failed; every declaration is stored, and it is an edge or is left because its module is missing, may be absent or
is not asked for. Every edge is known at its target, and every link is counted. Apart from what a repository may say
itself, there is one warning for each dependency that is unresolved, and the repositories given in memory and on disk
say no such thing. -/
theorem run_accounts_balance (findings : List Finding) :
    (run findings).stats.modules + (run findings).stats.aliases + (run findings).stats.missingModules =
      findings.length ∧
    (run findings).stats.classes = (run findings).index.classes.size + (run findings).stats.failedClasses ∧
    (run findings).stats.dependencies = ((run findings).index.allOf (·.declarations)).length ∧
    (run findings).stats.dependencies = (run findings).stats.dependentEdges +
      (run findings).stats.unresolvedDependencies +
      ((run findings).index.allOf (·.declarations)).countP
        (fun d => (run findings).index.isUnresolved d && d.isOptional) +
      ((run findings).index.allOf (·.declarations)).countP (fun d => !d.isModule) ∧
    (run findings).stats.dependentEdges = ((run findings).index.allOf (·.dependents)).length ∧
    (run findings).stats.classLinks = (run findings).index.linkCount ∧
    unresolvedIn (run findings).log =
      (run findings).stats.unresolvedDependencies + unresolvedIn (findings.flatMap Finding.said) ∧
    (∀ repository : MemoryRepository, unresolvedIn (run repository.findings).log =
      (run repository.findings).stats.unresolvedDependencies) ∧
    ∀ (tree : FileTree) (repository : DiskRepository), unresolvedIn (run (repository.findings tree)).log =
      (run (repository.findings tree)).stats.unresolvedDependencies := by
  have haccounted := ofFindings_accounted findings
  have hdeclarations : (run findings).index.allOf (·.declarations) =
      (ofFindings findings).index.allOf (·.declarations) := by
    rw [run_index]
    exact Index.allOf_congr fun id =>
      Index.map_completed_ground _ (fun _ _ _ _ => rfl) (fun _ => rfl) (fun _ _ _ => rfl) id
  have hisUnresolved : (run findings).index.isUnresolved = (ofFindings findings).index.isUnresolved := by
    funext declared
    rw [run_index, Index.isUnresolved, Index.resolve_completed]
    rfl
  have hstored : (run findings).stats.dependencies = ((run findings).index.allOf (·.declarations)).length := by
    rw [run_stats, hdeclarations]
    exact haccounted.declared
  refine ⟨?_, ?_, hstored, ?_, (length_dependents_run findings).symm, ?_, unresolvedIn_run findings, ?_, ?_⟩
  · rw [run_stats]
    exact haccounted.named
  · rw [run_index, Index.size_classes_completed, run_stats]
    exact haccounted.classes
  · rw [hstored, hisUnresolved, hdeclarations, run_stats]
    exact (ofFindings findings).index.length_eq_countP _
  · rw [run_stats]
  · intro repository
    rw [unresolvedIn_run, List.flatMap_eq_nil_iff.mpr fun _ => MemoryRepository.said_eq_nil]
    rfl
  · intro tree repository
    have hquiet : unresolvedIn ((repository.findings tree).flatMap Finding.said) = 0 := by
      refine unresolvedIn_eq_zero fun message hm => ?_
      obtain ⟨finding, hf, hm⟩ := List.mem_flatMap.mp hm
      exact DiskRepository.quiet_of_mem_said hf hm
    rw [unresolvedIn_run, hquiet, Nat.add_zero]

end Build

end ModuleAudit
