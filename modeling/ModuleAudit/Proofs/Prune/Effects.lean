import ModuleAudit.Proofs.Prune.Runs

/-! What a whole fix does to the files. If no two modules share a descriptor, each of them is fixed as if it were the
only one, and a dry run foretells the run (`Foretold`). In any case the files that change are descriptors of the
modules, and a run breaks off only at a descriptor that starts with a mark (`fix_is_confined`). -/

namespace ModuleAudit
set_option autoImplicit false

namespace Prune

variable {tree : FileTree} {roots : List String} {module : String} {targets : List String}

/-! ## Runs over modules that do not share a descriptor -/

/-- The place of the descriptor that is located for a module. -/
def locatedPlace? (tree : FileTree) (roots : List String) (module : String) : Option (List String) :=
  (locate tree roots module).toOption.bind tree.place?

/-- No two of the modules have their descriptors in the same file. -/
def Apart (tree : FileTree) (roots modules : List String) : Prop :=
  ∀ a ∈ modules, ∀ b ∈ modules, ∀ place ∈ locatedPlace? tree roots a, place ∈ locatedPlace? tree roots b → a = b

instance (tree : FileTree) (roots modules : List String) : Decidable (Apart tree roots modules) :=
  inferInstanceAs (Decidable (∀ a ∈ modules, ∀ b ∈ modules, ∀ place ∈ locatedPlace? tree roots a,
    place ∈ locatedPlace? tree roots b → a = b))

theorem mem_locatedPlace? {path : String} {place : List String} (hlocate : locate tree roots module = .ok path)
    (hplace : tree.place? path = some place) : place ∈ locatedPlace? tree roots module := by
  rw [locatedPlace?, hlocate]
  exact hplace

/-- What is to be told of a run: the descriptors that were fixed, the number of failures, and whether the run broke
off. -/
abbrev Tale := List Fixed × Nat × Bool

def Fixing.tale (fixing : Fixing) : Tale := (fixing.summary.fixed, fixing.summary.failures, fixing.isBroken)

/-- A tale with one more module and what was planned for it. -/
def Tale.next : Tale → Except FixFault (Fixed × Log) → Tale
  | (fixed, failures, true), _ => (fixed, failures, true)
  | (fixed, failures, false), .ok (last, _) => (fixed ++ [last], failures, false)
  | (fixed, failures, false), .error (.failed _) => (fixed, failures + 1, false)
  | (fixed, failures, false), .error (.torn _) => (fixed, failures, true)

/-- A run comes to what is planned for each module by itself, and what was changed is in the files. -/
structure Foretold (tree : FileTree) (roots : List String) (dryRun : Bool) (done : List (String × List String))
    (fixing : Fixing) : Prop extends Ran tree roots dryRun done fixing where
  tells : fixing.tale = (done.map fun entry => planned tree roots entry.1 entry.2).foldl Tale.next ([], 0, false)
  stored : dryRun = false → ∀ fixed ∈ fixing.summary.fixed, fixed.edit.isChanged = true →
    ∀ place, tree.place? fixed.path = some place →
      fixing.tree.node? place = some (.file (Utf8.bytesOf fixed.edit.text))

variable {dryRun : Bool} {done : List (String × List String)} {fixing : Fixing}

/-- The descriptor of a module that is still to be fixed is not one of those that were written. -/
theorem Ran.ne_place (h : Ran tree roots dryRun done fixing) {modules : List String}
    (hapart : Apart tree roots modules) (hdone : ∀ other ∈ done.map Prod.fst, other ∈ modules)
    (hmodule : module ∈ modules) (hnew : module ∉ done.map Prod.fst) {path : String} {place : List String}
    (hlocate : locate tree roots module = .ok path) (hplace : tree.place? path = some place) {fixed : Fixed}
    (hfixed : fixed ∈ fixing.summary.fixed) : tree.place? fixed.path ≠ some place := by
  intro hsame
  have hold : fixed.module ∈ done.map Prod.fst := h.modules.subset (List.mem_map_of_mem hfixed)
  have hmeets := hapart module hmodule fixed.module (hdone _ hold) place (mem_locatedPlace? hlocate hplace)
    (mem_locatedPlace? (h.located fixed hfixed) hsame)
  exact hnew (hmeets ▸ hold)

theorem Fixing.Step.tale_eq {later : Fixing} (h : fixing.Step roots module targets later) :
    later.tale = fixing.tale.next (planned fixing.tree roots module targets) := by
  rw [Fixing.tale, Fixing.tale]
  cases h with
  | rests hbroken =>
    rw [hbroken]
    rfl
  | fails hgoes hplan =>
    rw [hgoes, hplan]
    rfl
  | breaks hgoes hplan =>
    rw [hgoes, hplan]
    rfl
  | fixes hgoes hplan =>
    rw [hgoes, hplan]
    rfl

theorem Foretold.step (h : Foretold tree roots dryRun done fixing) {modules : List String}
    (hapart : Apart tree roots modules) (hdone : ∀ other ∈ done.map Prod.fst, other ∈ modules)
    (hmodule : module ∈ modules) (hnew : module ∉ done.map Prod.fst) {later : Fixing}
    (hstep : fixing.Step roots module targets later) :
    Foretold tree roots dryRun (done ++ [(module, targets)]) later := by
  have hplanned : planned fixing.tree roots module targets = planned tree roots module targets := by
    refine planned_congr h.shape fun path place hlocate hplace => ?_
    refine (h.written place).resolve_right ?_
    rintro ⟨fixed, hfixed, -, hsame, -⟩
    exact h.ne_place hapart hdone hmodule hnew hlocate hplace hfixed hsame
  refine ⟨h.toRan.step hstep, ?_, ?_⟩
  · rw [hstep.tale_eq, h.tells, hplanned, List.map_append, List.foldl_append]
    rfl
  · cases hstep with
    | rests => exact h.stored
    | fails => exact h.stored
    | breaks => exact h.stored
    | @fixes _ fixed notes place _ hname hfound log =>
      obtain ⟨hlocate, hplace⟩ := h.found hfound
      obtain ⟨old, hold⟩ := hfound.file
      intro hreal other hother hchanged there hthere
      dsimp only
      rcases List.mem_append.mp hother with hearlier | hown
      · -- an earlier module: its file is not the one that is written now
        have hkept := h.stored hreal other hearlier hchanged there hthere
        have hapartHere : there ≠ place := by
          rintro rfl
          exact h.ne_place hapart hdone hmodule hnew (hname ▸ hlocate) hplace hearlier hthere
        split
        · rw [FileTree.node?_withFile hold, if_neg hapartHere, hkept]
        · exact hkept
      · obtain rfl := List.mem_singleton.mp hown
        obtain rfl := Option.some.inj (hthere.symm.trans hplace)
        rw [if_pos (by rw [hchanged, h.mode, hreal]; rfl), FileTree.node?_withFile hold, if_pos rfl]

theorem foretold {entries : List (String × List String)} (hdistinct : (entries.map Prod.fst).Nodup)
    (hapart : Apart tree roots (entries.map Prod.fst)) (dryRun : Bool) :
    Foretold tree roots dryRun entries (entries.foldl (Fixing.next roots) { tree, summary := { dryRun } }) := by
  refine foldl_passed (P := Foretold tree roots dryRun) ?_ fun done entry rest fixing hsplit h => ?_
  · exact ⟨ran tree roots dryRun [], rfl, fun _ _ hfixed => absurd hfixed List.not_mem_nil⟩
  · rw [hsplit, List.map_append, List.map_cons] at hdistinct hapart
    refine h.step hapart (fun other hother => List.mem_append_left _ hother)
      (List.mem_append_right _ List.mem_cons_self) ?_ (fixing.step_next roots entry.1 entry.2)
    exact fun hold => (List.nodup_append.mp hdistinct).2.2 _ hold _ List.mem_cons_self rfl

end Prune

/-! ## The modules of the findings -/

namespace UnusedDependencies

/-- The modules with unused dependencies, each once, in the order of the findings. -/
def modules (unused : UnusedDependencies) : List String := (unused.findings.map (·.module)).eraseDups

theorem keys_byModule (unused : UnusedDependencies) : unused.byModule.keys = unused.modules := by
  obtain ⟨findings, exports⟩ := unused
  rw [byModule, modules]
  dsimp only
  induction findings using List.reverseRecOn with
  | nil => rfl
  | append_singleton findings finding ih =>
    rw [List.foldl_append, List.foldl_cons, List.foldl_nil, OrderedMap.keys_alter, ih, List.map_append]
    by_cases hknown : finding.module ∈ findings.map (·.module)
    · rw [if_pos (List.mem_eraseDups.mpr hknown), eraseDups_append_of_subset (by simpa using hknown)]
    · have hnew : [finding.module].removeAll (findings.map (·.module)) = [finding.module] :=
        List.filter_cons_of_pos (by simpa using hknown)
      rw [if_neg (mt List.mem_eraseDups.mp hknown), List.eraseDups_append, List.map_singleton, hnew]
      rfl

end UnusedDependencies

namespace Prune

section Fix

variable {tree : FileTree} {roots : List String}

/-- A fix is the run over the modules, but for a last message. -/
theorem fix_eq (tree : FileTree) (roots : List String) (dryRun : Bool) (unused : UnusedDependencies) :
    ∃ log, fix tree roots dryRun unused =
      { unused.byModule.entries.foldl (Fixing.next roots) { tree, summary := { dryRun } } with log } := by
  rw [fix]
  split
  · exact ⟨_, rfl⟩
  · exact ⟨_, rfl⟩

theorem fix_ran (tree : FileTree) (roots : List String) (dryRun : Bool) (unused : UnusedDependencies) :
    Ran tree roots dryRun unused.byModule.entries (fix tree roots dryRun unused) := by
  have h := ran tree roots dryRun unused.byModule.entries
  obtain ⟨log, hfix⟩ := fix_eq tree roots dryRun unused
  rw [hfix]
  exact ⟨h.mode, h.shape, h.dry, h.modules, h.counted, h.located, h.written⟩

theorem fix_foretold {unused : UnusedDependencies} (hapart : Apart tree roots unused.modules) (dryRun : Bool) :
    Foretold tree roots dryRun unused.byModule.entries (fix tree roots dryRun unused) := by
  rw [← unused.keys_byModule] at hapart
  have h := foretold unused.byModule.distinct hapart dryRun
  have hran := fix_ran tree roots dryRun unused
  obtain ⟨log, hfix⟩ := fix_eq tree roots dryRun unused
  rw [hfix] at hran ⊢
  exact ⟨hran, h.tells, h.stored⟩

theorem isChanged_iff {edit : Edit} : edit.isChanged = true ↔ edit.removed ≠ [] := by
  rw [Edit.isChanged, Bool.not_eq_true', List.isEmpty_eq_false_iff]

/-- A fix that fails, or that removes nothing, leaves all files as they are. -/
theorem fixModule_tree_eq (tree : FileTree) (roots : List String) (dryRun : Bool) (module : String)
    (targets : List String) :
    (∀ fault, (fixModule tree roots dryRun module targets).result = .error fault →
      (fixModule tree roots dryRun module targets).tree = tree ∧ ∀ path, fault ≠ .failed (.unwritable path)) ∧
    ∀ fixed, (fixModule tree roots dryRun module targets).result = .ok fixed → fixed.edit.removed = [] →
      (fixModule tree roots dryRun module targets).tree = tree := by
  rcases fixModule_cases tree roots dryRun module targets with
    ⟨fault, -, hcause, houtcome⟩ | ⟨fixed, log, place, -, -, -, houtcome⟩
  · rw [houtcome]
    refine ⟨?_, fun _ _ _ => rfl⟩
    rintro fault' hfault
    obtain rfl := Except.error.inj hfault
    exact ⟨rfl, hcause⟩
  · rw [houtcome]
    refine ⟨fun fault hfault => (by cases hfault), ?_⟩
    rintro fixed' hfixed hnone
    obtain rfl := Except.ok.inj hfixed
    have hkept : fixed.edit.isChanged = false := by
      rw [Edit.isChanged, hnone]
      rfl
    rw [hkept]
    rfl

/-- What is planned does not depend on whether the run is dry. -/
theorem Foretold.agree {done : List (String × List String)} {dry real : Fixing} (h : Foretold tree roots true done dry)
    (h' : Foretold tree roots false done real) : dry.summary.fixed = real.summary.fixed ∧
      dry.summary.failures = real.summary.failures ∧ dry.isBroken = real.isBroken := by
  obtain ⟨hfixed, hrest⟩ := Prod.mk.inj (h.tells.trans h'.tells.symm)
  exact ⟨hfixed, Prod.mk.inj hrest⟩

theorem Foretold.readText?_eq {done : List (String × List String)} {fixing : Fixing}
    (h : Foretold tree roots false done fixing) {fixed : Fixed} (hfixed : fixed ∈ fixing.summary.fixed)
    (hchanged : fixed.edit.isChanged = true) : fixing.tree.readText? fixed.path = some fixed.edit.text := by
  have hfile : tree.isFile fixed.path = true := List.find?_some (find?_of_locate (h.located fixed hfixed))
  obtain ⟨place, hplace, -⟩ := FileTree.isFile_iff.mp hfile
  rw [FileTree.readText?, FileTree.read?, FileTree.lookup?, h.shape.place?_eq, hplace, Option.bind_some,
    h.stored rfl fixed hfixed hchanged place hplace]
  exact Utf8.decode?_bytesOf fixed.edit.text

end Fix

/-- The effect of a fix on the files, for any roots and findings. -/
theorem fix_is_confined (tree : FileTree) (roots : List String) (unused : UnusedDependencies) :
    -- a file that a run changes is the descriptor that is located for a module from which something is removed
    (∀ dryRun place, (fix tree roots dryRun unused).tree.node? place ≠ tree.node? place →
      ∃ fixed ∈ (fix tree roots dryRun unused).summary.fixed, fixed.module ∈ unused.modules ∧
        fixed.edit.removed ≠ [] ∧ locate tree roots fixed.module = .ok fixed.path ∧
        tree.place? fixed.path = some place) ∧
    -- a module that cannot be fixed, or from which nothing is removed, leaves all files as they are then
    (∀ (now : FileTree) (dryRun : Bool) (module : String) (targets : List String),
      (∀ fault, (fixModule now roots dryRun module targets).result = .error fault →
        (fixModule now roots dryRun module targets).tree = now ∧ ∀ path, fault ≠ .failed (.unwritable path)) ∧
      ∀ fixed, (fixModule now roots dryRun module targets).result = .ok fixed → fixed.edit.removed = [] →
        (fixModule now roots dryRun module targets).tree = now) ∧
    -- each module of the findings is fixed or counted as a failure, unless the run breaks off
    (∀ dryRun, ((fix tree roots dryRun unused).summary.fixed.map (·.module)).Sublist unused.modules ∧
      ((fix tree roots dryRun unused).isBroken = false →
        (fix tree roots dryRun unused).summary.fixed.length + (fix tree roots dryRun unused).summary.failures =
          unused.modules.length)) ∧
    (fix tree roots true unused).tree = tree ∧
    -- without shared descriptors a dry run foretells the run, and what it foretells is then in the files
    (Apart tree roots unused.modules →
      (fix tree roots true unused).summary.fixed = (fix tree roots false unused).summary.fixed ∧
      (fix tree roots true unused).summary.failures = (fix tree roots false unused).summary.failures ∧
      (fix tree roots true unused).isBroken = (fix tree roots false unused).isBroken ∧
      ∀ fixed ∈ (fix tree roots true unused).summary.fixed, fixed.edit.removed ≠ [] →
        (fix tree roots false unused).tree.readText? fixed.path = some fixed.edit.text) ∧
    -- a run breaks off only if the descriptor of one of the modules starts with a mark
    (Unmarked tree roots unused.modules → ∀ dryRun, (fix tree roots dryRun unused).isBroken = false) := by
  have hmodules : unused.byModule.entries.map Prod.fst = unused.modules := unused.keys_byModule
  refine ⟨fun dryRun place hplace => ?_, fun now => fixModule_tree_eq now roots, fun dryRun => ?_,
    (fix_ran tree roots true unused).dry rfl, fun hapart => ?_, fun hunmarked dryRun => ?_⟩
  · have h := fix_ran tree roots dryRun unused
    obtain ⟨fixed, hfixed, hchanged, hthere, -⟩ := (h.written place).resolve_left hplace
    refine ⟨fixed, hfixed, ?_, isChanged_iff.mp hchanged, h.located fixed hfixed, hthere⟩
    rw [← hmodules]
    exact h.modules.subset (List.mem_map_of_mem hfixed)
  · have h := fix_ran tree roots dryRun unused
    refine ⟨hmodules ▸ h.modules, fun hgoes => ?_⟩
    rw [h.counted hgoes, ← hmodules, List.length_map]
  · have hdry := fix_foretold hapart true
    have hreal := fix_foretold hapart false
    obtain ⟨hfixed, hfailures, hbroken⟩ := hdry.agree hreal
    refine ⟨hfixed, hfailures, hbroken, fun fixed hmem hremoved => ?_⟩
    rw [hfixed] at hmem
    exact hreal.readText?_eq hmem (isChanged_iff.mpr hremoved)
  · obtain ⟨log, hfix⟩ := fix_eq tree roots dryRun unused
    rw [hfix]
    have hstart : Unmarked ({ tree, summary := { dryRun } } : Fixing).tree roots unused.modules := hunmarked
    refine hstart.foldl_next rfl fun entry hentry => ?_
    rw [← hmodules]
    exact List.mem_map_of_mem hentry

/-- A descriptor with an entry that goes, one with an entry that stays and with carriage returns, and one without
dependencies. -/
def depot : FileTree where
  nodes := .ofList
    [(["r"], .directory), (["r", "a"], .directory), (["r", "k"], .directory), (["r", "n"], .directory),
      (["r", "a", "module.xml"],
        .file (Utf8.bytesOf "<module name=\"a\"><dependencies><module name=\"t\"/></dependencies></module>")),
      (["r", "k", "module.xml"], .file (Utf8.bytesOf
        "<module name=\"k\">\r\n<dependencies><!--keep--><module name=\"t\"/></dependencies></module>")),
      (["r", "n", "module.xml"], .file (Utf8.bytesOf "<module name=\"n\"/>"))]

/-- Findings for the modules of `depot`, for one that is not there and for one that cannot be there. -/
def depotFindings : UnusedDependencies where
  findings := [⟨"a", "t"⟩, ⟨"k", "t"⟩, ⟨"n", "t"⟩, ⟨"gone", "t"⟩, ⟨"../a", "t"⟩, ⟨"a", "u"⟩]

theorem fix_is_confined_depot :
    Apart depot ["r"] depotFindings.modules ∧ Unmarked depot ["r"] depotFindings.modules ∧
    (fix depot ["r"] false depotFindings).isBroken = false ∧
    (fix depot ["r"] false depotFindings).summary.fixed =
      [⟨"a", "r/a/module.xml", "<module name=\"a\"><dependencies></dependencies></module>", ["t"], []⟩,
        ⟨"k", "r/k/module.xml",
          "<module name=\"k\">\n<dependencies><!--keep--><module name=\"t\"/></dependencies></module>", [], ["t"]⟩] ∧
    (fix depot ["r"] false depotFindings).summary.failures = 3 ∧
    (fix depot ["r"] false depotFindings).tree.readText? "r/a/module.xml" =
      some "<module name=\"a\"><dependencies></dependencies></module>" ∧
    (fix depot ["r"] false depotFindings).tree.node? ["r", "k", "module.xml"] =
      depot.node? ["r", "k", "module.xml"] := by
  have hapart : Apart depot ["r"] depotFindings.modules := by decide +kernel
  have hunmarked : Unmarked depot ["r"] depotFindings.modules := by decide +kernel
  have hlength : depotFindings.modules.length = 5 := by decide +kernel
  have hdry : (fix depot ["r"] true depotFindings).summary.fixed =
      [⟨"a", "r/a/module.xml", "<module name=\"a\"><dependencies></dependencies></module>", ["t"], []⟩,
        ⟨"k", "r/k/module.xml",
          "<module name=\"k\">\n<dependencies><!--keep--><module name=\"t\"/></dependencies></module>", [],
          ["t"]⟩] := by
    decide +kernel
  obtain ⟨hchanges, -, hcounted, -, hforetold, hbroken⟩ := fix_is_confined depot ["r"] depotFindings
  obtain ⟨hsame, -, -, htexts⟩ := hforetold hapart
  have hgoes := hbroken hunmarked false
  have hreal := hsame.symm.trans hdry
  refine ⟨hapart, hunmarked, hgoes, hreal, ?_, ?_, ?_⟩
  · have hcount := (hcounted false).2 hgoes
    rw [hreal, hlength] at hcount
    exact Nat.add_left_cancel hcount
  · rw [hdry, List.forall_mem_cons] at htexts
    exact htexts.1 (List.cons_ne_nil _ _)
  · by_contra hchanged
    obtain ⟨fixed, hfixed, -, hremoved, -, hplace⟩ := hchanges false _ hchanged
    rw [hreal] at hfixed
    rcases List.mem_cons.mp hfixed with rfl | hfixed
    · revert hplace
      decide +kernel
    · rw [List.mem_singleton.mp hfixed] at hremoved
      exact hremoved rfl

/-- A descriptor that starts with a mark and has a wide character in front of an entry, and one that has neither. -/
def markedDepot : FileTree where
  nodes := .ofList
    [(["r"], .directory), (["r", "m"], .directory), (["r", "z"], .directory),
      (["r", "m", "module.xml"], .file (Utf8.bytesOf
        "\uFEFF<module name='m'><dependencies>éab<module name='a'/></dependencies></module>")),
      (["r", "z", "module.xml"],
        .file (Utf8.bytesOf "<module name='z'><dependencies><module name='a'/></dependencies></module>"))]

/-- Where a descriptor starts with a mark, the text to be cut out may begin or end inside a character. Then the run
breaks off, and the modules that are still to come are neither fixed nor counted. -/
theorem run_breaks_off_at_mark :
    (locate markedDepot ["r"] "m").toOption = some "r/m/module.xml" ∧
    (locate markedDepot ["r"] "z").toOption = some "r/z/module.xml" ∧
    ∀ dryRun, (fix markedDepot ["r"] dryRun { findings := [⟨"m", "a"⟩, ⟨"z", "a"⟩] }).isBroken = true ∧
      (fix markedDepot ["r"] dryRun { findings := [⟨"m", "a"⟩, ⟨"z", "a"⟩] }).summary = { dryRun } := by
  decide +kernel

end Prune

end ModuleAudit
