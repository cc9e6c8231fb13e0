import ModuleAudit.Proofs.Prune.Shelves
import ModuleAudit.Proofs.Utf8

/-! Runs over the modules that are to be fixed. A fix of one module writes the file that is located for it or nothing,
and only what is in files changes, never what there is. So the same files are located during a run as before it, and a
run changes a file only on behalf of a module that has its descriptor there (`Ran`). -/

namespace ModuleAudit
set_option autoImplicit false

theorem FileTree.SameShape.locate_eq {tree other : FileTree} (h : tree.SameShape other) (roots : List String)
    (module : String) : Prune.locate other roots module = Prune.locate tree roots module := by
  rw [Prune.locate, Prune.locate, h.isFile_eq]

namespace Prune

variable {tree : FileTree} {roots : List String} {module : String} {targets : List String}

/-! ## One module -/

/-- What a fix of a module comes to, whether it is a dry run or not: the fault, or the path and the edit of the
descriptor. -/
def planned (tree : FileTree) (roots : List String) (module : String) (targets : List String) :
    Except FixFault (Fixed × Log) :=
  match locate tree roots module with
  | .error error => .error (.failed error)
  | .ok path => (editAt tree path targets).map fun edited => (⟨module, path, edited.1⟩, edited.2)

/-- The descriptor of a module was found at a place, where there is a file. -/
structure Found (tree : FileTree) (roots : List String) (fixed : Fixed) (place : List String) : Prop where
  located : locate tree roots fixed.module = .ok fixed.path
  placed : tree.place? fixed.path = some place
  file : ∃ old, tree.node? place = some (.file old)

theorem locate_ne_unwritable {error : FixError} (h : locate tree roots module = .error error) (path : String) :
    error ≠ .unwritable path := by
  rw [locate] at h
  split at h
  · rw [← Except.error.inj h]
    exact FixError.noConfusion
  · split at h
    · cases h
    · rw [← Except.error.inj h]
      exact FixError.noConfusion

/-- An edit fails without the file being written. -/
theorem editAt_ne_unwritable {file : String} {fault : FixFault} (h : editAt tree file targets = .error fault)
    (path : String) : fault ≠ .failed (.unwritable path) := by
  rw [editAt] at h
  split at h
  · rw [← Except.error.inj h]
    simp
  · rw [editText] at h
    split at h
    · rw [← Except.error.inj h]
      simp
    · rw [← Except.error.inj h]
      simp
    · rw [← Except.error.inj h]
      simp
    · cases h

/-- The outcome of a fix, from what is planned. Writing never fails, since the file is there. -/
theorem fixModule_cases (tree : FileTree) (roots : List String) (dryRun : Bool) (module : String)
    (targets : List String) :
    (∃ fault, planned tree roots module targets = .error fault ∧ (∀ path, fault ≠ .failed (.unwritable path)) ∧
      fixModule tree roots dryRun module targets = { tree, result := .error fault }) ∨
    ∃ fixed log place, planned tree roots module targets = .ok (fixed, log) ∧ fixed.module = module ∧
      Found tree roots fixed place ∧ fixModule tree roots dryRun module targets =
        { tree := if fixed.edit.isChanged && !dryRun then tree.withFile place (Utf8.bytesOf fixed.edit.text) else tree
          log
          result := .ok fixed } := by
  rw [planned, fixModule]
  cases hlocate : locate tree roots module with
  | error error =>
    refine Or.inl ⟨.failed error, rfl, fun path hpath => ?_, rfl⟩
    exact locate_ne_unwritable hlocate path (FixFault.failed.inj hpath)
  | ok path =>
    dsimp only
    cases hedit : editAt tree path targets with
    | error fault => exact Or.inl ⟨fault, rfl, editAt_ne_unwritable hedit, rfl⟩
    | ok edited =>
      obtain ⟨edit, log⟩ := edited
      have hfile : tree.isFile path = true := List.find?_some (find?_of_locate hlocate)
      obtain ⟨place, hplace, hold, hwrite⟩ := FileTree.write?_of_isFile hfile (Utf8.bytesOf edit.text)
      refine Or.inr ⟨⟨module, path, edit⟩, log, place, rfl, rfl, ⟨hlocate, hplace, hold⟩, ?_⟩
      dsimp only
      rw [store, hwrite]
      cases edit.isChanged && !dryRun with
      | true => rfl
      | false => rfl

/-- What is planned for a module depends on the text of its descriptor only. -/
theorem planned_congr {other : FileTree} (h : tree.SameShape other)
    (hnode : ∀ path place, locate tree roots module = .ok path → tree.place? path = some place →
      other.node? place = tree.node? place) :
    planned other roots module targets = planned tree roots module targets := by
  rw [planned, planned, h.locate_eq]
  cases hlocate : locate tree roots module with
  | error error => rfl
  | ok path =>
    have htext : other.readText? path = tree.readText? path := h.readText?_eq fun place => hnode path place hlocate
    dsimp only
    rw [editAt, editAt, htext]

theorem exists_torn_of_planned {path : String} (h : planned tree roots module targets = .error (.torn path)) :
    ∃ text, locate tree roots module = .ok path ∧ tree.readText? path = some text ∧
      removeDependencies text targets = .error .tornCharacter := by
  rw [planned] at h
  split at h
  · cases h
  · rename_i file hlocate
    cases hedit : editAt tree file targets with
    | ok edited =>
      rw [hedit] at h
      cases h
    | error fault =>
      rw [hedit] at h
      obtain rfl : fault = .torn path := Except.error.inj h
      rw [editAt] at hedit
      split at hedit
      · cases hedit
      · rename_i text htext
        rw [editText] at hedit
        split at hedit
        · cases hedit
        · cases hedit
        · rename_i htorn
          obtain rfl : file = path := FixFault.torn.inj (Except.error.inj hedit)
          exact ⟨text, hlocate, htext, htorn⟩
        · cases hedit

theorem exists_edit_of_planned {fixed : Fixed} {log : Log}
    (h : planned tree roots module targets = .ok (fixed, log)) :
    ∃ text notes, tree.readText? fixed.path = some text ∧
      removeDependencies text targets = .ok (fixed.edit, notes) := by
  rw [planned] at h
  split at h
  · cases h
  · rename_i file hlocate
    cases hedit : editAt tree file targets with
    | error fault =>
      rw [hedit] at h
      cases h
    | ok edited =>
      rw [hedit] at h
      obtain ⟨rfl, -⟩ := Prod.mk.inj (Except.ok.inj h)
      exact editAt_eq_ok hedit

/-! ## The next module -/

/-- What the next module makes of a run, from what is planned for it. -/
inductive Fixing.Step (roots : List String) (module : String) (targets : List String) (fixing : Fixing) : Fixing → Prop
  | rests (hbroken : fixing.isBroken = true) : Step roots module targets fixing fixing
  | fails (hgoes : fixing.isBroken = false) {error : FixError}
      (hplan : planned fixing.tree roots module targets = .error (.failed error)) (log : Log) :
      Step roots module targets fixing
        { tree := fixing.tree
          log
          summary := { fixing.summary with failures := fixing.summary.failures + 1 } }
  | breaks (hgoes : fixing.isBroken = false) {path : String}
      (hplan : planned fixing.tree roots module targets = .error (.torn path)) :
      Step roots module targets fixing { fixing with isBroken := true }
  | fixes (hgoes : fixing.isBroken = false) {fixed : Fixed} {notes : Log} {place : List String}
      (hplan : planned fixing.tree roots module targets = .ok (fixed, notes)) (hmodule : fixed.module = module)
      (hfound : Found fixing.tree roots fixed place) (log : Log) :
      Step roots module targets fixing
        { tree := if fixed.edit.isChanged && !fixing.summary.dryRun then
            fixing.tree.withFile place (Utf8.bytesOf fixed.edit.text) else fixing.tree
          log
          summary := { fixing.summary with fixed := fixing.summary.fixed ++ [fixed] } }

theorem Fixing.step_next (fixing : Fixing) (roots : List String) (module : String) (targets : List String) :
    fixing.Step roots module targets (fixing.next roots (module, targets)) := by
  rw [Fixing.next]
  split
  · rename_i hbroken
    exact .rests hbroken
  · rename_i hgoes
    rw [Bool.not_eq_true] at hgoes
    rcases fixModule_cases fixing.tree roots fixing.summary.dryRun module targets with
      ⟨fault, hplan, -, houtcome⟩ | ⟨fixed, notes, place, hplan, hmodule, hfound, houtcome⟩
    · rw [houtcome]
      cases fault with
      | failed error => exact .fails hgoes hplan _
      | torn path => exact .breaks hgoes hplan
    · rw [houtcome]
      exact .fixes hgoes hplan hmodule hfound _

/-! ## Runs -/

/-- What a run has come to after some modules. -/
structure Ran (tree : FileTree) (roots : List String) (dryRun : Bool) (done : List (String × List String))
    (fixing : Fixing) : Prop where
  mode : fixing.summary.dryRun = dryRun
  shape : tree.SameShape fixing.tree
  dry : dryRun = true → fixing.tree = tree
  modules : (fixing.summary.fixed.map (·.module)).Sublist (done.map Prod.fst)
  counted : fixing.isBroken = false → fixing.summary.fixed.length + fixing.summary.failures = done.length
  located : ∀ fixed ∈ fixing.summary.fixed, locate tree roots fixed.module = .ok fixed.path
  written : ∀ place, fixing.tree.node? place = tree.node? place ∨
    ∃ fixed ∈ fixing.summary.fixed, fixed.edit.isChanged = true ∧ tree.place? fixed.path = some place ∧
      fixing.tree.node? place = some (.file (Utf8.bytesOf fixed.edit.text))

section Ran

variable {dryRun : Bool} {done : List (String × List String)} {fixing later : Fixing}
  (h : Ran tree roots dryRun done fixing)
include h

theorem Ran.modules_append (entry : String × List String) :
    (fixing.summary.fixed.map (·.module)).Sublist ((done ++ [entry]).map Prod.fst) := by
  rw [List.map_append]
  exact h.modules.trans (List.sublist_append_left _ _)

theorem Ran.found {fixed : Fixed} {place : List String} (hfound : Found fixing.tree roots fixed place) :
    locate tree roots fixed.module = .ok fixed.path ∧ tree.place? fixed.path = some place := by
  rw [← h.shape.locate_eq, ← h.shape.place?_eq]
  exact ⟨hfound.located, hfound.placed⟩

/-- After a module was fixed, a place is as it was at the start, or has what one of the edits gave. -/
theorem Ran.written_fixes {fixed : Fixed} {place : List String} (hfound : Found fixing.tree roots fixed place)
    (there : List String) :
    let now := if fixed.edit.isChanged && !fixing.summary.dryRun then
      fixing.tree.withFile place (Utf8.bytesOf fixed.edit.text) else fixing.tree
    now.node? there = tree.node? there ∨
      ∃ other ∈ fixing.summary.fixed ++ [fixed], other.edit.isChanged = true ∧ tree.place? other.path = some there ∧
        now.node? there = some (.file (Utf8.bytesOf other.edit.text)) := by
  have hkept : fixing.tree.node? there = tree.node? there ∨
      ∃ other ∈ fixing.summary.fixed ++ [fixed], other.edit.isChanged = true ∧ tree.place? other.path = some there ∧
        fixing.tree.node? there = some (.file (Utf8.bytesOf other.edit.text)) := by
    refine (h.written there).imp_right ?_
    rintro ⟨other, hother, hrest⟩
    exact ⟨other, List.mem_append_left _ hother, hrest⟩
  dsimp only
  split
  · rename_i hwrites
    obtain ⟨old, hold⟩ := hfound.file
    rw [FileTree.node?_withFile hold]
    split
    · rename_i hthere
      rw [Bool.and_eq_true] at hwrites
      exact Or.inr ⟨fixed, List.mem_append_right _ (List.mem_singleton_self _), hwrites.1,
        hthere ▸ (h.found hfound).2, rfl⟩
    · exact hkept
  · exact hkept

theorem Ran.step (hstep : fixing.Step roots module targets later) :
    Ran tree roots dryRun (done ++ [(module, targets)]) later := by
  cases hstep with
  | rests hbroken =>
    refine ⟨h.mode, h.shape, h.dry, h.modules_append _, fun hgoes => ?_, h.located, h.written⟩
    exact absurd (hgoes.symm.trans hbroken) Bool.false_ne_true
  | fails hgoes =>
    refine ⟨h.mode, h.shape, h.dry, h.modules_append _, fun _ => ?_, h.located, h.written⟩
    rw [List.length_append, ← h.counted hgoes]
    rfl
  | breaks =>
    exact ⟨h.mode, h.shape, h.dry, h.modules_append _, fun hgoes => absurd hgoes.symm Bool.false_ne_true, h.located,
      h.written⟩
  | @fixes hgoes fixed notes place hplan hmodule hfound log =>
    obtain ⟨hlocate, hplace⟩ := h.found hfound
    refine ⟨h.mode, ?_, fun hdry => ?_, ?_, fun _ => ?_, fun other hother => ?_, h.written_fixes hfound⟩
    · dsimp only
      split
      · obtain ⟨old, hold⟩ := hfound.file
        exact h.shape.trans (FileTree.sameShape_withFile hold _)
      · exact h.shape
    · dsimp only
      rw [h.mode, hdry, Bool.not_true, Bool.and_false]
      exact h.dry hdry
    · rw [List.map_append, List.map_append]
      refine h.modules.append ?_
      rw [List.map_singleton, List.map_singleton, hmodule]
    · rw [List.length_append, List.length_append, ← h.counted hgoes]
      simp only [List.length_singleton]
      omega
    · rcases List.mem_append.mp hother with hother | hother
      · exact h.located other hother
      · rw [List.mem_singleton.mp hother]
        exact hlocate

end Ran

theorem ran (tree : FileTree) (roots : List String) (dryRun : Bool) (entries : List (String × List String)) :
    Ran tree roots dryRun entries (entries.foldl (Fixing.next roots) { tree, summary := { dryRun } }) := by
  refine foldl_passed ?_ fun done entry rest fixing _ h => h.step (fixing.step_next roots entry.1 entry.2)
  exact ⟨rfl, .refl tree, fun _ => rfl, List.Sublist.refl _, fun _ => rfl,
    fun _ hfixed => absurd hfixed List.not_mem_nil, fun _ => Or.inl rfl⟩

/-! ## Runs that break off -/

/-- No descriptor that is located for one of the modules starts with a mark. -/
def Unmarked (tree : FileTree) (roots modules : List String) : Prop :=
  ∀ module ∈ modules, ∀ path ∈ (locate tree roots module).toOption, ∀ text ∈ tree.readText? path,
    text.toList.head? ≠ some Markup.byteOrderMark

instance (tree : FileTree) (roots modules : List String) : Decidable (Unmarked tree roots modules) :=
  inferInstanceAs (Decidable (∀ module ∈ modules, ∀ path ∈ (locate tree roots module).toOption,
    ∀ text ∈ tree.readText? path, text.toList.head? ≠ some Markup.byteOrderMark))

/-- A text that is read after a file was written was there before, or is what was written. -/
theorem readText?_withFile {place : List String} {old : Bytes} (hold : tree.node? place = some (.file old))
    (written : String) {path text : String}
    (h : (tree.withFile place (Utf8.bytesOf written)).readText? path = some text) :
    tree.readText? path = some text ∨ text = written := by
  have hshape := FileTree.sameShape_withFile hold (Utf8.bytesOf written)
  by_cases hthere : tree.place? path = some place
  · refine .inr (Option.some.inj (h.symm.trans ?_))
    rw [FileTree.readText?, FileTree.read?, FileTree.lookup?, hshape.place?_eq, hthere, Option.bind_some,
      FileTree.node?_withFile hold, if_pos rfl]
    exact Utf8.decode?_bytesOf written
  · refine .inl (Eq.trans ?_ h)
    refine (hshape.readText?_eq fun there hplace => ?_).symm
    rw [FileTree.node?_withFile hold, if_neg]
    rintro rfl
    exact hthere hplace

section Unmarked

variable {modules : List String} {fixing later : Fixing}

theorem Unmarked.head?_ne (h : Unmarked tree roots modules) (hmodule : module ∈ modules) {path text : String}
    (hlocate : locate tree roots module = .ok path) (htext : tree.readText? path = some text) :
    text.toList.head? ≠ some Markup.byteOrderMark :=
  h module hmodule path (by rw [hlocate]; rfl) text htext

theorem Unmarked.withFile (h : Unmarked tree roots modules) {place : List String} {old : Bytes}
    (hold : tree.node? place = some (.file old)) {written : String}
    (hwritten : written.toList.head? ≠ some Markup.byteOrderMark) :
    Unmarked (tree.withFile place (Utf8.bytesOf written)) roots modules := by
  intro module hmodule path hpath text htext
  rw [(FileTree.sameShape_withFile hold _).locate_eq] at hpath
  rcases readText?_withFile hold written htext with hbefore | rfl
  · exact h module hmodule path hpath text hbefore
  · exact hwritten

theorem Unmarked.step (h : Unmarked fixing.tree roots modules) (hgoes : fixing.isBroken = false)
    (hmodule : module ∈ modules) (hstep : fixing.Step roots module targets later) :
    later.isBroken = false ∧ Unmarked later.tree roots modules := by
  cases hstep with
  | rests => exact ⟨hgoes, h⟩
  | fails => exact ⟨rfl, h⟩
  | breaks _ hplan =>
    obtain ⟨text, hlocate, htext, htorn⟩ := exists_torn_of_planned hplan
    exact absurd htorn (removeDependencies_ne_torn (h.head?_ne hmodule hlocate htext) targets)
  | fixes _ hplan hname hfound =>
    refine ⟨rfl, ?_⟩
    dsimp only
    split
    · obtain ⟨text, notes, htext, hedit⟩ := exists_edit_of_planned hplan
      obtain ⟨old, hold⟩ := hfound.file
      exact h.withFile hold (head?_edit (h.head?_ne hmodule (hname ▸ hfound.located) htext) hedit)
    · exact h

theorem Unmarked.foldl_next (h : Unmarked fixing.tree roots modules) (hgoes : fixing.isBroken = false)
    {entries : List (String × List String)} (hentries : ∀ entry ∈ entries, entry.1 ∈ modules) :
    (entries.foldl (Fixing.next roots) fixing).isBroken = false := by
  induction entries generalizing fixing with
  | nil => exact hgoes
  | cons entry rest ih =>
    rw [List.forall_mem_cons] at hentries
    obtain ⟨hstill, hnext⟩ := h.step hgoes hentries.1 (fixing.step_next roots entry.1 entry.2)
    exact ih hnext hstill hentries.2

end Unmarked

end Prune

end ModuleAudit
