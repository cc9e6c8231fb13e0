import ModuleAudit.Audit.UnusedDependencies
import ModuleAudit.Prune.Edit
import ModuleAudit.Prune.Locate

/-! # Fixing descriptors

Every module with unused dependencies has them removed from its descriptor. A descriptor that cannot be
fixed is passed over, except that a run breaks off at one that cannot be cut between characters. A dry run
changes no file.
-/

namespace ModuleAudit.Prune
set_option autoImplicit false

/-- A descriptor that was fixed. -/
structure Fixed where
  module : String
  path : String
  edit : Edit
  deriving Repr, DecidableEq

/-- What a fix of one module comes to: the tree after it, and what there is to say. -/
structure FixOutcome where
  tree : FileTree
  log : Log := []
  result : Except FixFault Fixed

/-- Writes the text of an edit, unless there is nothing to write. -/
def store (tree : FileTree) (path : String) (edit : Edit) (dryRun : Bool) : Except FixError FileTree :=
  if edit.isChanged && !dryRun then
    match tree.write? path (Utf8.bytesOf edit.text) with
    | some tree => .ok tree
    | none => .error (.unwritable path)
  else .ok tree

/-- The edit of the text of the descriptor at a path, and what there is to say about it. -/
def editText (path text : String) (targets : List String) : Except FixFault (Edit × Log) :=
  match removeDependencies text targets with
  | .error .malformed => .error (.failed (.malformed path))
  | .error .noDependencies => .error (.failed (.noDependencies path))
  | .error .tornCharacter => .error (.torn path)
  | .ok (edit, notes) => .ok (edit, notes.map (Note.message path))

/-- The edit of the descriptor at a path, and what there is to say about it. -/
def editAt (tree : FileTree) (path : String) (targets : List String) : Except FixFault (Edit × Log) :=
  match tree.readText? path with
  | none => .error (.failed (.unreadable path))
  | some text => editText path text targets

/-- Removes dependencies from the descriptor of a module. -/
def fixModule (tree : FileTree) (roots : List String) (dryRun : Bool) (module : String)
    (targets : List String) : FixOutcome :=
  match locate tree roots module with
  | .error error => { tree, result := .error (.failed error) }
  | .ok path =>
    match editAt tree path targets with
    | .error fault => { tree, result := .error fault }
    | .ok (edit, log) =>
      match store tree path edit dryRun with
      | .error error => { tree, log, result := .error (.failed error) }
      | .ok tree => { tree, log, result := .ok ⟨module, path, edit⟩ }

/-- What a whole fix comes to. -/
structure FixSummary where
  fixed : List Fixed := []
  failures : Nat := 0
  dryRun : Bool := false
  deriving Repr, DecidableEq

namespace FixSummary

def removedCount (summary : FixSummary) : Nat :=
  (summary.fixed.map (·.edit.removed.length)).foldl (· + ·) 0

/-- The descriptors from which something was removed. -/
def changed (summary : FixSummary) : List Fixed := summary.fixed.filter (·.edit.isChanged)

/-- The number of descriptors from which something was removed. -/
def changedFiles (summary : FixSummary) : Nat := summary.changed.length

def lines (summary : FixSummary) : List String :=
  let verb := if summary.dryRun then "Would remove" else "Removed"
  let total := s!"{summary.removedCount} dependencies in {summary.changedFiles} descriptors"
  summary.changed.map (fun fixed =>
      let modules := Text.join ", " fixed.edit.removed
      s!"{verb} {modules} from {fixed.path}") ++
    [(if summary.dryRun then "Dry run: " else "Fixed ") ++ total] ++
    (if summary.failures = 0 then [] else [s!"Skipped {summary.failures} descriptors could not be fixed"])

end FixSummary

/-- A fix in progress: the tree, what was said, and what came of it so far. -/
structure Fixing where
  tree : FileTree
  log : Log := []
  summary : FixSummary := {}
  /-- Whether the run broke off. Then nobody sees the summary. -/
  isBroken : Bool := false

/-- A fix after one more module, from what came of that one. -/
def Fixing.take (fixing : Fixing) (outcome : FixOutcome) : Fixing :=
  let summary := fixing.summary
  match outcome.result with
  | .ok fixed =>
    { tree := outcome.tree
      log := fixing.log ++ outcome.log
      summary := { summary with fixed := summary.fixed ++ [fixed] } }
  | .error (.failed error) =>
    { tree := outcome.tree
      log := fixing.log ++ outcome.log ++ [.warning error.message]
      summary := { summary with failures := summary.failures + 1 } }
  | .error (.torn _) => { fixing with tree := outcome.tree, isBroken := true }

/-- Fixes the next module, unless the run broke off. -/
def Fixing.next (roots : List String) (fixing : Fixing) : String × List String → Fixing
  | (module, targets) =>
    if fixing.isBroken then fixing
    else fixing.take (fixModule fixing.tree roots fixing.summary.dryRun module targets)

/-- Removes unused dependencies from the descriptors of their modules. -/
def fix (tree : FileTree) (roots : List String) (dryRun : Bool) (unused : UnusedDependencies) : Fixing :=
  let fixing := unused.byModule.entries.foldl (Fixing.next roots) { tree, summary := { dryRun } }
  let summary := fixing.summary
  if fixing.isBroken then fixing
  else
    { fixing with
      log := fixing.log ++
        [.info s!"Removed {summary.removedCount} dependencies from {summary.changedFiles} descriptors"] }

end ModuleAudit.Prune
