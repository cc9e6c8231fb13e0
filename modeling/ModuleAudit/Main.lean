import ModuleAudit.CommandLine.Run

/-! # The program

Reads the files that a run may look at into memory, runs, writes back the files that the run has changed, and
prints.
-/

namespace ModuleAudit.Program
set_option autoImplicit false

def pathOf (place : List String) : String := "/" ++ Text.join "/" place

/-- The contents of the file at a path, if it can be read. -/
def contentsAt? (path : String) : IO (Option Bytes) := do
  try return some (← IO.FS.readBinFile path).toList catch _ => return none

/-- The names in the directory at a path, if it can be read. -/
def namesAt? (path : String) : IO (Option (List String)) := do
  try
    let children ← (← IO.FS.realPath path).readDir
    return some (children.toList.map (·.fileName))
  catch _ => return none

/-- Reads what is at a place, with all that is below it. What cannot be read is left out. -/
partial def load (tree : FileTree) (place : List String) : IO FileTree := do
  match ← contentsAt? (pathOf place) with
  | some contents => return tree.put place contents
  | none =>
    match ← namesAt? (pathOf place) with
    | some names => names.foldlM (fun tree name => load tree (place ++ [name])) (tree.makeDirectories place)
    | none => return tree

/-- Writes the files of a tree that differ from those before. -/
def save (before after : FileTree) : IO Unit := do
  for (place, node) in after.nodes.entries do
    match node with
    | .file contents =>
      if before.node? place ≠ some node then IO.FS.writeBinFile (pathOf place) ⟨contents.toArray⟩
    | .directory => pure ()

/-- Runs with arguments and gives the exit code. -/
def run (arguments : List String) : IO UInt32 := do
  let workingDirectory := toString (← IO.currentDir)
  let home := Path.components workingDirectory
  let modulePath ← IO.getEnv "JAVA_MODULEPATH"
  let tree ← load (FileTree.ofHome home) home
  let environment : CommandLine.Environment := { tree, workingDirectory, modulePath }
  let others := (CommandLine.pathsOf environment arguments).filter fun path => (tree.lookup? path).isNone
  let tree ← others.foldlM (fun tree path => load tree (tree.namedPlace path)) tree
  let outcome := CommandLine.run { environment with tree } arguments
  save tree outcome.tree
  IO.print outcome.output
  for line in outcome.errors do IO.eprintln line
  return UInt32.ofNat outcome.exitCode

end ModuleAudit.Program

def main (arguments : List String) : IO UInt32 := ModuleAudit.Program.run arguments
