import ModuleAudit.Bytes
import ModuleAudit.FileTree.Path
import ModuleAudit.Ordered.Map
import ModuleAudit.Text.Utf8

/-! # Trees of files

The files and directories that are known. A place in the tree is the row of names that leads to it from the
root of all files. A path leads to a place, from the root or from the working directory, when each of its
names but the last leads to a directory.
-/

namespace ModuleAudit
set_option autoImplicit false

inductive FileNode where
  | file (contents : Bytes)
  | directory
  deriving Repr, DecidableEq

/-- Files and directories by place. -/
structure FileTree where
  nodes : OrderedMap (List String) FileNode := {}
  /-- The place of the working directory. -/
  home : List String := []
  deriving Repr, DecidableEq

namespace FileTree

/-- What is at a place. The root of all files is always there. -/
def node? (tree : FileTree) (place : List String) : Option FileNode :=
  if place.isEmpty then some .directory else tree.nodes.get? place

/-- Follows one component of a path from a place that has to be a directory. -/
def step (tree : FileTree) (place : List String) (component : String) : Option (List String) :=
  match tree.node? place with
  | some .directory =>
    if component = "." then some place
    else if component = ".." then some place.dropLast
    else if (tree.node? (place ++ [component])).isSome then some (place ++ [component])
    else none
  | _ => none

def startOf (tree : FileTree) (path : String) : List String := if Path.isAbsolute path then [] else tree.home

/-- The place that a path leads to. The empty path leads nowhere. -/
def place? (tree : FileTree) (path : String) : Option (List String) :=
  if path = "" then none
  else do
    let place ← (Path.components path).foldlM tree.step (tree.startOf path)
    match tree.node? place with
    | some (.file _) => if Path.namesDirectory path then none else some place
    | _ => some place

def lookup? (tree : FileTree) (path : String) : Option FileNode := (tree.place? path).bind tree.node?

def isDirectory (tree : FileTree) (path : String) : Bool := tree.lookup? path = some .directory

def isFile (tree : FileTree) (path : String) : Bool :=
  match tree.lookup? path with
  | some (.file _) => true
  | _ => false

def read? (tree : FileTree) (path : String) : Option Bytes :=
  match tree.lookup? path with
  | some (.file contents) => some contents
  | _ => none

/-- The text of the file at a path, if it is text. -/
def readText? (tree : FileTree) (path : String) : Option String := (tree.read? path).bind Utf8.decode?

/-! ## Changing a tree -/

/-- Makes the directories that lead to a place, as far as there is nothing. -/
def makeDirectories (tree : FileTree) (place : List String) : FileTree :=
  (List.range place.length).foldl (fun tree n =>
    { tree with nodes := tree.nodes.alter (place.take (n + 1)) fun known => known.getD .directory }) tree

/-- Puts a file at a place, and makes the directories that lead to it. -/
def put (tree : FileTree) (place : List String) (contents : Bytes) : FileTree :=
  let tree := tree.makeDirectories place.dropLast
  { tree with nodes := tree.nodes.insert place (.file contents) }

/-- The place of a row of names below the working directory. -/
def placeBelowHome (tree : FileTree) (path : String) : List String := tree.home ++ Path.components path

/-- The place that a path names, whether there is anything or not. -/
def namedPlace (tree : FileTree) (path : String) : List String :=
  (Path.components path).foldl (fun place component =>
    if component = "." then place
    else if component = ".." then place.dropLast
    else place ++ [component]) (tree.startOf path)

/-- An empty tree with a working directory. -/
def ofHome (home : List String) : FileTree := ({ home } : FileTree).makeDirectories home

/-- The place that a new file at a path would have: what leads to it has to be a directory, and itself no
directory. -/
def newPlace? (tree : FileTree) (path : String) : Option (List String) :=
  match tree.place? path with
  | some place => if tree.node? place = some .directory then none else some place
  | none =>
    match (Path.components path).getLast? with
    | some name =>
      if name = ".." ∨ Path.namesDirectory path then none
      else do
        let place ← (Path.components path).dropLast.foldlM tree.step (tree.startOf path)
        if tree.node? place = some .directory ∧ (tree.node? (place ++ [name])).isNone then
          some (place ++ [name])
        else none
    | none => none

/-- Writes the file at a path, if there can be one. -/
def write? (tree : FileTree) (path : String) (contents : Bytes) : Option FileTree :=
  (tree.newPlace? path).map fun place =>
    { tree with nodes := tree.nodes.insert place (.file contents) }

/-- Takes what is at a place out of the tree, with all that is below it. -/
def remove (tree : FileTree) (place : List String) : FileTree :=
  { tree with
    nodes :=
      { entries := tree.nodes.entries.filter fun entry => !place.isPrefixOf entry.1
        distinct := tree.nodes.distinct.sublist (List.Sublist.map _ List.filter_sublist) } }

/-! ## Walking -/

/-- Whether one row of names comes before another, or is the same: name by name, a row before its longer
ones. -/
def inOrder : List String → List String → Bool
  | [], _ => true
  | _ :: _, [] => false
  | a :: as, b :: bs => a < b || (a == b && inOrder as bs)

/-- Puts a file into a row of files in order. -/
def insertFile (file : List String × Bytes) : List (List String × Bytes) → List (List String × Bytes)
  | [] => [file]
  | next :: rest => if inOrder file.1 next.1 then file :: next :: rest else next :: insertFile file rest

/-- The names below a place that lead to another. -/
def below? : List String → List String → Option (List String)
  | [], names => some names
  | _ :: _, [] => none
  | a :: as, b :: bs => if a = b then below? as bs else none

/-- The files below a place, each with the names that lead to it from there, in order. -/
def filesBelow (tree : FileTree) (place : List String) : List (List String × Bytes) :=
  (tree.nodes.entries.filterMap fun (names, node) =>
    match node, below? place names with
    | .file contents, some rest => some (rest, contents)
    | _, _ => none).foldr insertFile []

/-- The files in the directory at a path and further below, each with the names that lead to it from
there, in order. -/
def walk (tree : FileTree) (path : String) : List (List String × Bytes) :=
  match tree.place? path with
  | some place => tree.filesBelow place
  | none => []

end FileTree

end ModuleAudit
