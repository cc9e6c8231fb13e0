import ModuleAudit.Archive.Zip
import ModuleAudit.FileTree.Basic
import ModuleAudit.ModuleDescriptor.Basic
import ModuleAudit.Ordered.Map
import ModuleAudit.Repository.Basic

/-! # Repositories on disk

A repository is a list of root directories. Every file named `module.xml` in them is a descriptor; of those
that define the same name the first counts. Resource roots are directories and archives.
-/

namespace ModuleAudit
set_option autoImplicit false

/-! ## Resource roots -/

namespace Listing

def ofDirectory (tree : FileTree) (path : String) : Listing :=
  if tree.isDirectory path then
    { location := path
      items := (tree.walk path).map fun (names, contents) => .entry (Text.join "/" names) (.ok contents) }
  else { location := path, failure := some (.unreadable path) }

/-- One entry of an archive with its number. Directories are left out. -/
def itemOf? (path : String) (archive : Bytes) : Archive.Entry × Nat → Option ResourceItem
  | (entry, number) =>
    match Archive.rawData? archive entry with
    | none => some (.notice (.warning s!"Skipping entry {number} of {path}"))
    | some raw => if entry.isFile then some (.entry entry.name (Archive.contents entry raw)) else none

def ofArchive (tree : FileTree) (path : String) : Listing :=
  match tree.lookup? path with
  | none => { location := path, failure := some (.unreadable path) }
  | some .directory => { location := path, failure := some (.badArchive path) }
  | some (.file archive) =>
    match Archive.entries? archive with
    | none => { location := path, failure := some (.badArchive path) }
    | some entries =>
      { location := path
        items := .notice (.debug s!"Reading {entries.length} entries from {path}") ::
          entries.zipIdx.filterMap (itemOf? path archive) }

end Listing

/-- The resource root that a descriptor in `directory` names, and what there is to say about it. -/
def resourceRoot (tree : FileTree) (directory : String) : ModuleDescriptor.Resource → Log × ResourceRoot
  | .artifact coordinates => ([], .unlisted coordinates)
  | .path relative =>
    let path := Path.join directory relative
    if tree.isDirectory path then ([], .listed (.ofDirectory tree path))
    else if tree.isFile path then ([], .listed (.ofArchive tree path))
    else ([.debug s!"Resource root {path} does not exist"], .unlisted path)

/-! ## Descriptors -/

/-- Where the descriptors of a repository are, by the names they define. -/
structure DiskRepository where
  roots : List String
  descriptors : OrderedMap String String := {}

namespace DiskRepository

def descriptorFile : String := "module.xml"

/-- The name that the descriptor with these contents defines. -/
def nameIn (path : String) (contents : Bytes) : Except LoadError String :=
  match Utf8.decode? contents with
  | none => .error (.unreadable path)
  | some text => (ModuleDescriptor.readName text).mapError (.ofFault path)

/-- Adds the descriptor at a path, unless its name is known. -/
def addDescriptor (state : Log × OrderedMap String String) (path : String) (contents : Bytes) :
    Log × OrderedMap String String :=
  let (log, descriptors) := state
  match nameIn path contents with
  | .error error => (log ++ [.warning s!"Ignoring descriptor: {error.message}"], descriptors)
  | .ok name =>
    match descriptors.get? name with
    | some existing =>
      (log ++ [.debug s!"Module \"{name}\" at {path} is shadowed by {existing}"], descriptors)
    | none => (log, descriptors.insert name path)

def addRoot (tree : FileTree) (state : Log × OrderedMap String String) (root : String) :
    Log × OrderedMap String String :=
  if tree.isDirectory root then
    (tree.walk root).foldl (fun state (names, contents) =>
      if names.getLast? = some descriptorFile then addDescriptor state (Path.joinAll root names) contents
      else state) state
  else (state.1 ++ [.warning s!"Module root {root} is not a directory"], state.2)

/-- Finds the descriptors below the roots. -/
def scan (tree : FileTree) (roots : List String) : Log × DiskRepository :=
  let (log, descriptors) := roots.foldl (addRoot tree) ([], {})
  (log ++ [.debug s!"Found {descriptors.size} module descriptors"], { roots, descriptors })

/-- What a descriptor at a path stands for, and what there is to say about it. -/
def specOf (tree : FileTree) (path : String) : ModuleDescriptor.Descriptor → Log × ModuleSpec
  | .link name target => ([], .link name target)
  | .module name mainClass resources dependencies =>
    let roots := resources.map (resourceRoot tree (Path.parent path))
    (roots.flatMap Prod.fst, .module name mainClass (roots.map Prod.snd) dependencies)

def find (tree : FileTree) (repository : DiskRepository) (name : String) : Finding :=
  match repository.descriptors.get? name with
  | none => { name, outcome := .ok none }
  | some path =>
    match tree.readText? path with
    | none => { name, outcome := .error (.unreadable path) }
    | some text =>
      match ModuleDescriptor.parse text with
      | .error fault => { name, outcome := .error (.ofFault path fault) }
      | .ok descriptor =>
        let (log, spec) := specOf tree path descriptor
        { name, log, outcome := .ok (some spec) }

/-- What the repository finds under each of its names. -/
def findings (tree : FileTree) (repository : DiskRepository) : List Finding :=
  repository.descriptors.keys.map (find tree repository)

end DiskRepository

end ModuleAudit
