import ModuleAudit.Ordered.Map
import ModuleAudit.Repository.Basic

/-! # Repositories given in memory

A repository as a list of modules and aliases by name. Names can also be listed without anything behind
them.
-/

namespace ModuleAudit
set_option autoImplicit false

/-- A module given in memory; each of its resource roots is a list of entries. -/
structure MemoryModule where
  mainClass : Option String := none
  roots : List (List (String × Bytes)) := []
  dependencies : List Dependency := []

/-- What stands behind a name. -/
inductive MemoryEntry where
  | module (module : MemoryModule)
  | link (target : String)

structure MemoryRepository where
  entries : OrderedMap String MemoryEntry := {}
  listedOnly : List String := []

namespace MemoryRepository

/-- Adds an entry; one of the same name is replaced in its place. -/
def add (repository : MemoryRepository) (name : String) (entry : MemoryEntry) : MemoryRepository :=
  { repository with entries := repository.entries.insert name entry }

/-- Lists a name without anything behind it. -/
def addListedOnly (repository : MemoryRepository) (name : String) : MemoryRepository :=
  { repository with listedOnly := repository.listedOnly ++ [name] }

def names (repository : MemoryRepository) : List String := repository.entries.keys ++ repository.listedOnly

def listing (name : String) (entries : List (String × Bytes)) (number : Nat) : Listing where
  location := s!"{name}#{number}"
  items := entries.map fun (name, contents) => .entry name (.ok contents)

/-- What a name stands for. A module depends on its own resources before all else. -/
def find? (repository : MemoryRepository) (name : String) : Option ModuleSpec :=
  (repository.entries.get? name).map fun
    | .link target => .link name target
    | .module m =>
      .module name m.mainClass
        (m.roots.zipIdx.map fun (entries, number) => .listed (listing name entries number))
        (.onOwn :: m.dependencies)

/-- What the repository finds under each of its names. -/
def findings (repository : MemoryRepository) : List Finding :=
  repository.names.map fun name => { name, outcome := .ok (repository.find? name) }

end MemoryRepository

end ModuleAudit
