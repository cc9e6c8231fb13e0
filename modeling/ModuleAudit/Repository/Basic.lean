import ModuleAudit.Bytes
import ModuleAudit.Dependency
import ModuleAudit.Log
import ModuleAudit.Repository.LoadError

/-! # What a repository offers

A repository answers for each of its module names with a module, an alias or an error. A module's resource
roots are listed: their entries come with their contents, and with what there was to say on the way.
-/

namespace ModuleAudit
set_option autoImplicit false

/-- One step through a resource root. -/
inductive ResourceItem where
  /-- An entry with its contents, or with the reason why they could not be read. -/
  | entry (name : String) (contents : Except String Bytes)
  | notice (message : Message)

/-- A walk through a resource root, which may end early. -/
structure Listing where
  location : String
  items : List ResourceItem := []
  failure : Option LoadError := none

/-- A resource root of a module. -/
inductive ResourceRoot where
  | listed (listing : Listing)
  /-- A root whose entries cannot be listed. -/
  | unlisted (location : String)

/-- What a module name stands for. -/
inductive ModuleSpec where
  | module (name : String) (mainClass : Option String) (roots : List ResourceRoot)
      (dependencies : List Dependency)
  /-- Another name of a module. -/
  | link (name target : String)

structure Finding where
  name : String
  log : Log := []
  outcome : Except LoadError (Option ModuleSpec)

end ModuleAudit
