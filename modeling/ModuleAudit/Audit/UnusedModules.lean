import ModuleAudit.Index.Basic
import ModuleAudit.Log
import ModuleAudit.ModuleName
import ModuleAudit.Pattern.Basic

/-! # Unused modules

A module is unused when it has no main class, nothing depends on it, no compiled code loads its name as
text, and no pattern retains it. A name with a slot is also loaded by its dotted part alone.
-/

namespace ModuleAudit
set_option autoImplicit false

/-- What is to be done about a module. -/
inductive Verdict where
  /-- It can be started, or something depends on it. -/
  | needed
  /-- Compiled code loads its name. -/
  | named
  /-- A pattern retains it. -/
  | retained
  | unused
  deriving Repr, DecidableEq

namespace Index

/-- Whether compiled code loads the name of a module, or the dotted part of it. -/
def loadsName (index : Index) (name : String) : Bool :=
  index.pool.hasLiteral name || index.pool.hasLiteral (ModuleName.parts name).1

def verdict (index : Index) (retain : List Pattern) (record : ModuleRecord) : Verdict :=
  if record.mainClass.isSome || !record.dependents.isEmpty then .needed
  else if index.loadsName record.name then .named
  else if retain.any (·.finds record.name) then .retained
  else .unused

def unusedModules (index : Index) (retain : List Pattern) : List String :=
  (index.modules.toList.filter fun record => index.verdict retain record = .unused).map (·.name)

def verdictMessage? (name : String) : Verdict → Option Message
  | .named => some (.debug s!"Module \"{name}\" is named by a string constant")
  | .retained => some (.debug s!"Module \"{name}\" is retained by configuration")
  | .needed | .unused => none

def unusedModulesLog (index : Index) (retain : List Pattern) : Log :=
  [.info "Looking for unused modules..."] ++
    index.modules.toList.filterMap (fun record => verdictMessage? record.name (index.verdict retain record)) ++
    [.info s!"Found {(index.unusedModules retain).length} unused modules"]

end Index

end ModuleAudit
