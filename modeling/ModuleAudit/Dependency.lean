import ModuleAudit.Filter.PathFilter

/-! # Declared dependencies

What a module depends on, with the masks for the paths it imports and for those it exports again.
-/

namespace ModuleAudit
set_option autoImplicit false

/-- What a dependency points at. -/
inductive DependencyKind where
  /-- Another module. -/
  | module (name : String) (optional : Bool)
  /-- Paths that the platform provides. -/
  | system (paths : List String)
  /-- The module's own resources. -/
  | own
  deriving Repr, DecidableEq

/-- A dependency as its module declares it. -/
structure Dependency where
  kind : DependencyKind
  imports : PathFilter
  exports : PathFilter
  deriving Repr

namespace Dependency

/-- A dependency on a module with the usual masks: it imports all but `META-INF` and exports nothing. -/
def onModule (name : String) : Dependency := ⟨.module name false, .defaultImport, .rejectAll⟩

def onSystem (paths : List String) : Dependency := ⟨.system paths, .oneOf paths, .rejectAll⟩

/-- The dependency of every module on its own resources. -/
def onOwn : Dependency := ⟨.own, .acceptAll, .acceptAll⟩

/-- Makes a dependency on a module optional or not; others stay as they are. -/
def withOptional (dependency : Dependency) (optional : Bool) : Dependency :=
  match dependency.kind with
  | .module name _ => { dependency with kind := .module name optional }
  | _ => dependency

def moduleName? (dependency : Dependency) : Option String :=
  match dependency.kind with
  | .module name _ => some name
  | _ => none

def isModule (dependency : Dependency) : Bool := dependency.moduleName?.isSome

/-- Whether the module may be absent. -/
def isOptional (dependency : Dependency) : Bool :=
  match dependency.kind with
  | .module _ optional => optional
  | _ => false

/-- Whether a package that arrives through the dependency is passed on by it. -/
def passesOn (dependency : Dependency) (package : String) : Bool :=
  dependency.imports.accepts package && dependency.exports.accepts package

end Dependency

end ModuleAudit
