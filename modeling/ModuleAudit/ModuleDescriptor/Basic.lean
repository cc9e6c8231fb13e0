import ModuleAudit.Dependency
import ModuleAudit.Markup.Element
import ModuleAudit.ModuleDescriptor.Fault
import ModuleAudit.ModuleName

/-! # Module descriptors

A descriptor defines a module with its main class, resource roots and dependencies, or another name for a
module.
-/

namespace ModuleAudit.ModuleDescriptor
set_option autoImplicit false

open Markup (Element)

/-- A resource root that a descriptor names. -/
inductive Resource where
  /-- A path below the directory of the descriptor. -/
  | path (path : String)
  /-- Coordinates of something that is kept elsewhere. -/
  | artifact (coordinates : String)
  deriving Repr, DecidableEq

inductive Descriptor where
  | module (name : String) (mainClass : Option String) (resources : List Resource)
      (dependencies : List Dependency)
  | link (name target : String)
  deriving Repr

def Descriptor.name : Descriptor → String
  | .module name _ _ _ => name
  | .link name _ => name

/-! ## Attributes -/

def required (element : Element) (key : String) : Except Problem String :=
  match element.value? key with
  | some value => .ok value
  | none => .error (.missingAttribute element.name key)

/-- The value of an attribute that is true or false, and false when it is not there. -/
def flag (element : Element) (key : String) : Except Problem Bool :=
  match (element.value? key).map fun value => (Text.trimmed value).toLower with
  | none => .ok false
  | some "true" => .ok true
  | some "false" => .ok false
  | some value => .error (.badFlag key value)

/-- What a dependency does with services. -/
inductive Services where
  | none
  | imported
  | exported
  deriving Repr, DecidableEq

/-- What the `services` attribute of a dependency says. -/
def servicesOf (element : Element) : Except Problem Services :=
  match (element.value? "services").map Text.trimmed with
  | none | some "none" => .ok .none
  | some "import" => .ok .imported
  | some "export" => .ok .exported
  | some value => .error (.badServices value)

/-- The module name that the attributes for a dotted name and a slot give. -/
def nameFrom (element : Element) (nameKey slotKey : String) : Except Problem String :=
  (required element nameKey).map (ModuleName.compose · (element.value? slotKey))

/-! ## Filters -/

def pathNames (element : Element) : Except Problem (List String) :=
  (element.childrenNamed "path").mapM (required · "name")

/-- One rule of a filter. -/
def rule (parent : String) (element : Element) : Except Problem (PathFilter × Bool) :=
  match element.name with
  | "include" => (required element "path").map fun path => (.ofPattern path, true)
  | "exclude" => (required element "path").map fun path => (.ofPattern path, false)
  | "include-set" => (pathNames element).map fun paths => (.oneOf paths, true)
  | "exclude-set" => (pathNames element).map fun paths => (.oneOf paths, false)
  | name => .error (.unexpectedElement name parent)

/-- The rules of a filter in order; there are none without an element for them. -/
def rulesIn : Option Element → Except Problem (List (PathFilter × Bool))
  | some element => element.children.mapM (rule element.name)
  | none => .ok []

/-- The import filter for rules. Without rules it is one of the default ones; otherwise `META-INF` follows
the rules, as what is to be left out. -/
def importFilter (services : Services) (rules : List (PathFilter × Bool)) : PathFilter :=
  if rules.isEmpty then
    if services = .none then .defaultImport else .defaultImportWithServices
  else
    let forServices := if services = .none then [] else [(PathFilter.services, true)]
    .ofRules (rules ++ forServices ++ [(.belowMetaInf, false), (.metaInf, false)]) true

/-- The export filter for rules. Exported services come before the rules. -/
def exportFilter (services : Services) (exported : Bool) (rules : List (PathFilter × Bool)) : PathFilter :=
  let forServices := if services = .exported then [(PathFilter.services, true)] else []
  .ofRules (forServices ++ rules) exported

/-! ## Dependencies -/

def moduleDependency (element : Element) : Except Problem Dependency := do
  let name ← nameFrom element "name" "slot"
  let exported ← flag element "export"
  let optional ← flag element "optional"
  let services ← servicesOf element
  let importRules ← rulesIn (element.child? "imports")
  let exportRules ← rulesIn (element.child? "exports")
  return ⟨.module name optional, importFilter services importRules, exportFilter services exported exportRules⟩

def systemDependency (element : Element) : Except Problem Dependency := do
  let exported ← flag element "export"
  let paths ← ((element.child? "paths").map pathNames).getD (.ok [])
  let exportRules ← rulesIn (element.child? "exports")
  return { Dependency.onSystem paths with exports := .ofRules exportRules exported }

/-- An entry of the dependencies. -/
def dependencyOf (element : Element) : Except Problem Dependency :=
  match element.name with
  | "module" => moduleDependency element
  | "system" => systemDependency element
  | name => .error (.unexpectedElement name "dependencies")

/-! ## Descriptors -/

/-- An entry of the resources; entries of other kinds say nothing. -/
def resourceOf (element : Element) : Except Problem (Option Resource) :=
  match element.name with
  | "resource-root" => (required element "path").map fun path => some (.path path)
  | "artifact" => (required element "name").map fun name => some (.artifact name)
  | _ => .ok none

/-- The children of the first child with a name. -/
def entriesOf (root : Element) (name : String) : List Element := ((root.child? name).map (·.children)).getD []

def mainClassOf (root : Element) : Except Problem (Option String) :=
  match root.child? "main-class" with
  | some element => (required element "name").map some
  | none => .ok none

/-- The descriptor of a module. A module depends on its own resources before all else. -/
def ofModule (root : Element) : Except Problem Descriptor := do
  let name ← nameFrom root "name" "slot"
  let mainClass ← mainClassOf root
  let resources ← (entriesOf root "resources").mapM resourceOf
  let dependencies ← (entriesOf root "dependencies").mapM dependencyOf
  return .module name mainClass (resources.filterMap id) (.onOwn :: dependencies)

/-- The descriptor of another name for a module. -/
def ofAlias (root : Element) : Except Problem Descriptor := do
  let name ← nameFrom root "name" "slot"
  let target ← nameFrom root "target-name" "target-slot"
  return .link name target

def ofRoot (root : Element) : Except Problem Descriptor :=
  match root.name with
  | "module" => ofModule root
  | "module-alias" => ofAlias root
  | name => .error (.unexpectedRoot name)

/-- The name that the root element of a descriptor defines. -/
def nameOfRoot (root : Element) : Except Problem String :=
  match root.name with
  | "module" | "module-alias" => nameFrom root "name" "slot"
  | name => .error (.unexpectedRoot name)

def rootOf (text : String) : Except Fault Element :=
  match Markup.root? text with
  | none => .error .malformed
  | some none => .error (.invalid .noRoot)
  | some (some root) => .ok root

def parse (text : String) : Except Fault Descriptor := do
  (ofRoot (← rootOf text)).mapError .invalid

/-- The name that the descriptor of a text defines, without a look at the rest of it. -/
def readName (text : String) : Except Fault String := do
  (nameOfRoot (← rootOf text)).mapError .invalid

end ModuleAudit.ModuleDescriptor
