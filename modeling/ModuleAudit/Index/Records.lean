import ModuleAudit.Dependency
import ModuleAudit.Ordered.Map
import ModuleAudit.Ordered.Set

/-! # Records of classes and modules

What an index knows of one class and of one module. Records point at each other by their numbers in the
index, and names are slashed.
-/

namespace ModuleAudit
set_option autoImplicit false

/-- The number of a module in its index. -/
abbrev ModuleId := Nat

/-- The number of a class in its index. -/
abbrev ClassId := Nat

/-- How a class mentions a type. -/
inductive RefKind where
  /-- As a part of what it shows to others, which its subclasses inherit. -/
  | member
  /-- As a part of its inner workings. -/
  | other
  deriving Repr, DecidableEq

structure ClassRecord where
  name : Option String := none
  module : ModuleId
  superName : Option String := none
  interfaceNames : List String := []
  superLink : Option ClassId := none
  interfaceLinks : OrderedSet ClassId := {}
  memberRefs : Counts := {}
  otherRefs : Counts := {}
  deriving Repr, DecidableEq

namespace ClassRecord

def mention (record : ClassRecord) (kind : RefKind) (typeName : String) : ClassRecord :=
  match kind with
  | .member => { record with memberRefs := record.memberRefs.add typeName 1 }
  | .other => { record with otherRefs := record.otherRefs.add typeName 1 }

/-- The types that the class mentions with their counts, its members' first. -/
def references (record : ClassRecord) : List (String × UInt32) :=
  record.memberRefs.entries ++ record.otherRefs.entries

/-- The classes that the class is linked to: its supertype, then its interfaces. -/
def parents (record : ClassRecord) : List ClassId := record.superLink.toList ++ record.interfaceLinks.toList

end ClassRecord

/-- A dependency that leads to a module: the module it leads to, and the declaration's position. -/
structure DependencyEdge where
  target : ModuleId
  declaration : Nat
  deriving Repr, DecidableEq

/-- The same edge seen from its target: the module that declares it, and the declaration's position. -/
structure DependentEdge where
  dependent : ModuleId
  declaration : Nat
  deriving Repr, DecidableEq

structure ModuleRecord where
  name : String
  mainClass : Option String := none
  classes : OrderedMap String ClassId := {}
  /-- The packages of its classes, with the number of classes. -/
  packages : Counts := {}
  classRefs : Counts := {}
  packageRefs : Counts := {}
  declarations : List Dependency := []
  dependencies : List DependencyEdge := []
  dependents : List DependentEdge := []
  /-- For each visible package the modules that it is visible through. -/
  providers : OrderedMap String (OrderedSet ModuleId) := {}
  /-- For each module the packages that are visible through it. -/
  provided : OrderedMap ModuleId (OrderedSet String) := {}
  services : OrderedMap String (OrderedSet String) := {}
  reExports : OrderedSet ModuleId := {}
  deriving Repr

namespace ModuleRecord

/-- Counts `n` mentions of a type, and of its package if it has one. -/
def refer (record : ModuleRecord) (typeName : String) (package : Option String) (n : UInt32) : ModuleRecord :=
  let packageRefs :=
    match package with
    | some package => record.packageRefs.add package n
    | none => record.packageRefs
  { record with packageRefs, classRefs := record.classRefs.add typeName n }

def addClass (record : ModuleRecord) (name : String) (package : Option String) (id : ClassId) :
    ModuleRecord :=
  let packages :=
    match package with
    | some package => record.packages.add package 1
    | none => record.packages
  { record with classes := record.classes.insert name id, packages }

/-- How many of the packages are not yet visible through `target`, a repeated one counted once. -/
def newlyProvided (record : ModuleRecord) (packages : List String) (target : ModuleId) : Nat :=
  (packages.eraseDups.filter fun package =>
    !((record.providers.get? package).getD {}).contains target).length

/-- Makes packages visible through the declaration that leads to `target`. -/
def provide (record : ModuleRecord) (packages : List String) (edge : DependencyEdge) : ModuleRecord :=
  { record with
    dependencies := record.dependencies ++ [edge]
    providers := packages.foldl (fun providers package =>
      providers.alter package fun known => (known.getD {}).insert edge.target) record.providers
    provided := record.provided.alter edge.target fun known => (known.getD {}).insertAll packages }

/-- Records that packages which arrive through `target` are passed on. -/
def reExport (record : ModuleRecord) (target : ModuleId) : ModuleRecord :=
  { record with reExports := record.reExports.insert target }

def addService (record : ModuleRecord) (interface implementation : String) : ModuleRecord :=
  { record with
    services := record.services.alter interface fun known => (known.getD {}).insert implementation }

end ModuleRecord

end ModuleAudit
