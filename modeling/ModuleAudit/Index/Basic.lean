import ModuleAudit.Index.NamePool
import ModuleAudit.Index.Records

/-! # The index of a repository

All modules, aliases and classes of a repository. Modules and classes are numbered in the order in which
they were added.
-/

namespace ModuleAudit
set_option autoImplicit false

/-- The modules, aliases and classes that were added. -/
structure Index where
  pool : NamePool := {}
  modules : Array ModuleRecord := #[]
  byName : OrderedMap String ModuleId := {}
  aliases : OrderedMap String String := {}
  classes : Array ClassRecord := #[]
  deriving Repr

namespace Index

instance : Inhabited Index := ⟨{}⟩

def updateModule (index : Index) (id : ModuleId) (change : ModuleRecord → ModuleRecord) : Index :=
  { index with modules := index.modules.modify id change }

def moduleName (index : Index) (id : ModuleId) : String := (index.modules[id]?.map (·.name)).getD ""

def pooling (index : Index) (change : NamePool → NamePool) : Index := { index with pool := change index.pool }

/-- Adds a module; one that is known already keeps its number and its record. -/
def addModule (index : Index) (name : String) : Index × ModuleId :=
  let index := index.pooling (·.add name)
  match index.byName.get? name with
  | some id => (index, id)
  | none =>
    let id := index.modules.size
    ({ index with modules := index.modules.push { name }, byName := index.byName.insert name id }, id)

/-- Adds an alias; the last target counts. -/
def addAlias (index : Index) (name target : String) : Index :=
  let index := index.pooling fun pool => (pool.add name).add target
  { index with aliases := index.aliases.insert name target }

/-- Follows aliases, each at most once, to a module. A module wins over an alias of its name. -/
def follow (byName : OrderedMap String ModuleId) (aliases : OrderedMap String String) (name : String) :
    Option ModuleId :=
  match byName.get? name with
  | some id => some id
  | none =>
    match _known : aliases.get? name with
    | some target => follow byName (aliases.erase name) target
    | none => none
termination_by aliases.size
decreasing_by exact aliases.size_erase_lt _known

/-- The module that a name stands for. -/
def findModule? (index : Index) (name : String) : Option ModuleId := follow index.byName index.aliases name

/-- Counts `n` mentions of a type by a module, and pools the type's package. -/
def refer (index : Index) (module : ModuleId) (typeName : String) (n : UInt32) : Index :=
  (index.pooling (·.addPackage typeName)).updateModule module (·.refer typeName (packageOf? typeName) n)

/-- Adds a class to its module: everything it mentions is mentioned by the module, and its package is one
of the module's. -/
def attachClass (index : Index) (record : ClassRecord) : Index × ClassId :=
  let id := index.classes.size
  let index := record.references.foldl (fun index (name, n) => index.refer record.module name n) index
  let index :=
    match record.name with
    | some name =>
      (index.pooling (·.addPackage name)).updateModule record.module (·.addClass name (packageOf? name) id)
    | none => index
  ({ index with classes := index.classes.push record }, id)

/-- Adds a class that is given by the names it has and mentions, all of which are pooled in their slashed
form. -/
def attachNamed (index : Index) (module : ModuleId) (name superName : Option String)
    (interfaces members others : List String) : Index × ClassId :=
  let names := name.toList ++ superName.toList ++ interfaces ++ members ++ others
  let record : ClassRecord :=
    { module
      name := name.map slashed
      superName := superName.map slashed
      interfaceNames := interfaces.map slashed }
  let record := members.foldl (fun record typeName => record.mention .member (slashed typeName)) record
  let record := others.foldl (fun record typeName => record.mention .other (slashed typeName)) record
  (index.pooling fun pool => names.foldl NamePool.addPath pool).attachClass record

/-! ## Changing the record of a module -/

def declare (index : Index) (id : ModuleId) (dependency : Dependency) : Index :=
  index.updateModule id fun record => { record with declarations := record.declarations ++ [dependency] }

/-- Records at the target of an edge where it comes from. -/
def addDependent (index : Index) (target : ModuleId) (edge : DependentEdge) : Index :=
  index.updateModule target fun record => { record with dependents := record.dependents ++ [edge] }

/-- Records at the start of an edge where it leads to. -/
def addDependency (index : Index) (id : ModuleId) (edge : DependencyEdge) : Index :=
  index.updateModule id fun record => { record with dependencies := record.dependencies ++ [edge] }

/-- Names the main class of a module, or none. -/
def setMainClass (index : Index) (id : ModuleId) (name : Option String) : Index :=
  (index.pooling fun pool => (name.toList).foldl NamePool.addPath pool).updateModule id
    ({ · with mainClass := name.map slashed })

def addService (index : Index) (id : ModuleId) (interface implementation : String) : Index :=
  (index.pooling fun pool => (pool.addPath interface).addPath implementation).updateModule id
    (·.addService (slashed interface) (slashed implementation))

/-- Makes packages visible in a module through one of its edges, and counts those that were not. -/
def provide (index : Index) (id : ModuleId) (packages : List String) (edge : DependencyEdge) : Index × Nat :=
  ((index.pooling fun pool => packages.foldl NamePool.add pool).updateModule id (·.provide packages edge),
    (index.modules[id]?.map (·.newlyProvided packages edge.target)).getD 0)

/-! ## Finding classes -/

/-- The class that a module has under a name. -/
def ownClass? (index : Index) (module : ModuleId) (name : String) : Option ClassId :=
  index.modules[module]?.bind (·.classes.get? name)

/-- The modules through which the package of a type is visible in a module. -/
def providersOf (index : Index) (module : ModuleId) (typeName : String) : List ModuleId :=
  match packageOf? typeName, index.modules[module]? with
  | some package, some record => ((record.providers.get? package).getD {}).toList
  | _, _ => []

/-- The class that a name means in a module: the module's own, or else that of the first module which
provides the package and has such a class. -/
def visibleClass? (index : Index) (module : ModuleId) (name : String) : Option ClassId :=
  match index.ownClass? module name with
  | some id => some id
  | none => (index.providersOf module name).findSome? fun provider => index.ownClass? provider name

end Index

end ModuleAudit
