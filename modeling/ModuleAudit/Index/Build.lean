import ModuleAudit.Index.Ingest
import ModuleAudit.Index.Supertypes
import ModuleAudit.Index.Visibility
import ModuleAudit.Repository.Basic
import ModuleAudit.ServiceFile
import ModuleAudit.Tally
import ModuleAudit.Text.Utf8

/-! # Building an index

First everything that a repository finds goes into the index: modules, aliases, classes and services. Then
the declared dependencies become edges, packages become visible along them, and classes are linked to their
supertypes.
-/

namespace ModuleAudit
set_option autoImplicit false

structure BuildStats where
  modules : Nat := 0
  aliases : Nat := 0
  missingModules : Nat := 0
  dependencies : Nat := 0
  resourceRoots : Nat := 0
  classes : Nat := 0
  failedClasses : Nat := 0
  serviceFiles : Nat := 0
  serviceReferences : Nat := 0
  dependentEdges : Nat := 0
  unresolvedDependencies : Nat := 0
  classLinks : Nat := 0
  deriving Repr, DecidableEq

/-- An index in the making. -/
structure Build where
  index : Index := {}
  stats : BuildStats := {}
  tally : Tally := .start ["modules", "module aliases", "dependencies", "resource roots", "classes",
    "service files", "service references"]
  log : Log := []

namespace Build

def say (build : Build) (message : Message) : Build := { build with log := build.log ++ [message] }

/-- Counts one more of what a counter of the stage counts. -/
def count (build : Build) (counter : String) : Build := { build with tally := build.tally.increment counter }

def counting (build : Build) (change : BuildStats → BuildStats) : Build :=
  { build with stats := change build.stats }

/-! ## Resources -/

def classSuffix : String := ".class"

def endsWith (suffix name : String) : Bool := suffix.toList.isSuffixOf name.toList

def addClassFile (build : Build) (module : ModuleId) (location name : String)
    (contents : Except String Bytes) : Build :=
  let build := (build.counting fun s => { s with classes := s.classes + 1 }).count "classes"
  let (pool, outcome) : NamePool × Except String ClassRecord :=
    match contents with
    | .error reason => (build.index.pool, .error reason)
    | .ok bytes =>
      let (pool, outcome) := ingest build.index.pool module bytes
      (pool, outcome.mapError ClassFile.Failure.message)
  let build := { build with index := { build.index with pool } }
  match outcome with
  | .ok record => { build with index := (build.index.attachClass record).1 }
  | .error reason =>
    (build.counting fun s => { s with failedClasses := s.failedClasses + 1 }).say
      (.warning s!"Failed to read class {name} in {location}: {reason}")

/-- Registers an implementation of an interface, both of which the module then refers to. -/
def addImplementation (module : ModuleId) (interface : String) (build : Build) (implementation : String) :
    Build :=
  let index := build.index.pooling fun pool =>
    (pool.addPath implementation).addPackage (slashed implementation)
  let index := index.addService module interface implementation
  let index := (index.refer module interface 1).refer module (slashed implementation) 1
  ({ build with index }.counting fun s => { s with serviceReferences := s.serviceReferences + 1 }).count
    "service references"

/-- Adds the implementations that a service registration lists. -/
def addService (build : Build) (module : ModuleId) (service : ServiceFile) : Build :=
  let build := (build.counting fun s => { s with serviceFiles := s.serviceFiles + 1 }).count "service files"
  let interface := slashed service.interface
  let index := build.index.pooling fun pool => (pool.add interface).addPackage interface
  service.implementations.foldl (addImplementation module interface) { build with index }

def addServiceFile (build : Build) (module : ModuleId) (location name : String)
    (contents : Except String Bytes) : Build :=
  match contents with
  | .error reason => build.say (.warning s!"Failed to read service file {name} in {location}: {reason}")
  | .ok bytes =>
    match ServiceFile.parse? name (Utf8.lossy bytes) with
    | some service => build.addService module service
    | none => build

def addResource (module : ModuleId) (location : String) (build : Build) : ResourceItem → Build
  | .notice message => build.say message
  | .entry name contents =>
    if endsWith classSuffix name then build.addClassFile module location name contents
    else if ServiceFile.directory.toList.isPrefixOf name.toList then
      build.addServiceFile module location name contents
    else build

def addRoot (module : ModuleId) (moduleName : String) (build : Build) : ResourceRoot → Build
  | .unlisted location =>
    build.say (.debug s!"Skipping non-iterable resource root {location} of {moduleName}")
  | .listed listing =>
    let build := (build.counting fun s => { s with resourceRoots := s.resourceRoots + 1 }).count
      "resource roots"
    let build := listing.items.foldl (addResource module listing.location) build
    match listing.failure with
    | some failure => build.say (.warning s!"Failed to read resource root: {failure.message}")
    | none => build

/-! ## Modules -/

/-- Names the main class of a module, which the module then refers to. -/
def setMainClass (build : Build) (module : ModuleId) : Option String → Build
  | some mainClass =>
    { build with
      index := (build.index.setMainClass module (some mainClass)).refer module (slashed mainClass) 1 }
  | none => build

def addDeclaration (module : ModuleId) (build : Build) (dependency : Dependency) : Build :=
  let index := build.index.declare module dependency
  ({ build with index }.counting fun s => { s with dependencies := s.dependencies + 1 }).count "dependencies"

/-- Adds what a name stands for. -/
def addSpec (build : Build) : ModuleSpec → Build
  | .link name target =>
    let build := { build with index := build.index.addAlias name target }
    (build.counting fun s => { s with aliases := s.aliases + 1 }).count "module aliases"
  | .module name mainClass roots dependencies =>
    let (index, id) := build.index.addModule name
    let build := ({ build with index }.counting fun s => { s with modules := s.modules + 1 }).count "modules"
    let build := roots.foldl (addRoot id name) (build.setMainClass id mainClass)
    dependencies.foldl (addDeclaration id) build

/-- Adds what a repository finds under one of its names. -/
def addFinding (build : Build) (finding : Finding) : Build :=
  let build := { build with log := build.log ++ finding.log }
  let missing (message : String) : Build :=
    (build.counting fun s => { s with missingModules := s.missingModules + 1 }).say (.warning message)
  match finding.outcome with
  | .ok (some spec) => build.addSpec spec
  | .ok none => missing s!"Unable to find module \"{finding.name}\""
  | .error error => missing s!"Unable to load module \"{finding.name}\": {error.message}"

def ofFindings (findings : List Finding) : Build := findings.foldl addFinding {}

/-! ## Edges -/

/-- Draws the edge of one declaration, from both of its ends. -/
def drawEdge (id : ModuleId) (build : Build) : Dependency × Nat → Build
  | (declared, declaration) =>
    match declared.moduleName? with
    | none => build
    | some name =>
      match build.index.findModule? name with
      | some target =>
        let index := (build.index.addDependent target ⟨id, declaration⟩).addDependency id ⟨target, declaration⟩
        ({ build with index }.counting fun s => { s with dependentEdges := s.dependentEdges + 1 }).count
          "dependent edges"
      | none =>
        if declared.isOptional then build
        else
          (build.counting fun s => { s with unresolvedDependencies := s.unresolvedDependencies + 1 }).say
            (.warning s!"Unresolved dependency from \"{build.index.moduleName id}\" to \"{name}\"")

def drawEdgesOf (build : Build) (id : ModuleId) : Build :=
  let declarations := (build.index.modules[id]?.map (·.declarations)).getD []
  declarations.zipIdx.foldl (drawEdge id) build

def drawEdges (build : Build) : Build :=
  (List.range build.index.modules.size).foldl drawEdgesOf
    { build with tally := .start ["dependent edges"] }

/-! ## The whole build -/

/-- Makes packages visible and says how many edges there are. -/
def spreadPackages (build : Build) : Build :=
  let index := build.index.spreadAll
  { build with index }.say index.spreadMessage

/-- Links classes and lets modules refer to what their classes inherit. -/
def linkClasses (build : Build) : Build :=
  let (index, links) := build.index.linkSupertypes
  { build with
    index := index.inheritAll
    stats := { build.stats with classLinks := links }
    tally := (Tally.start ["resolved class links"]).add "resolved class links" links
    log := build.log ++ [Index.linkMessage links] }

/-- Completes a build to which all findings were added. -/
def complete (build : Build) : Build :=
  let stats := build.stats
  let build := build.say
    (.info s!"Indexed {stats.modules} modules, {stats.aliases} aliases, {stats.classes} classes")
  build.drawEdges.spreadPackages.linkClasses

def run (findings : List Finding) : Build := (ofFindings findings).complete

end Build

end ModuleAudit
