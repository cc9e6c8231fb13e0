import ModuleAudit.Index.Basic

/-! # Why a dependency is needed

A dependency is needed when its module passes the target on, refers to a package that is visible through
it, imports its services, or could pass on packages that come from it. One that is optional is always left
alone.
-/

namespace ModuleAudit
set_option autoImplicit false

/-- Why a dependency is kept. -/
inductive Usage where
  | reExported
  | packageReferenced
  | servicesImported
  | packagesPassedOn
  | dependencyPathsPassedOn
  | optional
  deriving Repr, DecidableEq

/-- The name of a reason in messages. -/
def Usage.label : Usage → String
  | .reExported => "ReExported"
  | .packageReferenced => "PackageReferenced"
  | .servicesImported => "ServicesImported"
  | .packagesPassedOn => "PackagesPassedOn"
  | .dependencyPathsPassedOn => "DependencyPathsPassedOn"
  | .optional => "Optional"

namespace ModuleRecord

/-- Whether the module refers to a package that is visible through `target`. -/
def refersThrough (record : ModuleRecord) (target : ModuleId) : Bool :=
  match record.provided.get? target with
  | some packages => record.packageRefs.keys.any packages.contains
  | none => false

end ModuleRecord

/-- The first reason to keep the dependency of a module on the module `target`, whose record is
`provider`. -/
def usageOf (record : ModuleRecord) (target : ModuleId) (provider : ModuleRecord) (declared : Dependency) :
    Option Usage :=
  if record.reExports.contains target then some .reExported
  else if record.refersThrough target then some .packageReferenced
  else if declared.imports.accepts PathFilter.servicesPath then some .servicesImported
  else if provider.packages.keys.any declared.passesOn then some .packagesPassedOn
  else if provider.providers.keys.any declared.passesOn then some .dependencyPathsPassedOn
  else if declared.isOptional then some .optional
  else none

/-- A dependency edge of a module with the reason to keep it, if there is one. -/
structure Judgement where
  module : ModuleId
  edge : DependencyEdge
  usage : Option Usage
  deriving Repr, DecidableEq

namespace Index

/-- The reason to keep a dependency edge of a module; none for an edge without records behind it. -/
def usage (index : Index) (module : ModuleId) (edge : DependencyEdge) : Option Usage := do
  let record ← index.modules[module]?
  let provider ← index.modules[edge.target]?
  let declared ← record.declarations[edge.declaration]?
  usageOf record edge.target provider declared

/-- The edges of a module that are the first to their target. -/
def firstEdges : List DependencyEdge → List DependencyEdge
  | [] => []
  | edge :: rest => edge :: (firstEdges rest).filter fun later => later.target ≠ edge.target

/-- The judgements on edges that `select` chooses from the edges of each module. -/
def judgementsOn (select : List DependencyEdge → List DependencyEdge) (index : Index) : List Judgement :=
  (index.modules.toList.zipIdx).flatMap fun (record, module) =>
    (select record.dependencies).map fun edge => ⟨module, edge, index.usage module edge⟩

def allJudgements (index : Index) : List Judgement := index.judgementsOn id

/-- The judgements that count: one for each module that a module depends on. -/
def judgements (index : Index) : List Judgement := index.judgementsOn firstEdges

end Index

end ModuleAudit
