import ModuleAudit.Index.Basic
import ModuleAudit.Log

/-! # Visible packages

A package is visible in the modules that depend on the one that holds it, as far as their declarations
let it in. Where a declaration exports it too, it is visible in the modules further along. A path through
the modules never comes back to a module on it.
-/

namespace ModuleAudit
set_option autoImplicit false

namespace Index

/-- The packages that the declaration of an edge imports. -/
def imported (index : Index) (edge : DependentEdge) (packages : List String) : List String :=
  match index.modules[edge.dependent]?.bind (·.declarations[edge.declaration]?) with
  | some declaration => packages.filter declaration.imports.accepts
  | none => []

/-- The packages that the declaration of an edge exports. -/
def exported (index : Index) (edge : DependentEdge) (packages : List String) : List String :=
  match index.modules[edge.dependent]?.bind (·.declarations[edge.declaration]?) with
  | some declaration => packages.filter declaration.exports.accepts
  | none => []

/-- How many packages an edge would make visible that are not. -/
def newlyVisible (index : Index) (source : ModuleId) (edge : DependentEdge) (packages : List String) : Nat :=
  (index.modules[edge.dependent]?.map (·.newlyProvided packages source)).getD 0

/-- Makes the packages of `source` visible along one edge. What the edge adds and exports goes on by
`further`. -/
def spreadAlong (further : List String → ModuleId → Index → Index) (packages : List String)
    (source : ModuleId) (index : Index) (edge : DependentEdge) : Index :=
  let packages := index.imported edge packages
  if packages.isEmpty then index
  else
    let added := index.newlyVisible source edge packages
    let index := index.updateModule edge.dependent (·.provide packages ⟨source, edge.declaration⟩)
    if added = 0 then index
    else
      let packages := index.exported edge packages
      if packages.isEmpty then index
      else further packages edge.dependent (index.updateModule edge.dependent (·.reExport source))

/-- Makes packages of `source` visible in its dependents and further along, while `path` holds the modules
on the way to it. There is room for as many modules as are not on the path. -/
def spreadIn : Nat → List ModuleId → List String → ModuleId → Index → Index
  | 0, _, _, _, index => index
  | room + 1, path, packages, source, index =>
    if source ∈ path then index
    else
      let edges := (index.modules[source]?.map (·.dependents)).getD []
      edges.foldl (spreadAlong (spreadIn room (source :: path)) packages source) index

/-- Makes packages of `source` visible in its dependents and further along. -/
def spread (index : Index) (source : ModuleId) (packages : List String) : Index :=
  spreadIn index.modules.size [] packages source index

/-- The packages of a module's own classes. -/
def packagesOf (index : Index) (id : ModuleId) : List String :=
  (index.modules[id]?.map (·.packages.keys)).getD []

/-- Makes the packages of every module visible. -/
def spreadAll (index : Index) : Index :=
  (List.range index.modules.size).foldl (fun index id => index.spread id (index.packagesOf id)) index

/-- The number of dependency edges of all modules. -/
def edgeCount (index : Index) : Nat := (index.modules.toList.map (·.dependencies.length)).foldl (· + ·) 0

/-- What there is to say when packages have been made visible. -/
def spreadMessage (index : Index) : Message :=
  .debug s!"Propagated packages: {index.edgeCount} dependency edges"

end Index

end ModuleAudit
