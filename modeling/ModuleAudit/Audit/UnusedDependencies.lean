import ModuleAudit.Audit.Usage
import ModuleAudit.Log
import ModuleAudit.Tally

/-! # Unused dependencies

The dependencies without a reason to keep them, in the order of the modules that declare them.
-/

namespace ModuleAudit
set_option autoImplicit false

/-- A dependency that its module does not need, by the names of both. -/
structure UnusedDependency where
  module : String
  dependency : String
  deriving Repr, DecidableEq

structure UnusedDependencies where
  findings : List UnusedDependency := []
  /-- The number of dependencies that are kept because they are passed on. -/
  exports : Nat := 0
  deriving Repr, DecidableEq

namespace UnusedDependencies

/-- The unused dependencies of each module, in order. -/
def byModule (unused : UnusedDependencies) : OrderedMap String (List String) :=
  unused.findings.foldl (fun grouped finding =>
    grouped.alter finding.module fun known => known.getD [] ++ [finding.dependency]) {}

end UnusedDependencies

namespace Index

/-- The finding of a judgement, if it gives no reason to keep the dependency. -/
def findingOf? (index : Index) (judgement : Judgement) : Option UnusedDependency :=
  match judgement.usage with
  | none => some ⟨index.moduleName judgement.module, index.moduleName judgement.edge.target⟩
  | some _ => none

def unusedDependencies (index : Index) : UnusedDependencies where
  findings := index.judgements.filterMap index.findingOf?
  exports := (index.judgements.filter fun judgement => judgement.usage = some .reExported).length

def judgementMessage? (index : Index) (judgement : Judgement) : Option Message :=
  match judgement.usage with
  | none | some .reExported => none
  | some usage =>
    let module := index.moduleName judgement.module
    let target := index.moduleName judgement.edge.target
    some (.debug s!"Dependency from \"{module}\" to \"{target}\" is used: {usage.label}")

/-- What the search for unused dependencies has to say. -/
def unusedDependenciesLog (index : Index) : Log :=
  [.info "Looking for unused dependencies..."] ++ index.judgements.filterMap index.judgementMessage? ++
    [.info s!"Found {index.unusedDependencies.findings.length} unused dependencies"]

end Index

def UnusedDependencies.tally (unused : UnusedDependencies) : Tally :=
  ((Tally.start ["exports", "unused dependencies"]).add "exports" unused.exports).add "unused dependencies"
    unused.findings.length

end ModuleAudit
