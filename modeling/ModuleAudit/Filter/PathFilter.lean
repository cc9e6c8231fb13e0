import ModuleAudit.Filter.Glob
import ModuleAudit.Text.Split

/-! # Path filters

The masks of a dependency are predicates on resource directories such as `org/example/api`. Descriptors
build them from plain paths, globs and ordered rules of which the first that matches decides.
-/

namespace ModuleAudit
set_option autoImplicit false

/-- A predicate on resource paths. -/
inductive PathFilter where
  | acceptAll
  | rejectAll
  | is (path : String)
  /-- Every path strictly below this one. -/
  | under (path : String)
  | glob (pattern : Glob)
  | oneOf (paths : List String)
  | not (filter : PathFilter)
  | any (filters : List PathFilter)
  | all (filters : List PathFilter)
  /-- The first rule whose filter accepts decides, and `otherwise` when there is none. -/
  | firstOf (rules : List (PathFilter × Bool)) (otherwise : Bool)
  deriving Repr, Inhabited

namespace PathFilter

/-- Whether `path` is longer than `parent` followed by a slash, which it starts with. -/
def isBelow (parent path : String) : Bool :=
  match Text.afterMark? parent.toList path.toList with
  | some ('/' :: _ :: _) => true
  | _ => false

mutual

def accepts : PathFilter → String → Bool
  | .acceptAll, _ => true
  | .rejectAll, _ => false
  | .is p, path => p = path
  | .under p, path => isBelow p path
  | .glob pattern, path => pattern.accepts path
  | .oneOf paths, path => path ∈ paths
  | .not filter, path => !filter.accepts path
  | .any filters, path => anyAccepts filters path
  | .all filters, path => allAccept filters path
  | .firstOf rules otherwise, path => firstDecision rules otherwise path

def anyAccepts : List PathFilter → String → Bool
  | [], _ => false
  | filter :: filters, path => filter.accepts path || anyAccepts filters path

def allAccept : List PathFilter → String → Bool
  | [], _ => true
  | filter :: filters, path => filter.accepts path && allAccept filters path

/-- What the first rule that accepts `path` decides. -/
def firstDecision : List (PathFilter × Bool) → Bool → String → Bool
  | [], otherwise, _ => otherwise
  | (filter, decision) :: rules, otherwise, path =>
    if filter.accepts path then decision else firstDecision rules otherwise path

end

/-- The filter that a descriptor writes as `pattern`: a glob if it holds a wildcard, else that very path. -/
def ofPattern (pattern : String) : PathFilter :=
  if pattern.toList.any fun c => c = '*' || c = '?' then .glob (Glob.ofText pattern) else .is pattern

/-- The filter of ordered rules, which is a constant one when there are none. -/
def ofRules (rules : List (PathFilter × Bool)) (otherwise : Bool) : PathFilter :=
  if rules.isEmpty then (if otherwise then .acceptAll else .rejectAll) else .firstOf rules otherwise

/-- The directory of a resource root that holds information about the root. -/
def metaInfPath : String := "META-INF"

/-- The directory of a resource root that holds service registrations. -/
def servicesPath : String := "META-INF/services"

def metaInf : PathFilter := .is metaInfPath

def belowMetaInf : PathFilter := .under metaInfPath

/-- Accepts the directory of service registrations. -/
def services : PathFilter := .is servicesPath

/-- What a dependency imports unless its descriptor says otherwise: all but `META-INF` and what is below. -/
def defaultImport : PathFilter := .not (.any [metaInf, belowMetaInf])

/-- The default import together with service registrations. -/
def defaultImportWithServices : PathFilter := .any [services, defaultImport]

end PathFilter

end ModuleAudit
