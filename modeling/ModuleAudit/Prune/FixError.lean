/-! # Errors of fixing

Why the descriptor of a module could not be fixed.
-/

namespace ModuleAudit.Prune
set_option autoImplicit false

/-- Why the descriptor of a module could not be fixed. -/
inductive FixError where
  | invalidName (module : String)
  | notFound (module : String)
  | unreadable (path : String)
  | malformed (path : String)
  | noDependencies (path : String)
  | unwritable (path : String)
  deriving Repr, DecidableEq

def FixError.message : FixError → String
  | .invalidName module => s!"Invalid path name for module {module}"
  | .notFound module => s!"Cannot find module.xml for module {module}"
  | .unreadable path => s!"Failed to read {path}"
  | .malformed path => s!"Failed to parse {path}"
  | .noDependencies path => s!"Unexpected missing <dependencies> element in {path}"
  | .unwritable path => s!"Failed to write {path}"

/-- How the fix of a module goes wrong. -/
inductive FixFault where
  /-- The module is passed over. -/
  | failed (error : FixError)
  /-- The descriptor at the path cannot be cut between characters. This ends the whole run. -/
  | torn (path : String)
  deriving Repr, DecidableEq

end ModuleAudit.Prune
