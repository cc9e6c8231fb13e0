import ModuleAudit.ModuleDescriptor.Fault

/-! # Loading errors

Why a descriptor or a resource root could not be loaded.
-/

namespace ModuleAudit
set_option autoImplicit false

/-- Why something at a path could not be loaded. -/
inductive LoadError where
  | unreadable (path : String)
  | badArchive (path : String)
  | badMarkup (path : String)
  | badDescriptor (path : String) (problem : ModuleDescriptor.Problem)
  deriving Repr, DecidableEq

namespace LoadError

def ofFault (path : String) : ModuleDescriptor.Fault → LoadError
  | .malformed => .badMarkup path
  | .invalid problem => .badDescriptor path problem

def message : LoadError → String
  | .unreadable path => s!"Failed to read {path}"
  | .badArchive path => s!"Failed to open archive {path}"
  | .badMarkup path => s!"Malformed XML in {path}"
  | .badDescriptor path problem => s!"Invalid module descriptor {path}: {problem.message}"

end LoadError

end ModuleAudit
