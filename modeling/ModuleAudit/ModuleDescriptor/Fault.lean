/-! # Faults of module descriptors

Why a text is no module descriptor.
-/

namespace ModuleAudit.ModuleDescriptor
set_option autoImplicit false

/-- What is wrong with a descriptor whose markup is in order. -/
inductive Problem where
  | noRoot
  | unexpectedRoot (name : String)
  | unexpectedElement (name parent : String)
  | missingAttribute (element key : String)
  | badFlag (key value : String)
  | badServices (value : String)
  deriving Repr, DecidableEq

def Problem.message : Problem → String
  | .noRoot => "document has no root element"
  | .unexpectedRoot name => s!"unexpected root element <{name}>"
  | .unexpectedElement name parent => s!"unexpected <{name}> in <{parent}>"
  | .missingAttribute element key => s!"<{element}> is missing the \"{key}\" attribute"
  | .badFlag key value => s!"invalid boolean \"{value}\" for {key}"
  | .badServices value => s!"invalid services value \"{value}\""

/-- Why a text is no module descriptor. -/
inductive Fault where
  /-- The markup itself is broken. -/
  | malformed
  | invalid (problem : Problem)
  deriving Repr, DecidableEq

end ModuleAudit.ModuleDescriptor
