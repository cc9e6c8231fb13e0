import ModuleAudit.Text.Blank
import ModuleAudit.Text.Split

/-! # Service registrations

A file in `META-INF/services` is named for an interface and lists implementations, one a line. A number
sign starts a comment, and blank lines say nothing.
-/

namespace ModuleAudit
set_option autoImplicit false

/-- The implementations that a resource root registers for an interface. -/
structure ServiceFile where
  interface : String
  implementations : List String
  deriving Repr, DecidableEq

namespace ServiceFile

/-- How the names of service registrations begin. -/
def directory : String := "META-INF/services/"

/-- What stands before the first number sign of a line. -/
def withoutComment (line : List Char) : List Char := line.takeWhile fun c => c ≠ '#'

/-- The names that the lines of a registration list. -/
def listed (contents : List Char) : List (List Char) :=
  ((Text.lines contents).map fun line => Text.trim (withoutComment line)).filter fun name => !name.isEmpty

/-- Reads the resource `name` as a registration; other resources are none. -/
def parse? (name contents : String) : Option ServiceFile :=
  match Text.afterMark? directory.toList name.toList with
  | none | some [] => none
  | some interface => some ⟨String.ofList interface, (listed contents.toList).map String.ofList⟩

end ServiceFile

end ModuleAudit
