import ModuleAudit.Ordered.Map

/-! # Running tallies

The counters of one stage of a run. A stage starts its counters at zero; a counter it did not announce
joins at the end when it is first added to.
-/

namespace ModuleAudit
set_option autoImplicit false

/-- Counters in the order in which they were announced. -/
structure Tally where
  counters : OrderedMap String Nat := {}
  deriving Repr, DecidableEq

namespace Tally

def start (names : List String) : Tally := ⟨OrderedMap.ofList (names.map (·, 0))⟩

def add (tally : Tally) (name : String) (amount : Nat) : Tally :=
  ⟨tally.counters.alter name fun count => count.getD 0 + amount⟩

def increment (tally : Tally) (name : String) : Tally := tally.add name 1

/-- The value of a counter, zero for one that is not in the tally. -/
def count (tally : Tally) (name : String) : Nat := (tally.counters.get? name).getD 0

def message (tally : Tally) : String :=
  "Processed " ++ ", ".intercalate (tally.counters.entries.map fun (name, count) => s!"{count} {name}")

end Tally

end ModuleAudit
