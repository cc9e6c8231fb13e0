import ModuleAudit.Text.Split

/-! # Module names

A module name is a dotted name, with a slot after a colon when it has another slot than `main`. The
directory of a module below a repository root has a segment for each part of the dotted name, and one more
for a slot.
-/

namespace ModuleAudit.ModuleName
set_option autoImplicit false

/-- The slot of a module whose name does not say one. -/
def defaultSlot : String := "main"

/-- The dotted name and the slot of a module name: the parts before and after the first colon. -/
def parts (name : String) : String × String :=
  match Text.cutFirst ':' name.toList with
  | some (dotted, slot) => (String.ofList dotted, String.ofList slot)
  | none => (name, defaultSlot)

def compose (dotted : String) (slot : Option String) : String :=
  match slot with
  | some slot => if slot = "" ∨ slot = defaultSlot then dotted else dotted ++ ":" ++ slot
  | none => dotted

/-- The segments of a dotted name, all of which have to be there. -/
def segments? (dotted : List Char) : Option (List String) :=
  let segments := Text.splitOn '.' dotted
  if segments.any List.isEmpty then none else some (segments.map String.ofList)

/-- The segment of a slot, which has to name a directory below the one it is in. -/
def slotSegment? (slot : List Char) : Option String :=
  if slot = [] ∨ slot = ['.'] ∨ slot = ['.', '.'] then none else some (String.ofList slot)

/-- The directory of a module below a repository root, segment by segment. Names with a slash or a
backslash, with an empty segment or with a slot that leads elsewhere have none. -/
def directory? (name : String) : Option (List String) :=
  let chars := name.toList
  if chars.any fun c => c = '/' || c = '\\' then none
  else
    match Text.cutFirst ':' chars with
    | none => segments? chars
    | some (dotted, slot) => do
      let segments ← segments? dotted
      return segments ++ [← slotSegment? slot]

def hasSlot (name : String) : Bool := ':' ∈ name.toList

end ModuleAudit.ModuleName
