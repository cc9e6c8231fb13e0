import ModuleAudit.Text.Split

/-! # Paths

Paths as they are written: names with slashes between them. Joining and taking apart keep the writing as
far as they can, because paths are shown.
-/

namespace ModuleAudit.Path
set_option autoImplicit false

/-- Whether a path starts at the root of all files. -/
def isAbsolute (path : String) : Bool := path.toList.head? == some '/'

/-- The path of `child` below `base`. An absolute child stands for itself. -/
def join (base child : String) : String :=
  if base = "" ∨ isAbsolute child then child
  else if base.toList.getLast? = some '/' then base ++ child
  else base ++ "/" ++ child

/-- The path of a row of names below `base`. -/
def joinAll (base : String) (names : List String) : String := names.foldl join base

/-- The parts of a path between slashes that say something. -/
def components (path : String) : List String :=
  ((Text.splitOn '/' path.toList).filter (!·.isEmpty)).map String.ofList

/-- Whether a path ends with a slash or with the name of the directory it stands in, and so can only be a
directory. -/
def namesDirectory (path : String) : Bool :=
  match (Text.splitOn '/' path.toList).getLast? with
  | some [] | some ['.'] => true
  | _ => false

/-- Drops what says nothing at the end of a reversed path: slashes, and single dots after a slash. -/
def tidyEnd : List Char → List Char
  | '/' :: rest => if rest.isEmpty then ['/'] else tidyEnd rest
  | '.' :: '/' :: rest => tidyEnd ('/' :: rest)
  | chars => chars
termination_by chars => chars.length
decreasing_by all_goals simp

/-- A path without what says nothing at its end. -/
def tidied (path : String) : List Char := (tidyEnd path.toList.reverse).reverse

/-- The directory that holds what is at a path: the path without its last name. -/
def parent (path : String) : String :=
  match Text.cutLast '/' (tidied path) with
  | some (front, _) => String.ofList (tidyEnd ('/' :: front.reverse)).reverse
  | none => ""

def fileName (path : String) : List Char :=
  match Text.cutLast '/' (tidied path) with
  | some (_, name) => name
  | none => tidied path

/-- The extension of a path: what follows the last dot of its last name, unless the name starts with that
dot. -/
def extension? (path : String) : Option String :=
  match Text.cutLast '.' (fileName path) with
  | some ([], _) | none => none
  | some (_, ending) => some (String.ofList ending)

end ModuleAudit.Path
