import ModuleAudit.Markup.Element
import ModuleAudit.Markup.Span
import ModuleAudit.ModuleName

/-! # The children of the dependencies

What stands between the tags of the first `dependencies` element inside the root element of a descriptor.
-/

namespace ModuleAudit.Prune
set_option autoImplicit false

open Markup

inductive SiblingKind where
  /-- An element, with the name of the module it depends on if it is such an entry. -/
  | element (module : Option String)
  | comment
  /-- Text, references included. -/
  | text
  | other
  deriving Repr, DecidableEq

/-- A child of the dependencies and where it stands. -/
structure Sibling where
  kind : SiblingKind
  span : Span
  deriving Repr, DecidableEq

def Sibling.isElement (sibling : Sibling) : Bool :=
  match sibling.kind with
  | .element _ => true
  | _ => false

/-- The name of the module that a tag depends on, unless its attributes are broken. Other tags than
`module` name none, and their attributes are not looked at. -/
def dependencyName? (content : List Char) : Option (Option String) :=
  if elementName content = "module" then
    (Element.ofTag? content).map fun element =>
      (element.value? "name").map (ModuleName.compose · (element.value? "slot"))
  else some none

/-- A walk through the tokens of a descriptor. -/
structure Walk where
  /-- The number of open elements. -/
  depth : Nat := 0
  /-- Whether the dependencies were met. -/
  found : Bool := false
  /-- Whether the walk is inside the dependencies. -/
  inside : Bool := false
  /-- Where the open child of the dependencies starts, and the module that it names. -/
  opened : Option (Nat × Option String) := none
  siblings : List Sibling := []

namespace Walk

def push (walk : Walk) (kind : SiblingKind) (span : Span) : Walk :=
  { walk with siblings := walk.siblings ++ [⟨kind, span⟩] }

/-- Adds text; text that follows text makes one sibling with it. -/
def pushText (walk : Walk) (span : Span) : Walk :=
  match walk.siblings.getLast? with
  | some ⟨.text, last⟩ =>
    if last.stop = span.start then
      { walk with siblings := walk.siblings.dropLast ++ [⟨.text, ⟨last.start, span.stop⟩⟩] }
    else walk.push .text span
  | _ => walk.push .text span

/-- Whether the walk stands between the children of the dependencies. -/
def amongSiblings (walk : Walk) : Bool := walk.inside && walk.depth == 2

def enter (walk : Walk) (content : List Char) (span : Span) : Option Walk :=
  let deeper := { walk with depth := walk.depth + 1 }
  if walk.amongSiblings then
    (dependencyName? content).map fun name => { deeper with opened := some (span.start, name) }
  else if !walk.found && walk.depth == 1 && elementName content == "dependencies" then
    some { deeper with found := true, inside := true }
  else some deeper

/-- Meets an element without children. -/
def meetEmpty (walk : Walk) (content : List Char) (span : Span) : Option Walk :=
  if walk.amongSiblings then (dependencyName? content).map fun name => walk.push (.element name) span
  else if !walk.found && walk.depth == 1 && elementName content == "dependencies" then
    some { walk with found := true }
  else some walk

def leave (walk : Walk) (span : Span) : Walk :=
  let walk :=
    if walk.inside && walk.depth == 3 then
      match walk.opened with
      | some (start, name) => { walk with opened := none }.push (.element name) ⟨start, span.stop⟩
      | none => walk
    else if walk.amongSiblings then { walk with inside := false }
    else walk
  { walk with depth := walk.depth - 1 }

/-- Takes one token, unless it is an entry with broken attributes. A declaration or a doctype between
siblings is none of them. -/
def step (walk : Walk) : Token × Span → Option Walk
  | (.openTag content, span) => walk.enter content span
  | (.emptyTag content, span) => walk.meetEmpty content span
  | (.closeTag _, span) => some (walk.leave span)
  | (.text _, span) | (.verbatim _, span) | (.reference _, span) =>
    some (if walk.amongSiblings then walk.pushText span else walk)
  | (.comment _, span) => some (if walk.amongSiblings then walk.push .comment span else walk)
  | (.instruction _, span) => some (if walk.amongSiblings then walk.push .other span else walk)
  | (.declaration _, _) | (.doctype _, _) => some walk

end Walk

/-- The children of the dependencies of a text, none if it has no dependencies, unless it is no markup. -/
def siblings? (text : List Char) : Option (Option (List Sibling)) := do
  let tokens ← read? text
  let walk ← (locate 0 tokens).foldlM Walk.step {}
  return if walk.found then some walk.siblings else none

end ModuleAudit.Prune
