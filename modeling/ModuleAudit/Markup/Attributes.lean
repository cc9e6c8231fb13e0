import ModuleAudit.Markup.Token
import ModuleAudit.Text.Numeral

/-! # Tags

The content of a tag is a name and attributes. Names may have a namespace in front, up to the first colon,
which says nothing here. Attribute values stand in quotes, and references in them are resolved.
-/

namespace ModuleAudit.Markup
set_option autoImplicit false

/-! ## Names -/

/-- The full name at the front of a tag's content: all up to the first blank. -/
def tagName (content : List Char) : List Char := content.takeWhile (!isTagBlank ·)

/-- The full name of a closing tag: its content without blanks at the end, unless it is all blank. -/
def closeName (content : List Char) : List Char :=
  match Text.dropEndWhile isTagBlank content with
  | [] => content
  | name => name

/-- A name without its namespace. -/
def localName (name : List Char) : List Char :=
  match Text.cutFirst ':' name with
  | some (_, rest) => rest
  | none => name

/-- The name of a tag's content without its namespace. -/
def elementName (content : List Char) : String := String.ofList (localName (tagName content))

/-! ## References in values -/

/-- The character that a reference stands for: one of five names, or a code point other than zero. -/
def entity? (name : List Char) : Option Char :=
  match name with
  | ['l', 't'] => some '<'
  | ['g', 't'] => some '>'
  | ['a', 'm', 'p'] => some '&'
  | ['a', 'p', 'o', 's'] => some '\''
  | ['q', 'u', 'o', 't'] => some '"'
  | '#' :: 'x' :: digits => ((Text.numeral? 16 digits).filter (0 < ·)).bind Text.charOfCode?
  | '#' :: digits => ((Text.numeral? 10 digits).filter (0 < ·)).bind Text.charOfCode?
  | _ => none

/-- Resolves the references of a value that has no more characters than there is room for. -/
def unescapeIn : Nat → List Char → Option (List Char)
  | 0, _ => some []
  | _ + 1, [] => some []
  | room + 1, c :: rest =>
    if c = '&' then
      match rest.dropWhile fun c => c ≠ ';' && c ≠ '&' with
      | ';' :: after => do
        let resolved ← entity? (rest.takeWhile fun c => c ≠ ';' && c ≠ '&')
        return resolved :: (← unescapeIn room after)
      | _ => none
    else (unescapeIn room rest).map (c :: ·)

/-- A value with its references resolved. -/
def unescape? (value : List Char) : Option (List Char) := unescapeIn value.length value

/-! ## Attributes -/

/-- An attribute by its full name, with its value resolved. -/
structure Attribute where
  name : List Char
  value : List Char
  deriving Repr, DecidableEq

/-- Reads the attribute that starts with `first`. Its name ends at a blank or an equals sign, and so may
start with one. -/
def readAttribute (first : Char) (rest : List Char) : Option (Attribute × List Char) :=
  let inName (c : Char) : Bool := c != '=' && !isTagBlank c
  match (rest.dropWhile inName).dropWhile isTagBlank with
  | '=' :: after =>
    match after.dropWhile isTagBlank with
    | quote :: after =>
      if isQuote quote then do
        let (raw, after) ← Text.cutFirst quote after
        return (⟨first :: rest.takeWhile inName, ← unescape? raw⟩, after)
      else none
    | [] => none
  | _ => none

/-- Reads attributes with names other than those seen, from a text that has no more characters than there
is room for. -/
def attributesIn : Nat → List (List Char) → List Char → Option (List Attribute)
  | 0, _, _ => some []
  | room + 1, seen, chars =>
    match chars.dropWhile isTagBlank with
    | [] => some []
    | first :: rest => do
      let (found, after) ← readAttribute first rest
      if found.name ∈ seen then none
      else return found :: (← attributesIn room (found.name :: seen) after)

/-- The attributes of a tag's content, unless they are malformed or one is given twice. -/
def attributes? (content : List Char) : Option (List Attribute) :=
  let chars := content.dropWhile (!isTagBlank ·)
  attributesIn chars.length [] chars

end ModuleAudit.Markup
