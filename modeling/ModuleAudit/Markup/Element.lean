import ModuleAudit.Markup.Attributes

/-! # Elements

The tree of elements of a document. Only elements and their attributes are kept, and names are without
their namespaces. An element that is not closed by the end of the document is no part of the tree, and the
first outermost element is the root.
-/

namespace ModuleAudit.Markup
set_option autoImplicit false

structure Element where
  name : String
  attributes : List (String × String) := []
  children : List Element := []
  deriving Repr, Inhabited

namespace Element

/-- The value of the first attribute with a name. -/
def value? (element : Element) (key : String) : Option String := element.attributes.lookup key

/-- The first child with a name. -/
def child? (element : Element) (name : String) : Option Element := element.children.find? (·.name = name)

def childrenNamed (element : Element) (name : String) : List Element :=
  element.children.filter (·.name = name)

/-- The element of a tag, without children. -/
def ofTag? (content : List Char) : Option Element :=
  (attributes? content).map fun attributes =>
    { name := elementName content
      attributes := attributes.map fun a => (String.ofList (localName a.name), String.ofList a.value) }

end Element

/-! ## Nesting -/

/-- Whether every closing tag closes the innermost open element, where `opened` holds the full names of
the elements open at first. -/
def nests : List (List Char) → List Token → Bool
  | _, [] => true
  | opened, .openTag content :: rest => nests (tagName content :: opened) rest
  | opened, .closeTag content :: rest =>
    match opened with
    | name :: opened => name = closeName content && nests opened rest
    | [] => false
  | opened, _ :: rest => nests opened rest

/-- The mark that a text may start with. -/
def byteOrderMark : Char := Char.ofNat 0xFEFF

/-- The text without the mark it may start with. -/
def dropMark : List Char → List Char
  | [] => []
  | c :: rest => if c = byteOrderMark then rest else c :: rest

/-- The tokens of a text, if it is markup: no token is broken, and closing tags match. -/
def read? (text : List Char) : Option (List Token) := (tokens? (dropMark text)).filter (nests [])

/-! ## The tree -/

/-- A tree in the making: the open elements, innermost first, and the root when it is complete. -/
structure Growth where
  opened : List Element := []
  root : Option Element := none

namespace Growth

/-- Adds a complete element: to the innermost open one, or as the root if there is none yet. -/
def attach (growth : Growth) (element : Element) : Growth :=
  match growth.opened with
  | parent :: opened =>
    { growth with opened := { parent with children := parent.children ++ [element] } :: opened }
  | [] => { growth with root := growth.root.or (some element) }

/-- Adds a token, unless it is a tag with broken attributes. -/
def add (growth : Growth) : Token → Option Growth
  | .openTag content =>
    (Element.ofTag? content).map fun element => { growth with opened := element :: growth.opened }
  | .emptyTag content => (Element.ofTag? content).map growth.attach
  | .closeTag _ =>
    match growth.opened with
    | element :: opened => some ({ growth with opened }.attach element)
    | [] => some growth
  | _ => some growth

end Growth

/-- The root that tokens make, if any, unless attributes are broken. -/
def rootOf? (tokens : List Token) : Option (Option Element) := (tokens.foldlM Growth.add {}).map (·.root)

/-- The root element of a text, if any, unless the text is no markup. -/
def root? (text : String) : Option (Option Element) := (read? text.toList).bind rootOf?

end ModuleAudit.Markup
