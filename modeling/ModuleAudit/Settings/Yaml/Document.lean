import ModuleAudit.Settings.Yaml.Token

/-! # Documents of texts in lists

The tokens of a text make one document at most. What is read here is a mapping from texts to lists of texts;
a document of any other shape is refused. A node may bear an anchor, and a reference stands for the node with
the anchor it names.
-/

namespace ModuleAudit.Yaml
set_option autoImplicit false

/-- What stands where a text is expected. -/
inductive Leaf where
  | text (text : String)
  /-- Nothing, or a tag or an anchor alone. -/
  | absent
  /-- A reference to an anchor, by its number. -/
  | reference (anchor : Nat)
  deriving Repr, DecidableEq

/-- A node with the number of its anchor. -/
structure Anchored (α : Type) where
  anchor : Option Nat
  node : α
  deriving Repr, DecidableEq

/-- What stands where a list is expected. -/
inductive Value where
  | leaf (leaf : Leaf)
  | list (items : List (Anchored Leaf))
  deriving Repr, DecidableEq

structure Entry where
  key : Anchored Leaf
  value : Anchored Value
  deriving Repr, DecidableEq

/-! ## Reading tokens -/

/-- The tokens that are still to be read, and what was declared before them. -/
structure Reading where
  tokens : List Token
  /-- The handles of tags that are known. -/
  handles : List String := ["!", "!!"]
  /-- The anchors by name, last first. -/
  anchors : List (String × Nat) := []
  deriving Repr

abbrev Reader := StateT Reading Option

namespace Reader

def sees (tokens : List Token) : Reader Bool := return (← get).tokens.head?.any tokens.contains

def skip : Reader Unit := modify fun reading => { reading with tokens := reading.tokens.tail }

/-- Drops the next token if it is the given one. -/
def skips (token : Token) : Reader Bool := do
  let seen ← sees [token]
  if seen then skip
  return seen

/-- Drops the next token, which has to be the given one. -/
def expect (token : Token) : Reader Unit := do
  if !(← skips token) then failure

/-- Declares an anchor. Its number is how many names have been declared before, so a name that is declared
again may share its number with the next one. -/
def declareAnchor (name : String) : Reader Nat := do
  let reading ← get
  let number := (reading.anchors.map Prod.fst).eraseDups.length
  set { reading with anchors := (name, number) :: reading.anchors }
  return number

/-- Reads a reference to an anchor that has been declared. -/
def reference? : Reader (Option Leaf) := do
  match (← get).tokens with
  | .reference name :: _ =>
    skip
    return some (.reference (← (← get).anchors.lookup name))
  | _ => return none

/-- Reads a tag, whose handle has to be known. -/
def tag? : Reader Bool := do
  match (← get).tokens with
  | .tag handle :: _ =>
    if (← get).handles.contains handle then skip else failure
    return true
  | _ => return false

def anchor? : Reader (Option String) := do
  match (← get).tokens with
  | .anchor name :: _ =>
    skip
    return some name
  | _ => return none

/-- What may stand in front of a node. -/
structure Properties where
  /-- Whether there is a tag or an anchor. -/
  any : Bool
  /-- The number of the anchor. -/
  anchor : Option Nat
  deriving Repr, DecidableEq

/-- Reads a tag and an anchor in either order, or one of them, or none. -/
def properties : Reader Properties := do
  let tagBefore ← tag?
  let name ← anchor?
  let tagAfter ← if tagBefore then pure false else tag?
  match name with
  | some name => return ⟨true, some (← declareAnchor name)⟩
  | none => return ⟨tagBefore || tagAfter, none⟩

/-- Reads a text, with a tag or an anchor in front of it or alone. -/
def leaf : Reader (Anchored Leaf) := do
  match ← reference? with
  | some reference => return ⟨none, reference⟩
  | none =>
    let properties ← properties
    match (← get).tokens with
    | .scalar text :: _ =>
      skip
      return ⟨properties.anchor, .text text⟩
    | _ => if properties.any then return ⟨properties.anchor, .absent⟩ else failure

/-- Reads a text, unless one of some tokens is next. -/
def leafBefore (ends : List Token) : Reader (Anchored Leaf) := do
  if ← sees ends then return ⟨none, .absent⟩ else leaf

/-- Reads the entries of a block list, each after a dash. -/
def dashedItems (ends : List Token) : Nat → Reader (List (Anchored Leaf))
  | 0 => failure
  | room + 1 => do
    if ← skips .dash then
      let item ← leafBefore (.dash :: ends)
      return item :: (← dashedItems ends room)
    else return []

/-- Reads the entries of a flow list with its end. The last may be followed by a comma. -/
def flowItems : Nat → Reader (List (Anchored Leaf))
  | 0 => failure
  | room + 1 => do
    if ← skips .flowListEnd then return []
    let item ← leaf
    if ← skips .comma then return item :: (← flowItems room)
    expect .flowListEnd
    return [item]

/-- Reads a list, or nothing, after the properties of a value. The dashes of a list that is the value of an
entry in a block need not be indented. -/
def listAfter (properties : Properties) (inBlock : Bool) : Reader Value := do
  let room := (← get).tokens.length + 1
  if ← pure inBlock <&&> sees [.dash] then return .list (← dashedItems [.key, .value, .blockEnd] room)
  if ← skips .flowList then return .list (← flowItems room)
  if ← pure inBlock <&&> skips .blockList then
    let items ← dashedItems [.blockEnd] room
    expect .blockEnd
    return .list items
  if properties.any then return .leaf .absent else failure

/-- Reads the value of an entry, which ends before one of some tokens. -/
def value (inBlock : Bool) (ends : List Token) : Reader (Anchored Value) := do
  if ← sees ends then return ⟨none, .leaf .absent⟩
  match ← reference? with
  | some reference => return ⟨none, .leaf reference⟩
  | none =>
    let properties ← properties
    return ⟨properties.anchor, ← listAfter properties inBlock⟩

/-- Reads the value of an entry after its key, if there is one. -/
def valueMarked (inBlock : Bool) (ends : List Token) : Reader (Anchored Value) := do
  if ← skips .value then value inBlock ends else return ⟨none, .leaf .absent⟩

/-- Reads the entries of a block mapping with its end. -/
def blockEntries : Nat → Reader (List Entry)
  | 0 => failure
  | room + 1 => do
    if ← skips .blockEnd then return []
    expect .key
    let key ← leaf
    let value ← valueMarked true [.key, .value, .blockEnd]
    return ⟨key, value⟩ :: (← blockEntries room)

def flowEntry : Reader Entry := do
  if ← skips .key then
    let key ← leaf
    return ⟨key, ← valueMarked false [.comma, .flowMapEnd]⟩
  else return ⟨← leaf, ⟨none, .leaf .absent⟩⟩

/-- Reads the entries of a flow mapping with its end. The last may be followed by a comma. -/
def flowEntries : Nat → Reader (List Entry)
  | 0 => failure
  | room + 1 => do
    if ← skips .flowMapEnd then return []
    let entry ← flowEntry
    if ← skips .comma then return entry :: (← flowEntries room)
    expect .flowMapEnd
    return [entry]

/-- Reads a mapping, or a tag or an anchor alone, which stands for an empty one. -/
def mapping : Reader (List Entry) := do
  let properties ← properties
  let room := (← get).tokens.length + 1
  if ← skips .blockMap then blockEntries room
  else if ← skips .flowMap then flowEntries room
  else if properties.any then return []
  else failure

/-- Reads the directives of a document: the version once at most, and each handle once at most. Whether
there are any. -/
def directives (version : Bool) (declared : List String) : Nat → Reader Bool
  | 0 => failure
  | room + 1 => do
    match (← get).tokens with
    | .version :: _ =>
      if version then failure
      skip
      directives true declared room
    | .declare handle :: _ =>
      if declared.contains handle then failure
      modify fun reading => { reading with handles := handle :: reading.handles }
      skip
      directives version (handle :: declared) room
    | _ => return version || !declared.isEmpty

/-- Drops the marks that end a document. -/
def skipEnds : Reader Unit :=
  modify fun reading => { reading with tokens := reading.tokens.dropWhile (· == .documentEnd) }

/-- Reads the only document. Without directives its first mark may be left out, and nothing may follow it
but marks that end it. -/
def document : Reader (List Entry) := do
  let started ← directives false [] ((← get).tokens.length + 1)
  if (← get).tokens.isEmpty ∧ !started then return []
  let started ← if started then (expect .documentStart).map fun _ => true else skips .documentStart
  let empty := (← get).tokens.isEmpty || (← sees [.documentEnd])
  let entries ← if started && empty then pure [] else mapping
  skipEnds
  if (← get).tokens.isEmpty then return entries else failure

end Reader

/-! ## The texts of a document -/

/-- The nodes that bear anchors, with their numbers, in the order in which they start. -/
def anchoredNodes (entries : List Entry) : List (Nat × Value) :=
  let noted (anchor : Option Nat) (value : Value) : List (Nat × Value) := anchor.toList.map (·, value)
  let leaves (leaf : Anchored Leaf) : List (Nat × Value) := noted leaf.anchor (.leaf leaf.node)
  entries.flatMap fun entry =>
    leaves entry.key ++ noted entry.value.anchor entry.value.node
      ++ match entry.value.node with
        | .leaf _ => []
        | .list items => items.flatMap leaves

/-- The node that a number stands for: the last one with it. -/
def nodeAt? (entries : List Entry) (number : Nat) : Option Value :=
  (anchoredNodes entries).reverse.lookup number

/-- The text of a leaf; an absent one is empty. -/
def textOf? (entries : List Entry) : Leaf → Option String
  | .text text => some text
  | .absent => some ""
  | .reference number =>
    match nodeAt? entries number with
    | some (.leaf (.text text)) => some text
    | some (.leaf .absent) => some ""
    | _ => none

/-- The texts of a value; an absent one has none. -/
def textsOf? (entries : List Entry) (value : Value) : Option (List String) :=
  let value :=
    match value with
    | .leaf (.reference number) => nodeAt? entries number
    | value => some value
  match value with
  | some (.list items) => items.mapM fun item => textOf? entries item.node
  | some (.leaf .absent) => some []
  | _ => none

end ModuleAudit.Yaml
