import ModuleAudit.Settings.Yaml.Scalar

/-! # Tokens of a YAML text

A text is cut into tokens from its start to its end. Indentation becomes tokens that open and close
collections. A key is known by the colon after it only, so what may be one is kept in mind, and the tokens
that say so are put in front of it later.
-/

namespace ModuleAudit.Yaml
set_option autoImplicit false

inductive Token where
  /-- A directive that names the version of the language. -/
  | version
  /-- A directive that declares a handle of tags. -/
  | declare (handle : String)
  | documentStart
  | documentEnd
  | blockList
  | blockMap
  | blockEnd
  | flowList
  | flowListEnd
  | flowMap
  | flowMapEnd
  /-- The dash in front of an entry of a block list. -/
  | dash
  | comma
  | key
  | value
  | anchor (name : String)
  /-- A name that stands for the node with the anchor. -/
  | reference (name : String)
  /-- A tag by its handle. -/
  | tag (handle : String)
  | scalar (text : String)
  deriving Repr, DecidableEq

/-! ## Names, tags and directives -/

/-- The characters that may follow the name of an anchor besides gaps. -/
def nameEnds : List Char := ['?', ':', ',', ']', '\x7d', '%', '@', '\x60']

/-- Reads the name of an anchor after its first character. -/
def readName? (here : Cursor) : Option (String × Cursor) :=
  let name := here.run isNameChar
  let after := here.past isNameChar
  let ends := startsGap after.rest || after.rest.head?.any nameEnds.contains
  if name.isEmpty || !ends then none else some (String.ofList name, after)

/-- Drops so many further bytes of a character, each written as two hexadecimal digits. -/
def dropTrailing? : Nat → List Char → Option (List Char)
  | 0, chars => some chars
  | n + 1, '%' :: a :: b :: rest => do
    let byte ← Text.numeral? 16 [a, b]
    if byte / 64 = 2 then dropTrailing? n rest else none
  | _, _ => none

/-- Drops a character whose bytes are written as two hexadecimal digits each. -/
def dropEncoded? : List Char → Option (List Char)
  | '%' :: a :: b :: rest => do
    let byte ← Text.numeral? 16 [a, b]
    if byte < 128 then some rest
    else if byte / 32 = 6 then dropTrailing? 1 rest
    else if byte / 16 = 14 then dropTrailing? 2 rest
    else if byte / 8 = 30 then dropTrailing? 3 rest
    else none
  | _ => none

/-- Whether a character may stand in a tag. In a tag within angle brackets more are allowed. -/
def isTagChar (enclosed : Bool) (c : Char) : Bool :=
  isNameChar c || (enclosed && [',', '[', ']'].contains c)
    || [';', '/', '?', ':', '@', '&', '=', '+', '$', '.', '%', '!', '~', '*', '\'', '(', ')'].contains c

/-- Whether the bytes of characters within a tag are written rightly. -/
def isTagText : Nat → List Char → Bool
  | 0, chars => chars.isEmpty
  | room + 1, chars =>
    match chars with
    | [] => true
    | '%' :: _ => (dropEncoded? chars).any (isTagText room)
    | _ :: rest => isTagText room rest

/-- Reads the text of a tag, which may be empty. -/
def readTagText? (enclosed : Bool) (here : Cursor) : Option (List Char × Cursor) :=
  let text := here.run (isTagChar enclosed)
  if isTagText text.length text then some (text, here.past (isTagChar enclosed)) else none

/-- The handle that stands here: an exclamation mark, or a name between two. -/
def handle (here : Cursor) : List Char :=
  let name := here.step.run isNameChar
  if (here.step.past isNameChar).rest.head? = some '!' then '!' :: name ++ ['!'] else ['!']

def readTag? (inFlow : Bool) (here : Cursor) : Option (Token × Cursor) := do
  let (token, after) ←
    if here.step.rest.head? = some '<' then do
      let (text, after) ← readTagText? true (here.drop 2)
      if text.isEmpty ∨ after.rest.head? ≠ some '>' then none else some (Token.tag "!", after.step)
    else do
      let handle := handle here
      let (text, after) ← readTagText? false (here.drop handle.length)
      if text.isEmpty ∧ handle ≠ ['!'] then none else some (Token.tag (String.ofList handle), after)
  if startsGap after.rest ∨ (inFlow ∧ after.rest.head? = some ',') then some (token, after) else none

def readVersionPart? (here : Cursor) : Option (Nat × Cursor) :=
  let digits := here.run Char.isDigit
  if 9 < digits.length then none else (Text.numeral? 10 digits).map (·, here.past Char.isDigit)

/-- Reads a directive after its percent sign. The version is 1.1 or 1.2, and a handle is declared with the
text it stands for, which is not empty. -/
def readDirective? (here : Cursor) : Option (Token × Cursor) := do
  let name := String.ofList (here.run isNameChar)
  let afterName := here.past isNameChar
  let here := afterName.past Text.isSpace
  let (token, after) ←
    if !startsGap afterName.rest then none
    else if name = "YAML" then do
      let (major, dot) ← readVersionPart? here
      let (minor, after) ← if dot.rest.head? = some '.' then readVersionPart? dot.step else none
      if major = 1 ∧ (minor = 1 ∨ minor = 2) then some (Token.version, after) else none
    else if name = "TAG" then do
      let handle := handle here
      let afterHandle := here.drop handle.length
      let (text, after) ← readTagText? true (afterHandle.past Text.isSpace)
      let isHandle := here.rest.head? = some '!' ∧ afterHandle.rest.head?.any Text.isSpace
      if isHandle ∧ !text.isEmpty ∧ startsGap after.rest then
        some (Token.declare (String.ofList handle), after)
      else none
    else none
  return (token, ← after.finishLine?)

/-! ## Scanning -/

/-- Something that is a key if a colon follows it. -/
structure PossibleKey where
  /-- How many tokens stand before it. -/
  tokensBefore : Nat
  line : Nat
  column : Nat
  /-- Whether nothing but a key can stand there. -/
  required : Bool
  deriving Repr, DecidableEq

/-- A text that has been cut into tokens up to some place. -/
structure Scan where
  here : Cursor
  /-- More than the number of characters of the text. -/
  room : Nat
  tokens : Array Token := #[]
  /-- The columns of the open block collections, innermost first. -/
  indents : List Nat := []
  /-- What may be a key in the innermost collection. -/
  key : Option PossibleKey := none
  /-- What may be a key in each collection around an open flow collection, innermost first. -/
  outerKeys : List (Option PossibleKey) := []
  /-- Whether a key may start here. -/
  keyAllowed : Bool := true
  deriving Repr

namespace Scan

def inFlow (scan : Scan) : Bool := !scan.outerKeys.isEmpty

/-- The least column that belongs to the innermost block collection. -/
def least (scan : Scan) : Nat := (scan.indents.head?.map (· + 1)).getD 0

/-- The place and the permission of keys after the gap and the comments here. -/
def skipGapIn (inFlow : Bool) : Nat → Cursor → Bool → Cursor × Bool
  | 0, here, keyAllowed => (here, keyAllowed)
  | room + 1, here, keyAllowed =>
    let here := here.past fun c => c == ' ' || ((inFlow || !keyAllowed) && c == '\t')
    let here := if here.rest.head? = some '#' then here.past (!isBreak ·) else here
    if here.rest.head?.any isBreak then skipGapIn inFlow room here.step (keyAllowed || !inFlow)
    else (here, keyAllowed)

/-- The text cut up to the next token. After a line end a key may start in a block collection. -/
def skipGap (scan : Scan) : Scan :=
  let (here, keyAllowed) := skipGapIn scan.inFlow scan.room scan.here scan.keyAllowed
  { scan with here, keyAllowed }

/-- What may still be a key at a place: it is on the same line and not too far away. It is an error if it
had to be one. -/
def keptKey? (here : Cursor) : Option PossibleKey → Option (Option PossibleKey)
  | none => some none
  | some key =>
    if key.line < here.line ∨ key.column + 1024 < here.column then
      if key.required then none else some none
    else some (some key)

/-- The text with only what may still be a key kept in mind. -/
def keepKeys? (scan : Scan) : Option Scan := do
  let key ← keptKey? scan.here scan.key
  let outerKeys ← scan.outerKeys.mapM (keptKey? scan.here)
  return { scan with key, outerKeys }

/-- Closes the block collections whose columns are too deep. -/
def close (scan : Scan) (tooDeep : Nat → Bool) : Scan :=
  if scan.inFlow then scan
  else
    { scan with
      tokens := scan.tokens ++ Array.replicate (scan.indents.takeWhile tooDeep).length Token.blockEnd
      indents := scan.indents.dropWhile tooDeep }

/-- Opens a block collection at a column, with its token at a position, unless one is open there. -/
def openBlock (scan : Scan) (column position : Nat) (token : Token) : Scan :=
  if scan.inFlow ∨ column < scan.least then scan
  else
    { scan with
      tokens := scan.tokens.insertIdxIfInBounds position token
      indents := column :: scan.indents }

end Scan

/-- A step of cutting a text into tokens. -/
abbrev Scanner := StateT Scan Option

namespace Scanner

def add (token : Token) (width : Nat) : Scanner Unit :=
  modify fun scan => { scan with here := scan.here.drop width, tokens := scan.tokens.push token }

/-- Sets whether a key may start after what was read. -/
def allowKey (keyAllowed : Bool) : Scanner Unit := modify fun scan => { scan with keyAllowed }

/-- Gives up what may be a key. -/
def dropKey : Scanner Unit := do
  if (← get).key.any (·.required) then failure
  modify fun scan => { scan with key := none }

/-- Keeps in mind that what stands here may be a key. -/
def noteKey : Scanner Unit := do
  let scan ← get
  if scan.keyAllowed then
    dropKey
    let required := !scan.inFlow && scan.indents.head? == some scan.here.column
    let key := some ⟨scan.tokens.size, scan.here.line, scan.here.column, required⟩
    modify fun scan => { scan with key }

/-- Reads something that may be a key or a part of one. -/
def readNode (read : Scan → Option (Token × Cursor)) : Scanner Unit := do
  noteKey
  let scan ← get
  let (token, after) ← read scan
  set { scan with here := after, tokens := scan.tokens.push token, keyAllowed := false }

/-- Reads the mark that opens a flow collection. -/
def openFlow (token : Token) : Scanner Unit := do
  noteKey
  modify fun scan => { scan with key := none, outerKeys := scan.key :: scan.outerKeys, keyAllowed := true }
  add token 1

/-- Reads the mark that closes a flow collection. -/
def closeFlow (token : Token) : Scanner Unit := do
  dropKey
  modify fun scan =>
    match scan.outerKeys with
    | [] => scan
    | key :: outerKeys => { scan with key, outerKeys }
  allowKey false
  add token 1

/-- Opens a block collection here, unless one is open; a mark may not start one everywhere. -/
def startBlock (token : Token) : Scanner Unit := do
  let scan ← get
  if !scan.inFlow then
    if !scan.keyAllowed then failure
    set (scan.openBlock scan.here.column scan.tokens.size token)

def readDash : Scanner Unit := do
  startBlock .blockList
  dropKey
  allowKey true
  add .dash 1

def readKeyMark : Scanner Unit := do
  startBlock .blockMap
  dropKey
  allowKey (!(← get).inFlow)
  add .key 1

/-- Reads the colon in front of a value. If it follows a key, the tokens in front of that are added. -/
def readValueMark : Scanner Unit := do
  let scan ← get
  match scan.key with
  | some key =>
    let tokens := scan.tokens.insertIdxIfInBounds key.tokensBefore .key
    let scan := { scan with tokens, key := none, keyAllowed := false }
    set (scan.openBlock key.column key.tokensBefore .blockMap)
  | none =>
    startBlock .blockMap
    allowKey (!scan.inFlow)
  add .value 1

/-- Ends all block collections, before a directive or the mark of a document. -/
def endBlocks : Scanner Unit := do
  modify (·.close fun _ => true)
  dropKey
  allowKey false

def readDirective : Scanner Unit := do
  endBlocks
  let scan ← get
  let (token, after) ← readDirective? scan.here.step
  set { scan with here := after, tokens := scan.tokens.push token }

def readDocumentMark (token : Token) : Scanner Unit := do
  endBlocks
  add token 3

def readBlockScalar (folded : Bool) : Scanner Unit := do
  dropKey
  let scan ← get
  let (text, after) ← readBlock? folded scan.least scan.room scan.here.step
  let tokens := scan.tokens.push (.scalar (String.ofList text))
  set { scan with here := after, tokens, keyAllowed := true }

def readQuotedScalar (quote : Char) : Scanner Unit :=
  readNode fun scan =>
    (readQuoted quote scan.room scan.here.step).map fun (text, after) =>
      (.scalar (String.ofList text), after)

/-- Reads a plain scalar. After a line end a key may start. -/
def readPlainScalar : Scanner Unit := do
  noteKey
  let scan ← get
  let plain ← readPlain ⟨scan.inFlow, scan.least⟩ scan.room none scan.here
  set
    { scan with
      here := plain.after
      tokens := scan.tokens.push (.scalar (String.ofList plain.text))
      keyAllowed := plain.endsLine }

/-- Whether a plain scalar may start with a character before what follows it. -/
def startsPlain (inFlow : Bool) (c : Char) (rest : List Char) : Bool :=
  if c == '-' then !rest.head?.any Text.isSpace
  else if c == '?' || c == ':' then !inFlow && !startsGap rest
  else !(isGap c || isFlowMark c || ['#', '&', '*', '!', '|', '>', '\'', '"', '%', '@', '\x60'].contains c)

def readToken (c : Char) (rest : List Char) : Scanner Unit := do
  let scan ← get
  let named (make : String → Token) : Scanner Unit :=
    readNode fun scan => (readName? scan.here.step).map fun (name, after) => (make name, after)
  if c = '%' ∧ scan.here.column = 0 then readDirective
  else if scan.here.isDocumentMark then readDocumentMark (if c = '-' then .documentStart else .documentEnd)
  else if c = '-' ∧ startsGap rest then readDash
  else if c = '?' ∧ (scan.inFlow ∨ startsGap rest) then readKeyMark
  else if c = ':' ∧ (scan.inFlow ∨ startsGap rest) then readValueMark
  else if startsPlain scan.inFlow c rest then readPlainScalar
  else
    match c with
    | '[' => openFlow .flowList
    | '\x7b' => openFlow .flowMap
    | ']' => closeFlow .flowListEnd
    | '\x7d' => closeFlow .flowMapEnd
    | ',' => do
      dropKey
      allowKey true
      add .comma 1
    | '*' => named .reference
    | '&' => named .anchor
    | '!' => readNode fun scan => readTag? scan.inFlow scan.here
    | '|' => if scan.inFlow then failure else readBlockScalar false
    | '>' => if scan.inFlow then failure else readBlockScalar true
    | '\'' => readQuotedScalar '\''
    | '"' => readQuotedScalar '"'
    | _ => failure

/-- Reads all tokens. There is room for one more than there are characters. -/
def readTokens : Nat → Scanner Unit
  | 0 => failure
  | room + 1 => do
    let scan ← (← get).skipGap.keepKeys?
    set (scan.close (scan.here.column < ·))
    match scan.here.rest with
    | [] => endBlocks
    | c :: rest => do
      readToken c rest
      readTokens room

end Scanner

def tokens? (text : String) : Option (List Token) :=
  if text.toList.all isAllowed then
    let chars := unifyBreaks text.toList
    let room := chars.length + 1
    (Scanner.readTokens room { here := .start chars, room }).map fun (_, scan) => scan.tokens.toList
  else none

end ModuleAudit.Yaml
