import ModuleAudit.Text.Split

/-! # Characters and places of a YAML text

A text is made of allowed characters only. Its line ends are unified before it is read, and a place in it is
what follows, with the line and the column.
-/

namespace ModuleAudit.Yaml
set_option autoImplicit false

/-! ## Characters -/

/-- Whether a character may occur in a text. -/
def isAllowed (c : Char) : Bool :=
  let n := c.toNat
  n == 0x09 || n == 0x0A || n == 0x0D || (0x20 ≤ n && n ≤ 0x7E) || n == 0x85 || (0xA0 ≤ n && n ≤ 0xFFFD)
    || 0x10000 ≤ n

/-- Every carriage return with a line feed, carriage return and next line character made a line feed. -/
def unifyBreaks : List Char → List Char
  | [] => []
  | '\r' :: '\n' :: rest => '\n' :: unifyBreaks rest
  | c :: rest => (if c = '\r' ∨ c = Char.ofNat 0x85 then '\n' else c) :: unifyBreaks rest

/-- Whether a character ends a line: a line feed, or a line or paragraph separator. -/
def isBreak (c : Char) : Bool := c == '\n' || c == Char.ofNat 0x2028 || c == Char.ofNat 0x2029

/-- Whether a character is a space, a tab or a line end. -/
def isGap (c : Char) : Bool := Text.isSpace c || isBreak c

/-- Whether a character may stand in the name of an anchor, of a directive or of a handle. -/
def isNameChar (c : Char) : Bool := c.isAlphanum || c == '_' || c == '-'

/-- Whether a gap or the end of the text comes first. -/
def startsGap : List Char → Bool
  | [] => true
  | c :: _ => isGap c

/-- Whether a line end or the end of the text comes first. -/
def startsBreak : List Char → Bool
  | [] => true
  | c :: _ => isBreak c

/-! ## Places -/

structure Cursor where
  /-- What follows. -/
  rest : List Char
  line : Nat
  column : Nat
  deriving Repr, DecidableEq

namespace Cursor

/-- The place after one character. -/
def step (here : Cursor) : Cursor :=
  match here.rest with
  | [] => here
  | c :: rest => if isBreak c then ⟨rest, here.line + 1, 0⟩ else ⟨rest, here.line, here.column + 1⟩

/-- The place after `n` characters. -/
def drop (here : Cursor) : Nat → Cursor
  | 0 => here
  | n + 1 => here.step.drop n

def run (here : Cursor) (kind : Char → Bool) : List Char := here.rest.takeWhile kind

/-- The place after the characters from here on of one kind. -/
def past (here : Cursor) (kind : Char → Bool) : Cursor := here.drop (here.run kind).length

/-- The start of a text. A byte order mark at the start is passed over. -/
def start (chars : List Char) : Cursor :=
  let here : Cursor := ⟨chars, 0, 0⟩
  if chars.head? = some (Char.ofNat 0xFEFF) then here.step else here

/-- Whether a mark that starts or ends a document stands here. -/
def isDocumentMark (here : Cursor) : Bool :=
  here.column == 0 && (here.rest.take 3 == ['-', '-', '-'] || here.rest.take 3 == ['.', '.', '.'])
    && startsGap (here.rest.drop 3)

/-- The place after the spaces, the comment and the line end here, if nothing else stands before the line
end. -/
def finishLine? (here : Cursor) : Option Cursor :=
  let here := here.past Text.isSpace
  let here := if here.rest.head? = some '#' then here.past (!isBreak ·) else here
  if startsBreak here.rest then some here.step else none

end Cursor

/-! ## Gaps within a text -/

/-- The text that a row of line ends stands for: one line feed is a space, and before other line ends it is
dropped. -/
def foldBreaks : List Char → List Char
  | ['\n'] => [' ']
  | '\n' :: more => more
  | breaks => breaks

/-- The text that a gap stands for: its blanks if it has no line end. -/
def gapText (gap : List Char) : List Char := if gap.any isBreak then foldBreaks (gap.filter isBreak) else gap

end ModuleAudit.Yaml
