import ModuleAudit.Pattern.Flags
import ModuleAudit.Pattern.Property
import ModuleAudit.Text.Numeral
import ModuleAudit.Text.Split

/-! # Escapes in patterns

What a backslash makes of the characters after it: a character of its own or by its code point, a class of
characters, or a condition on a position.
-/

namespace ModuleAudit.Pattern
set_option autoImplicit false

/-- What an escape stands for. -/
inductive Escape where
  | literal (c : Char)
  | set (set : CharSet)
  | place (place : Place)
  deriving Repr, DecidableEq

def readHexDigits (flags : Flags) : Nat → List Char → Option (List Char × List Char)
  | 0, chars => some ([], chars)
  | _ + 1, [] => none
  | n + 1, c :: rest =>
    if (Text.digitValue? c).isSome then
      (readHexDigits flags n (flags.skip rest)).map fun (digits, rest) => (c :: digits, rest)
    else none

/-- Reads hexadecimal digits up to a closing brace. -/
def readHexBraced (flags : Flags) : Nat → List Char → Option (List Char × List Char)
  | 0, _ => none
  | room + 1, chars =>
    match flags.skip chars with
    | [] => none
    | '\x7d' :: rest => some ([], flags.skip rest)
    | c :: rest =>
      if (Text.digitValue? c).isSome then
        (readHexBraced flags room rest).map fun (digits, rest) => (c :: digits, rest)
      else none

/-- Reads a code point: in braces, or as exactly `width` digits. Without all scripts two digits are one byte,
which has to be a character. -/
def readHex (flags : Flags) (width : Nat) (chars : List Char) : Option (Escape × List Char) := do
  match flags.skip chars with
  | '\x7b' :: rest =>
    let (digits, rest) ← readHexBraced flags (rest.length + 1) rest
    return (.literal (← (Text.numeral? 16 digits).bind Text.charOfCode?), rest)
  | chars =>
    let (digits, rest) ← readHexDigits flags width chars
    let c ← (Text.numeral? 16 digits).bind Text.charOfCode?
    if width = 2 ∧ 0x7F < c.toNat ∧ !flags.allScripts then none else return (.literal c, rest)

/-- Whether a character that is no letter or digit may be written with a backslash. -/
def isEscapable (c : Char) : Bool := c.toNat < 128 && !c.isAlphanum && c != '<' && c != '>'

/-- Whether a character may stand in the name of a condition on words. -/
def isEdgeChar (c : Char) : Bool := c.isAlpha || c == '-'

/-- Reads the name of a condition on words up to a closing brace. -/
def readEdgeName (flags : Flags) : Nat → List Char → Option (List Char × List Char)
  | 0, _ => none
  | room + 1, chars =>
    match chars with
    | [] => none
    | '\x7d' :: rest => some ([], rest)
    | c :: rest =>
      if isEdgeChar c then
        (readEdgeName flags room (flags.skip rest)).map fun (name, rest) => (c :: name, rest)
      else none

def wordEdge? (name : List Char) : Option WordEdge :=
  match String.ofList name with
  | "start" => some .start
  | "end" => some .finish
  | "start-half" => some .startHalf
  | "end-half" => some .finishHalf
  | _ => none

/-- Reads what may follow the mark of a boundary: the name of a condition in braces. Braces that start with
anything but a letter or a minus sign are left for a repetition. -/
def readBoundary (flags : Flags) (chars : List Char) : Option (WordEdge × List Char) :=
  match chars with
  | '\x7b' :: rest => do
    let inner := flags.skip rest
    let first ← inner.head?
    if isEdgeChar first then
      let (name, rest) ← readEdgeName flags (inner.length + 1) inner
      return (← wordEdge? name, rest)
    else return (.boundary, chars)
  | _ => some (.boundary, chars)

/-- Reads the text of a property up to a closing brace. -/
def readPropertyText (flags : Flags) : Nat → List Char → Option (List Char × List Char)
  | 0, _ => none
  | room + 1, chars =>
    match flags.skip chars with
    | [] => none
    | '\x7d' :: rest => some ([], rest)
    | c :: rest => (readPropertyText flags room rest).map fun (text, rest) => (c :: text, rest)

/-- Reads the set of a property after its letter: in braces, or as one letter. Properties are there with all
scripts only. -/
def readProperty (flags : Flags) (negated : Bool) (chars : List Char) : Option (Escape × List Char) := do
  let (property, rest) ←
    match flags.skip chars with
    | [] => none
    | '\x7b' :: rest =>
      (readPropertyText flags (rest.length + 1) rest).map fun (text, rest) => (property? text, rest)
    | c :: rest => some (namedProperty? [c], flags.skip rest)
  let set ← if flags.allScripts then flags.negated? negated (flags.cased (← property)) else none
  return (.set set, rest)

def readEscape (flags : Flags) : List Char → Option (Escape × List Char)
  | [] => none
  | c :: rest =>
    let edge (edge : WordEdge) : Option (Escape × List Char) := some (.place (.words edge flags.word), rest)
    let literal (code : Nat) : Option (Escape × List Char) := some (.literal (Char.ofNat code), rest)
    let without (set : CharSet) : Option (Escape × List Char) :=
      (flags.complement? set).map fun set => (.set set, rest)
    match c with
    | 'd' => some (.set flags.digits, rest)
    | 'D' => without flags.digits
    | 'w' => some (.set flags.word, rest)
    | 'W' => without flags.word
    | 's' => some (.set flags.blanks, rest)
    | 'S' => without flags.blanks
    | 'p' => readProperty flags false rest
    | 'P' => readProperty flags true rest
    | 'a' => literal 7
    | 't' => literal 9
    | 'n' => literal 10
    | 'v' => literal 11
    | 'f' => literal 12
    | 'r' => literal 13
    | 'x' => readHex flags 2 rest
    | 'u' => readHex flags 4 rest
    | 'U' => readHex flags 8 rest
    | 'A' => some (.place .textStart, rest)
    | 'z' => some (.place .textEnd, rest)
    | 'B' => edge .noBoundary
    | '<' => edge .start
    | '>' => edge .finish
    | 'b' => (readBoundary flags rest).map fun (edge, rest) => (.place (.words edge flags.word), rest)
    | c => if isEscapable c then some (.literal c, rest) else none

end ModuleAudit.Pattern
