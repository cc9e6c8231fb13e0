import ModuleAudit.Settings.Basic
import ModuleAudit.Text.Numeral
import ModuleAudit.Text.Split

/-! # Settings in TOML

A document is a row of lines `key = [texts]`. Keys and texts may be quoted in all the ways of the language;
tables and other values can set nothing and are refused.
-/

namespace ModuleAudit.Toml
set_option autoImplicit false

open Text (isSpace dropSpaces)

/-! ## Gaps -/

/-- Whether a character may stand for itself in a comment or a text: all but control characters. -/
def isPlain (c : Char) : Bool := c == '\t' || (32 ≤ c.toNat && c.toNat != 127)

def dropLineEnd? : List Char → Option (List Char)
  | '\n' :: rest => some rest
  | '\r' :: '\n' :: rest => some rest
  | _ => none

/-- Drops a comment, if there is one, up to its line end. -/
def dropComment : List Char → List Char
  | '#' :: rest => rest.dropWhile isPlain
  | chars => chars

/-- Drops what may stand after an entry: spaces, a comment, and the line end unless the text ends. -/
def finishLine? (chars : List Char) : Option (List Char) :=
  match dropComment (dropSpaces chars) with
  | [] => some []
  | rest => dropLineEnd? rest

/-- Drops spaces, comments and line ends; a comment may be going on. -/
def dropGap (inComment : Bool) : List Char → List Char
  | [] => []
  | '\n' :: rest => dropGap false rest
  | '\r' :: '\n' :: rest => dropGap false rest
  | c :: rest =>
    if inComment then if isPlain c then dropGap true rest else c :: rest
    else if isSpace c then dropGap false rest
    else if c = '#' then dropGap true rest
    else c :: rest

/-- Drops spaces, comments and line ends. -/
def dropGaps (chars : List Char) : List Char := dropGap false chars

/-! ## Texts -/

/-- The character that an escape stands for, and what follows it. -/
def escape? : List Char → Option (Char × List Char)
  | 'b' :: rest => some (Char.ofNat 8, rest)
  | 't' :: rest => some ('\t', rest)
  | 'n' :: rest => some ('\n', rest)
  | 'f' :: rest => some (Char.ofNat 12, rest)
  | 'r' :: rest => some ('\r', rest)
  | 'e' :: rest => some (Char.ofNat 27, rest)
  | '"' :: rest => some ('"', rest)
  | '\\' :: rest => some ('\\', rest)
  | 'x' :: rest => Text.readCode? 2 rest
  | 'u' :: rest => Text.readCode? 4 rest
  | 'U' :: rest => Text.readCode? 8 rest
  | _ => none

/-- Reads a text in double quotes after its opening quote. -/
def readBasic : Nat → List Char → Option (List Char × List Char)
  | 0, _ => none
  | room + 1, chars =>
    match chars with
    | [] => none
    | '"' :: rest => some ([], rest)
    | '\\' :: rest => do
      let (c, rest) ← escape? rest
      let (text, rest) ← readBasic room rest
      return (c :: text, rest)
    | c :: rest =>
      if isPlain c then (readBasic room rest).map fun (text, rest) => (c :: text, rest) else none

/-- Reads a text in single quotes, in which nothing is escaped, after its opening quote. -/
def readLiteral (chars : List Char) : Option (List Char × List Char) :=
  match Text.cutFirst '\'' chars with
  | some (text, rest) => if text.all isPlain then some (text, rest) else none
  | none => none

/-- The spaces and line ends after a backslash at the end of a line are dropped with it. -/
def dropContinuation : Nat → List Char → List Char
  | 0, chars => chars
  | room + 1, chars =>
    match dropLineEnd? (dropSpaces chars) with
    | some rest => dropContinuation room rest
    | none => dropSpaces chars

/-- Reads a text of several lines up to three of its quotes; up to two more may stand before them. -/
def readLong (quote : Char) (escapes : Bool) : Nat → List Char → Option (List Char × List Char)
  | 0, _ => none
  | room + 1, chars =>
    match chars with
    | [] => none
    | c :: rest =>
      let goOn (text rest : List Char) : Option (List Char × List Char) :=
        (readLong quote escapes room rest).map fun (more, rest) => (text ++ more, rest)
      if c = quote then
        let run := (chars.takeWhile (· = quote)).length
        if 3 ≤ run then some (List.replicate (min run 5 - 3) quote, chars.drop (min run 5))
        else goOn (List.replicate run quote) (chars.drop run)
      else if c = '\\' ∧ escapes then
        match dropLineEnd? (dropSpaces rest) with
        | some after => goOn [] (dropContinuation room after)
        | none => (escape? rest).bind fun (c, rest) => goOn [c] rest
      else
        match chars with
        | '\n' :: rest => goOn ['\n'] rest
        | '\r' :: '\n' :: rest => goOn ['\r', '\n'] rest
        | _ => if isPlain c then goOn [c] rest else none

/-- Reads a text in quotes. A text of several lines loses the first if that is empty. `room` is more than the
number of characters that follow. -/
def readText? (room : Nat) (chars : List Char) : Option (List Char × List Char) :=
  match chars with
  | '"' :: '"' :: '"' :: rest => readLong '"' true room ((dropLineEnd? rest).getD rest)
  | '\'' :: '\'' :: '\'' :: rest => readLong '\'' false room ((dropLineEnd? rest).getD rest)
  | '"' :: rest => readBasic room rest
  | '\'' :: rest => readLiteral rest
  | _ => none

/-! ## Documents -/

/-- Whether a character may stand in a key without quotes. -/
def isBare (c : Char) : Bool := c.isAlphanum || c == '_' || c == '-'

def readKey? (chars : List Char) : Option (List Char × List Char) :=
  match chars with
  | '"' :: rest => readBasic (rest.length + 1) rest
  | '\'' :: rest => readLiteral rest
  | _ =>
    let bare := chars.takeWhile isBare
    if bare.isEmpty then none else some (bare, chars.dropWhile isBare)

/-- Reads the texts of a list after its opening bracket. The last may be followed by a comma. -/
def readItems : Nat → List Char → Option (List String × List Char)
  | 0, _ => none
  | room + 1, chars =>
    match dropGaps chars with
    | ']' :: rest => some ([], rest)
    | chars => do
      let (text, rest) ← readText? (room + 1) chars
      match dropGaps rest with
      | ',' :: rest =>
        let (texts, rest) ← readItems room rest
        return (String.ofList text :: texts, rest)
      | ']' :: rest => return ([String.ofList text], rest)
      | _ => none

def readEntry? (chars : List Char) : Option ((String × List String) × List Char) := do
  let (key, rest) ← readKey? chars
  match dropSpaces rest with
  | '=' :: rest =>
    match dropSpaces rest with
    | '[' :: rest =>
      let (texts, rest) ← readItems (rest.length + 1) rest
      return ((String.ofList key, texts), ← finishLine? rest)
    | _ => none
  | _ => none

def readEntries : Nat → List Char → Option (List (String × List String))
  | 0, _ => none
  | room + 1, chars =>
    match dropGaps chars with
    | [] => some []
    | chars => do
      let (entry, rest) ← readEntry? chars
      return entry :: (← readEntries room rest)

/-- The entries of a text, which may start with a byte order mark. -/
def entries? (text : String) : Option (List (String × List String)) :=
  let chars := text.toList
  let chars := if chars.head? = some (Char.ofNat 0xFEFF) then chars.tail else chars
  readEntries (chars.length + 1) chars

end ModuleAudit.Toml
