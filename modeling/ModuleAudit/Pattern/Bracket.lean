import ModuleAudit.Pattern.Escape

/-! # Bracketed sets in patterns

A bracketed set is a union of characters, ranges, classes and further bracketed sets, or such unions joined
by set operations. When the case is ignored, each bracketed set and each side of an operation takes in case
variants before it is negated or joined.
-/

namespace ModuleAudit.Pattern
set_option autoImplicit false

/-- The deepest nesting of a pattern that is read. -/
def maximalDepth : Nat := 250

/-! ## Parts of bracketed sets -/

/-- The classes that a bracketed set can name. -/
def namedClass? (name : List Char) : Option CharSet :=
  let upper := (65, 90)
  let lower := (97, 122)
  let digit := (48, 57)
  match String.ofList name with
  | "alnum" => some (.ofRanges [digit, upper, lower])
  | "alpha" => some (.ofRanges [upper, lower])
  | "ascii" => some (.ofRanges [(0, 127)])
  | "blank" => some (.ofRanges [(9, 9), (32, 32)])
  | "cntrl" => some (.ofRanges [(0, 31), (127, 127)])
  | "digit" => some (.ofRanges [digit])
  | "graph" => some (.ofRanges [(33, 126)])
  | "lower" => some (.ofRanges [lower])
  | "print" => some (.ofRanges [(32, 126)])
  | "punct" => some (.ofRanges [(33, 47), (58, 64), (91, 96), (123, 126)])
  | "space" => some .asciiBlanks
  | "upper" => some (.ofRanges [upper])
  | "word" => some .asciiWord
  | "xdigit" => some (.ofRanges [digit, (65, 70), (97, 102)])
  | _ => none

/-- Reads the name of a class such as `[:alpha:]`, after its opening bracket: the class, and whether it is
negated. -/
def readClassName (chars : List Char) : Option ((CharSet × Bool) × List Char) :=
  match chars with
  | ':' :: rest => do
    let negated := rest.head? = some '^'
    let (name, rest) ← Text.cutAtMark [':', ']'] (if negated then rest.tail else rest)
    return ((← namedClass? name, negated), rest)
  | _ => none

/-- A set operation between the parts of a bracketed set. -/
inductive SetOperation where
  | intersection
  | difference
  | symmetricDifference
  deriving Repr, DecidableEq

def SetOperation.apply : SetOperation → CharSet → CharSet → CharSet
  | .intersection, a, b => a.inter b
  | .difference, a, b => a.difference b
  | .symmetricDifference, a, b => a.symmetricDifference b

/-- Reads the sign of a set operation, a character written twice. -/
def readOperation : List Char → Option (SetOperation × List Char)
  | '&' :: '&' :: rest => some (.intersection, rest)
  | '-' :: '-' :: rest => some (.difference, rest)
  | '~' :: '~' :: rest => some (.symmetricDifference, rest)
  | _ => none

/-- A set that was read, and how deep its parts are nested. -/
structure NestedSet where
  set : CharSet
  depth : Nat := 0
  deriving Repr, DecidableEq

/-- The set that is being read between its brackets. -/
structure Bracket where
  negated : Bool
  /-- What stands before the last operation, and that operation. -/
  left : Option (NestedSet × SetOperation) := none
  /-- The parts since then, last first. -/
  parts : List NestedSet := []
  deriving Repr, DecidableEq

namespace Bracket

def add (bracket : Bracket) (part : NestedSet) : Bracket := { bracket with parts := part :: bracket.parts }

/-- The union of the parts since the last operation. More than one part is a nesting. -/
def union (bracket : Bracket) : NestedSet :=
  match bracket.parts with
  | [] => ⟨.nothing, 0⟩
  | [part] => part
  | parts => ⟨.ofRanges (parts.flatMap (·.set.ranges)), (parts.map (·.depth)).foldl max 0 + 1⟩

/-- The set up to here. -/
def whole (bracket : Bracket) (flags : Flags) : NestedSet :=
  match bracket.left with
  | none => bracket.union
  | some (left, operation) =>
    let right := bracket.union
    ⟨operation.apply (flags.cased left.set) (flags.cased right.set), max left.depth right.depth + 1⟩

def operate (bracket : Bracket) (flags : Flags) (operation : SetOperation) : Bracket :=
  { bracket with left := some (bracket.whole flags, operation), parts := [] }

/-- The set of a bracket that ends here, unless it cannot be negated or is nested too deeply. -/
def close? (bracket : Bracket) (flags : Flags) : Option NestedSet := do
  let whole := bracket.whole flags
  let set ← flags.negated? bracket.negated (flags.cased whole.set)
  if whole.depth < maximalDepth then some ⟨set, whole.depth + 1⟩ else none

end Bracket

/-! ## Reading -/

/-- Reads one member of a bracketed set: a character, or a class by its escape. -/
def readMember (flags : Flags) : List Char → Option (Escape × List Char)
  | [] => none
  | '\\' :: rest => readEscape flags rest
  | c :: rest => some (.literal c, rest)

/-- The range of characters from `low` to `high`. Without all scripts it has to be within ASCII. -/
def rangeOf? (flags : Flags) (low high : Char) : Option CharSet :=
  if low ≤ high ∧ (flags.allScripts ∨ high.toNat < 128) then some (.range low high) else none

/-- The character that follows a minus sign after blanks; of a comment its mark alone is passed over. -/
def peek? (flags : Flags) (rest : List Char) : Option Char :=
  if flags.extended then
    match rest.dropWhile isBlank with
    | '#' :: rest => (rest.dropWhile isBlank).head?
    | rest => rest.head?
  else rest.head?

/-- Reads a character, a range of characters or an escaped class of a bracketed set. -/
def readRange (flags : Flags) (chars : List Char) : Option (CharSet × List Char) := do
  let (first, rest) ← readMember flags chars
  let alone : Option (CharSet × List Char) :=
    match first with
    | .literal c => (rangeOf? flags c c).map (·, flags.skip rest)
    | .set set => some (set, flags.skip rest)
    | .place _ => none
  match flags.skip rest with
  | '-' :: more =>
    if peek? flags more = some ']' ∨ peek? flags more = some '-' then alone
    else do
      let (second, rest) ← readMember flags (flags.skip more)
      match first, second with
      | .literal low, .literal high => return (← rangeOf? flags low high, rest)
      | _, _ => none
  | _ => alone

/-- Reads the minus signs that a bracketed set starts with. -/
def readMinuses (flags : Flags) : Nat → Bracket → List Char → Bracket × List Char
  | 0, bracket, chars => (bracket, chars)
  | room + 1, bracket, chars =>
    match chars with
    | '-' :: rest => readMinuses flags room (bracket.add ⟨.single '-', 0⟩) (flags.skip rest)
    | _ => (bracket, chars)

/-- Reads the start of a bracketed set after its opening bracket: the sign of negation, minus signs, and
without those a closing bracket that stands for itself. -/
def openBracket (flags : Flags) (chars : List Char) : Bracket × List Char :=
  let chars := flags.skip chars
  let negated := chars.head? = some '^'
  let chars := if negated then flags.skip chars.tail else chars
  let (bracket, rest) := readMinuses flags chars.length { negated } chars
  match bracket.parts, rest with
  | [], ']' :: rest => (bracket.add ⟨.single ']', 0⟩, flags.skip rest)
  | _, _ => (bracket, rest)

/-- Reads the rest of a bracketed set; `level` brackets may still be opened in it. -/
def readBracketIn (flags : Flags) : Nat → Nat → Bracket → List Char → Option (NestedSet × List Char)
  | 0, _, _, _ => none
  | room + 1, level, bracket, chars =>
    match flags.skip chars with
    | [] => none
    | ']' :: rest => (bracket.close? flags).map (·, rest)
    | '[' :: rest =>
      match readClassName rest with
      | some ((set, negated), rest) => do
        let set ← flags.negated? negated (flags.cased set)
        readBracketIn flags room level (bracket.add ⟨set, 0⟩) rest
      | none =>
        match level with
        | 0 => none
        | level + 1 => do
          let (inner, rest) := openBracket flags rest
          let (set, rest) ← readBracketIn flags room level inner rest
          readBracketIn flags room (level + 1) (bracket.add set) rest
    | chars =>
      match readOperation chars with
      | some (operation, rest) => readBracketIn flags room level (bracket.operate flags operation) rest
      | none => do
        let (set, rest) ← readRange flags chars
        readBracketIn flags room level (bracket.add ⟨set, 0⟩) rest

/-- Reads a bracketed set after its opening bracket. -/
def readBracket (flags : Flags) (chars : List Char) : Option (NestedSet × List Char) :=
  let (bracket, rest) := openBracket flags chars
  readBracketIn flags (rest.length + 1) maximalDepth bracket rest

end ModuleAudit.Pattern
