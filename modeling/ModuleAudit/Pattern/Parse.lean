import ModuleAudit.Pattern.Bracket
import ModuleAudit.Pattern.Weight

/-! # Reading patterns

The written form of a pattern: literals and escapes, `.`, bracketed sets, groups with names or flags,
alternation, the repetitions `*`, `+`, `?` and `{n,m}`, anchors and word edges. Looking around is not part of
the language. A pattern that is nested too deeply or weighs too much is refused.
-/

namespace ModuleAudit.Pattern
set_option autoImplicit false

/-! ## Repetitions -/

/-- How often a part is repeated. -/
structure Bounds where
  least : Nat
  most : Option Nat
  deriving Repr, DecidableEq

/-- Reads digits, between which gaps may be passed over. -/
def readDigits (flags : Flags) : Nat → List Char → List Char × List Char
  | 0, chars => ([], chars)
  | room + 1, chars =>
    match chars with
    | [] => ([], [])
    | c :: rest =>
      if c.isDigit then
        let (digits, rest) := readDigits flags room (flags.skip rest)
        (c :: digits, rest)
      else ([], chars)

/-- Reads a number of 32 bits with blanks around it. -/
def readCount (flags : Flags) (chars : List Char) : Option (Nat × List Char) := do
  let chars := chars.dropWhile isBlank
  let (digits, rest) := readDigits flags chars.length chars
  let count ← Text.numeral? 10 digits
  if 0x100000000 ≤ count then none
  else return (count, if rest.head?.any isBlank then flags.skip (rest.dropWhile isBlank) else rest)

/-- Reads the bounds of a counted repetition after its opening brace. -/
def readBounds (flags : Flags) (chars : List Char) : Option (Bounds × List Char) := do
  let (least, rest) ← readCount flags (flags.skip chars)
  match rest with
  | '\x7d' :: rest => return (⟨least, some least⟩, rest)
  | ',' :: rest =>
    match flags.skip rest with
    | '\x7d' :: rest => return (⟨least, none⟩, rest)
    | rest =>
      match ← readCount flags rest with
      | (most, '\x7d' :: rest) => if least ≤ most then return (⟨least, some most⟩, rest) else none
      | _ => none
  | _ => none

/-- Drops a question mark, which makes a repetition prefer less and changes nothing in what is found. -/
def dropLazy : List Char → List Char
  | '?' :: rest => rest
  | chars => chars

/-- Reads the bounds of a repetition at the front of the text, if there is one. -/
def readRepetition (flags : Flags) : List Char → Option (Option (Bounds × List Char))
  | '*' :: rest => some (some (⟨0, none⟩, dropLazy rest))
  | '+' :: rest => some (some (⟨1, none⟩, dropLazy rest))
  | '?' :: rest => some (some (⟨0, some 1⟩, dropLazy rest))
  | '\x7b' :: rest =>
    (readBounds flags rest).map fun (bounds, rest) => some (bounds, dropLazy (flags.skip rest))
  | _ => some none

/-! ## Parts -/

structure Part where
  pattern : Pattern
  /-- How deep it is nested. -/
  depth : Nat := 0
  /-- Whether it is a setting of flags, which cannot be repeated. -/
  isSetting : Bool := false
  deriving Repr, DecidableEq

namespace Part

/-- Parts in a row, of which the last comes first. More than one part is a nesting. -/
def sequence (parts : List Part) : Part :=
  match parts with
  | [] => { pattern := .empty }
  | [part] => part
  | parts =>
    { pattern := parts.foldl (fun after part =>
        match part.pattern, after with
        | .empty, after => after
        | first, .empty => first
        | first, after => .both first after) .empty
      depth := (parts.map (·.depth)).foldl max 0 + 1 }

/-- Alternatives, of which the last comes first. More than one alternative is a nesting. -/
def alternatives (last : Part) (before : List Part) : Part :=
  match before with
  | [] => last
  | before =>
    { pattern := before.foldl (fun after part => .either part.pattern after) last.pattern
      depth := (before.map (·.depth)).foldl max last.depth + 1 }

/-- A pattern built around a part. -/
def nested (part : Part) (pattern : Pattern) : Part := { pattern, depth := part.depth + 1 }

/-- A part repeated, if it can be. -/
def repeated? (part : Part) (bounds : Bounds) : Option Part :=
  if part.isSetting then none else some (part.nested (.iter part.pattern bounds.least bounds.most))

end Part

/-- Reads a part that is no group and no repetition. -/
def readAtom (flags : Flags) (chars : List Char) : Option (Part × List Char) :=
  let literal (c : Char) : Part := { pattern := .one (flags.cased (.single c)) }
  match chars with
  | [] => none
  | '.' :: rest => flags.dot?.map fun set => ({ pattern := .one set }, rest)
  | '^' :: rest => some ({ pattern := .edge flags.start }, rest)
  | '$' :: rest => some ({ pattern := .edge flags.finish }, rest)
  | '[' :: rest =>
    (readBracket flags rest).map fun (set, rest) => ({ pattern := .one set.set, depth := set.depth }, rest)
  | '\\' :: rest => (readEscape flags rest).map fun
    | (.literal c, rest) => (literal c, rest)
    | (.set set, rest) => ({ pattern := .one set }, rest)
    | (.place place, rest) => ({ pattern := .edge place }, rest)
  | c :: rest => some (literal c, rest)

/-! ## Groups -/

def isGroupName : List Char → Bool
  | [] => false
  | c :: rest =>
    (c = '_' || CharSet.alphabetic.holds c)
      && rest.all fun c => CharSet.alphanumeric.holds c || ['_', '.', '[', ']'].contains c

/-- How a group opens. -/
inductive Opening where
  /-- A group that is remembered, by its name if it has one. -/
  | group (name : Option (List Char))
  /-- A group with flags of its own. -/
  | flagged (flags : Flags)
  /-- No group but a setting of flags for the rest of the group around it. -/
  | setting (flags : Flags)
  deriving Repr, DecidableEq

/-- Reads the opening of a group after its parenthesis. Looking around fails on its sign, which is neither a
flag nor part of a name. -/
def readOpening (flags : Flags) (chars : List Char) : Option (Opening × List Char) := do
  match flags.skip chars with
  | '?' :: rest =>
    let named := (Text.afterMark? ['P', '<'] rest).or (Text.afterMark? ['<'] rest)
    match named with
    | some rest =>
      let (name, rest) ← Text.cutFirst '>' rest
      if isGroupName name then return (.group (some name), rest) else none
    | none =>
      match ← readFlags flags [] true rest with
      | (flags, ':', rest) => return (.flagged flags, rest)
      | (flags, _, rest) => return (.setting flags, rest)
  | chars => return (.group none, chars)

/-- What a group holds when it is being read. -/
structure Progress where
  /-- The names given to groups so far. -/
  names : List (List Char) := []
  /-- The alternatives before this one, last first. -/
  alternatives : List Part := []
  /-- The parts of this alternative, last first. -/
  parts : List Part := []

namespace Progress

def add (progress : Progress) (part : Part) : Progress := { progress with parts := part :: progress.parts }

/-- The contents of a group that ends here. -/
def close (progress : Progress) : Part := .alternatives (.sequence progress.parts) progress.alternatives

/-- The group with another alternative begun. -/
def alternate (progress : Progress) : Progress :=
  { progress with alternatives := .sequence progress.parts :: progress.alternatives, parts := [] }

end Progress

/-- Reads a group up to its closing parenthesis, or up to the end of the text outside of any group. `level` is
the number of groups around. -/
def readGroup : Nat → Flags → Nat → Progress → List Char → Option (Part × List (List Char) × List Char)
  | 0, _, _, _, _ => none
  | room + 1, flags, level, progress, chars =>
    match flags.skip chars with
    | [] => if level = 0 then some (progress.close, progress.names, []) else none
    | ')' :: rest => if level = 0 then none else some (progress.close, progress.names, rest)
    | '|' :: rest => readGroup room flags level progress.alternate rest
    | '(' :: rest => do
      let inside (flags : Flags) (names : List (List Char)) (rest : List Char) :=
        if level < maximalDepth then readGroup room flags (level + 1) { names } rest else none
      match ← readOpening flags rest with
      | (.setting flags, rest) =>
        readGroup room flags level (progress.add { pattern := .empty, isSetting := true }) rest
      | (.flagged inner, rest) =>
        let (part, names, rest) ← inside inner progress.names rest
        readGroup room flags level { progress.add (part.nested part.pattern) with names } rest
      | (.group name, rest) =>
        if name.any progress.names.contains then none
        else do
          let (part, names, rest) ← inside flags (name.toList ++ progress.names) rest
          readGroup room flags level { progress.add (part.nested (.group part.pattern)) with names } rest
    | chars => do
      match ← readRepetition flags chars with
      | some (bounds, rest) =>
        match progress.parts with
        | part :: parts =>
          let part ← part.repeated? bounds
          readGroup room flags level { progress with parts := part :: parts } rest
        | [] => none
      | none =>
        let (part, rest) ← readAtom flags chars
        readGroup room flags level (progress.add part) rest

/-- The pattern that a text writes. -/
def parse? (text : String) : Option Pattern := do
  let chars := text.toList
  let (part, _) ← readGroup (chars.length + 1) {} 0 {} chars
  if part.depth ≤ maximalDepth ∧ part.pattern.weight ≤ maximalWeight then some part.pattern else none

/-- The patterns that texts write, or the first text that writes none. -/
def parseAll : List String → Except String (List Pattern)
  | [] => .ok []
  | text :: texts =>
    match parse? text with
    | none => .error text
    | some pattern => (parseAll texts).map (pattern :: ·)

end ModuleAudit.Pattern
