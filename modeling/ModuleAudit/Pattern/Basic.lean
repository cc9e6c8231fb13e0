import ModuleAudit.Pattern.CharSet

/-! # Patterns

A pattern says which stretches of a text match. Laid over a text, its sets and conditions become sets of
positions. A set of positions is a number whose bit `i` stands for position `i`, so that one step of a match
from all of them at once is a shift. A text is found when a match starts anywhere.
-/

namespace ModuleAudit
set_option autoImplicit false

/-! ## Conditions on positions -/

/-- A condition on how a position lies to the words of a text. -/
inductive WordEdge where
  /-- A word starts or ends there. -/
  | boundary
  | noBoundary
  | start
  | finish
  /-- There is no word before it. -/
  | startHalf
  /-- There is no word after it. -/
  | finishHalf
  deriving Repr, DecidableEq

/-- A condition on a position of a text. -/
inductive Place where
  | textStart
  | textEnd
  /-- A line starts there; `returns` says that carriage returns end lines too. -/
  | lineStart (returns : Bool)
  | lineEnd (returns : Bool)
  /-- A condition on words made of the characters of a set. -/
  | words (edge : WordEdge) (word : CharSet)
  deriving Repr, DecidableEq

/-- Whether the condition holds between a word character or none and the next. -/
def WordEdge.holds (edge : WordEdge) (before after : Bool) : Bool :=
  match edge with
  | .boundary => before != after
  | .noBoundary => before == after
  | .start => !before && after
  | .finish => before && !after
  | .startHalf => !before
  | .finishHalf => !after

/-- Whether the condition holds between two characters, of which one is missing at an end of the text. A
carriage return and a line feed after it end one line. -/
def Place.holds (place : Place) (before after : Option Char) : Bool :=
  match place with
  | .textStart => before.isNone
  | .textEnd => after.isNone
  | .lineStart returns =>
    before.isNone || before == some '\n' || (returns && before == some '\r' && after != some '\n')
  | .lineEnd returns =>
    if returns then after.isNone || after == some '\r' || (after == some '\n' && before != some '\r')
    else after.isNone || after == some '\n'
  | .words edge word => edge.holds (before.any word.holds) (after.any word.holds)

/-! ## Patterns -/

inductive Pattern where
  /-- The empty stretch. -/
  | empty
  /-- One character of a set. -/
  | one (set : CharSet)
  /-- The empty stretch at such a place. -/
  | edge (place : Place)
  | both (first second : Pattern)
  | either (first second : Pattern)
  /-- At least `least` and at most `most` stretches in a row. -/
  | iter (pattern : Pattern) (least : Nat) (most : Option Nat)
  /-- A stretch that is remembered. -/
  | group (pattern : Pattern)
  deriving Repr, DecidableEq

/-- A pattern laid over a text. -/
inductive Overlay where
  | empty
  /-- One character, from one of the positions. -/
  | step (positions : Nat)
  /-- The empty stretch at one of the positions. -/
  | stay (positions : Nat)
  | both (first second : Overlay)
  | either (first second : Overlay)
  | iter (pattern : Overlay) (least : Nat) (most : Option Nat)
  deriving Repr, DecidableEq

/-- The positions before the characters that satisfy `p`. -/
def positionsBefore (p : Char → Bool) : List Char → Nat
  | [] => 0
  | c :: rest => 2 * positionsBefore p rest + (p c).toNat

/-- The positions between characters that satisfy `p`, after a first character or none. -/
def positionsBetween (p : Option Char → Option Char → Bool) (before : Option Char) : List Char → Nat
  | [] => (p before none).toNat
  | c :: rest => 2 * positionsBetween p (some c) rest + (p before (some c)).toNat

/-- The pattern laid over a text. -/
def Pattern.over (text : List Char) : Pattern → Overlay
  | .empty => .empty
  | .one set => .step (positionsBefore set.holds text)
  | .edge place => .stay (positionsBetween place.holds none text)
  | .both first second => .both (first.over text) (second.over text)
  | .either first second => .either (first.over text) (second.over text)
  | .iter pattern least most => .iter (pattern.over text) least most
  | .group pattern => pattern.over text

/-! ## Matches -/

/-- Positions reached by exactly `n` steps, where a step leads from positions to positions. -/
def reachedAfter (step : Nat → Nat) : Nat → Nat → Nat
  | 0, positions => positions
  | n + 1, positions =>
    let next := step positions
    if next = positions then positions else reachedAfter step n next

/-- Positions reached by up to `n` steps, of which those in `fresh` were reached last. -/
def reachedWithin (step : Nat → Nat) : Nat → Nat → Nat → Nat
  | 0, reached, _ => reached
  | n + 1, reached, fresh =>
    let all := reached ||| step fresh
    if all = reached then reached else reachedWithin step n all (all ^^^ reached)

/-- Where matches in a text of `size` characters that start at one of the positions end. -/
def Overlay.ends (size : Nat) : Overlay → Nat → Nat
  | .empty, positions => positions
  | .step held, positions => 2 * (positions &&& held)
  | .stay held, positions => positions &&& held
  | .both first second, positions => second.ends size (first.ends size positions)
  | .either first second, positions => first.ends size positions ||| second.ends size positions
  | .iter pattern least most, positions =>
    let started := reachedAfter (pattern.ends size) least positions
    -- a match never leaves the text, so there are at most as many new positions as characters
    let room := (most.map (· - least)).getD (size + 1)
    reachedWithin (pattern.ends size) room started started

/-- Whether the pattern matches somewhere in the text. -/
def Pattern.finds (pattern : Pattern) (text : String) : Bool :=
  let chars := text.toList
  (pattern.over chars).ends chars.length (1 <<< (chars.length + 1) - 1) != 0

end ModuleAudit
