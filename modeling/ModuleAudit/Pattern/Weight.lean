import ModuleAudit.Pattern.Basic

/-! # Weights of patterns

The weight of a pattern is how many bytes an automaton over the UTF-8 form of texts takes for it. A counted
repetition weighs as much as its copies, so patterns with large counts weigh too much to be used.
-/

namespace ModuleAudit
set_option autoImplicit false

/-! ## Sets as ranges of bytes -/

/-- A range of code points cut in two after `last`, if that lies within it. -/
def cutAfter (range : Nat × Nat) (last : Nat) : Option ((Nat × Nat) × (Nat × Nat)) :=
  if range.1 ≤ last ∧ last < range.2 then some ((range.1, last), (last + 1, range.2)) else none

/-- Where a range has to be cut so that each byte of the UTF-8 forms of its code points runs through a range
of its own: between forms of unequal length, around the surrogates, and where a byte does not run from its
least to its largest value below another byte that changes. -/
def rangeCut? (range : Nat × Nat) : Option ((Nat × Nat) × (Nat × Nat)) :=
  let fixed := [0x7F, 0x7FF, 0xD7FF, 0xDFFF, 0xFFFF].findSome? (cutAfter range)
  let aligned := [64, 4096, 262144].findSome? fun size =>
    if range.1 / size = range.2 / size ∨ range.2 < 128 then none
    else if range.1 % size ≠ 0 then cutAfter range (range.1 / size * size + (size - 1))
    else if range.2 % size ≠ size - 1 then cutAfter range (range.2 / size * size - 1)
    else none
  fixed.or aligned

/-- The bytes of the UTF-8 form of a code point. -/
def utf8Bytes (n : Nat) : List Nat :=
  if n < 0x80 then [n]
  else if n < 0x800 then [0xC0 + n / 64, 0x80 + n % 64]
  else if n < 0x10000 then [0xE0 + n / 4096, 0x80 + n / 64 % 64, 0x80 + n % 64]
  else [0xF0 + n / 262144, 0x80 + n / 4096 % 64, 0x80 + n / 64 % 64, 0x80 + n % 64]

/-- The ranges of bytes of a range of code points; there is room for the cuts it may need. -/
def byteRangesIn : Nat → Nat × Nat → List (List (Nat × Nat))
  | 0, _ => []
  | room + 1, range =>
    match rangeCut? range with
    | some (first, second) => byteRangesIn room first ++ byteRangesIn room second
    | none =>
      if 0xD800 ≤ range.1 ∧ range.2 ≤ 0xDFFF then [] else [(utf8Bytes range.1).zip (utf8Bytes range.2)]

/-- The ranges of bytes of a set. -/
def CharSet.byteRanges (set : CharSet) : List (List (Nat × Nat)) := set.ranges.flatMap (byteRangesIn 24)

/-- The length of the longest beginning of two rows. -/
def sharedLength : List (Nat × Nat) → List (Nat × Nat) → Nat
  | a :: as, b :: bs => if a = b then sharedLength as bs + 1 else 0
  | _, _ => 0

/-- How many nodes it takes to hold rows that come in order, where rows share what they begin with. -/
def nodesAfter (previous : List (Nat × Nat)) : List (List (Nat × Nat)) → Nat
  | [] => 0
  | row :: rows => row.length - sharedLength previous row + nodesAfter row rows

/-! ## Weights -/

/-- The bytes of one state of an automaton. -/
def stateWeight : Nat := 32

/-- The bytes of a choice between two next states. -/
def choiceWeight : Nat := stateWeight + 8

/-- The weight of a set: one state for each byte of a single character; a state with its transitions and an
end for ASCII characters; and else a tree of bytes. -/
def CharSet.weight (set : CharSet) : Nat :=
  match set.ranges with
  | [] => stateWeight
  | ranges =>
    let rows := set.byteRanges
    if ranges.all fun (_, high) => high < 128 then
      match ranges with
      | [(low, high)] => if low = high then stateWeight else 2 * stateWeight + 8
      | _ => 2 * stateWeight + 8 * ranges.length
    else if rows.length = 1 ∧ ranges.all fun (low, high) => low = high then
      (rows.map List.length).foldl (· + ·) 0 * stateWeight
    else (2 + nodesAfter [] rows) * stateWeight + 4 * rows.length

namespace Pattern

/-- Whether the pattern matches the empty stretch at most. -/
def onlyEmpty : Pattern → Bool
  | .empty => true
  | .one _ => false
  | .edge _ => true
  | .both first second => first.onlyEmpty && second.onlyEmpty
  | .either first second => first.onlyEmpty && second.onlyEmpty
  | .iter pattern _ most => most == some 0 || pattern.onlyEmpty
  | .group pattern => pattern.onlyEmpty

/-- The weight of copies of a part that weighs `weight`. -/
def copiesWeight (weight least : Nat) : Option Nat → Nat
  | none => (max least 1) * weight + choiceWeight
  | some most => least * weight + (most - least) * (weight + choiceWeight)

/-- The weight of a pattern. What matches the empty stretch only is repeated once at most. -/
def weight : Pattern → Nat
  | .empty => 0
  | .one set => set.weight
  | .edge _ => stateWeight
  | .both first second => first.weight + second.weight
  | .either first second => first.weight + second.weight + choiceWeight
  | .iter pattern least most =>
    if pattern.onlyEmpty then copiesWeight pattern.weight (min least 1) ((most.map (min · 1)).getD 1)
    else if most = some 0 then 0
    else copiesWeight pattern.weight least most
  | .group pattern => pattern.weight + 2 * stateWeight

/-- The largest weight of a pattern that is used. -/
def maximalWeight : Nat := 10 * 1024 * 1024

end Pattern

end ModuleAudit
