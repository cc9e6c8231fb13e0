import ModuleAudit.Text.Alphabetic
import ModuleAudit.Text.CaseFolding
import ModuleAudit.Text.GeneralCategory

/-! # Sets of characters

The sets that a pattern can name, as ranges of code points in order. The ranges do not touch each other, so
equal sets have equal ranges.
-/

namespace ModuleAudit
set_option autoImplicit false

/-- Joins ranges that overlap or touch; the ranges come in order of their low ends, and one range is held
back. -/
def mergeRanges (low high : Nat) : List (Nat × Nat) → List (Nat × Nat)
  | [] => [(low, high)]
  | (low', high') :: rest =>
    if low' ≤ high + 1 then mergeRanges low (max high high') rest
    else (low, high) :: mergeRanges low' high' rest

/-- The gaps between ranges that come in order, from `start` to the last code point. -/
def gapsFrom (start : Nat) : List (Nat × Nat) → List (Nat × Nat)
  | [] => if start ≤ 0x10FFFF then [(start, 0x10FFFF)] else []
  | (low, high) :: rest =>
    if start < low then (start, low - 1) :: gapsFrom (high + 1) rest else gapsFrom (high + 1) rest

structure CharSet where
  ranges : List (Nat × Nat)
  deriving Repr, DecidableEq

namespace CharSet

def holds (set : CharSet) (c : Char) : Bool :=
  set.ranges.any fun (low, high) => low ≤ c.toNat && c.toNat ≤ high

/-- The set of the code points in ranges that come in any order. -/
def ofRanges (ranges : List (Nat × Nat)) : CharSet :=
  match ranges.mergeSort fun a b => a.1 ≤ b.1 with
  | [] => ⟨[]⟩
  | (low, high) :: rest => ⟨mergeRanges low high rest⟩

def nothing : CharSet := ⟨[]⟩

def everything : CharSet := ⟨[(0, 0x10FFFF)]⟩

/-- The set of the characters from `low` to `high`. -/
def range (low high : Char) : CharSet := ⟨[(low.toNat, high.toNat)]⟩

def single (c : Char) : CharSet := range c c

def ofList (chars : List Char) : CharSet := ofRanges (chars.map fun c => (c.toNat, c.toNat))

def union (a b : CharSet) : CharSet := ofRanges (a.ranges ++ b.ranges)

def complement (a : CharSet) : CharSet := ⟨gapsFrom 0 a.ranges⟩

def inter (a b : CharSet) : CharSet := (a.complement.union b.complement).complement

def difference (a b : CharSet) : CharSet := a.inter b.complement

/-- The characters that are in one of the two sets only. -/
def symmetricDifference (a b : CharSet) : CharSet := (a.difference b).union (b.difference a)

/-- The characters that have a case variant in the set. -/
def anyCase (rows : List FoldingRow) (a : CharSet) : CharSet := ofRanges (caseVariants rows a.ranges)

/-! ## Named sets -/

def asciiDigits : CharSet := range '0' '9'

/-- The ASCII letters, digits and the underscore. -/
def asciiWord : CharSet := ofRanges [(48, 57), (65, 90), (95, 95), (97, 122)]

def asciiBlanks : CharSet := ofRanges [(9, 13), (32, 32)]

/-- The set of the characters in rows of code points. -/
def ofRows (rows : List CodeRow) : CharSet := ofRanges (rangesOfRows rows)

/-- The decimal digits of all scripts. -/
def digits : CharSet := ofRows decimalNumberRows

def alphabetic : CharSet := ofRanges (rangesOfRows (letterRows ++ letterNumberRows) ++ otherAlphabeticRanges)

/-- The alphabetic characters and the numbers. -/
def alphanumeric : CharSet := alphabetic.union (ofRows numberRows)

/-- The two characters that join others without being seen. -/
def joiners : CharSet := ofRanges [(0x200C, 0x200D)]

/-- The characters that words are made of: alphabetic characters, marks, decimal digits, connecting
punctuation and joiners. -/
def word : CharSet :=
  ofRanges
    (alphabetic.ranges ++ rangesOfRows (markRows ++ decimalNumberRows ++ connectorPunctuationRows)
      ++ joiners.ranges)

/-- The blank characters of all scripts. -/
def blanks : CharSet :=
  ofRanges
    [(9, 13), (32, 32), (0x85, 0x85), (0xA0, 0xA0), (0x1680, 0x1680), (0x2000, 0x200A), (0x2028, 0x2029),
      (0x202F, 0x202F), (0x205F, 0x205F), (0x3000, 0x3000)]

end CharSet

end ModuleAudit
