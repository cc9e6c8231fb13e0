import ModuleAudit.Markup.Token
import ModuleAudit.Text.Utf8

/-! # Spans of text

Where tokens stand in a text, in bytes, and cutting spans out of a text.
-/

namespace ModuleAudit.Markup
set_option autoImplicit false

/-- The bytes from `start` up to `stop`. -/
structure Span where
  start : Nat
  stop : Nat
  deriving Repr, DecidableEq

def Span.holds (span : Span) (offset : Nat) : Bool := span.start ≤ offset && offset < span.stop

def byteLength (chars : List Char) : Nat := (chars.map Char.utf8Size).foldl (· + ·) 0

/-- Whether an offset into a text lies between two characters, or at an end. -/
def isBoundary (offset : Nat) : List Char → Bool
  | [] => offset = 0
  | c :: rest => offset = 0 || (c.utf8Size ≤ offset && isBoundary (offset - c.utf8Size) rest)

/-- Whether a span of a text holds whole characters. -/
def Span.isWhole (span : Span) (text : List Char) : Bool :=
  isBoundary span.start text && isBoundary span.stop text

/-- Tokens with their spans, when the first starts at an offset. -/
def locate : Nat → List Token → List (Token × Span)
  | _, [] => []
  | offset, token :: rest =>
    let stop := offset + byteLength token.written
    (token, ⟨offset, stop⟩) :: locate stop rest

/-- The characters of a text whose offset satisfies `p`, when the first stands at an offset. -/
def selectFrom (p : Nat → Bool) : Nat → List Char → List Char
  | _, [] => []
  | offset, c :: rest =>
    let kept := selectFrom p (offset + c.utf8Size) rest
    if p offset then c :: kept else kept

/-- The part of a text in a span. -/
def slice (span : Span) (text : List Char) : List Char := selectFrom span.holds 0 text

/-- A text without the parts in the spans. -/
def cutOut (spans : List Span) (text : List Char) : List Char :=
  selectFrom (fun offset => !spans.any (·.holds offset)) 0 text

end ModuleAudit.Markup
