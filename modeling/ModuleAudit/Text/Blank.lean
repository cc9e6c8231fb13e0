/-! # Blank characters

The characters with the Unicode property `White_Space`, trimming by it, and the four blanks of markup.
-/

namespace ModuleAudit
set_option autoImplicit false

/-- The Unicode property `White_Space`. -/
def isBlank (c : Char) : Bool :=
  let n := c.toNat
  (9 ≤ n && n ≤ 13) || n == 0x20 || n == 0x85 || n == 0xA0 || n == 0x1680 ||
    (0x2000 ≤ n && n ≤ 0x200A) || n == 0x2028 || n == 0x2029 || n == 0x202F || n == 0x205F || n == 0x3000

/-- The blanks between the parts of a tag: space, tab, line feed and carriage return. -/
def isTagBlank (c : Char) : Bool := c == ' ' || c == '\t' || c == '\n' || c == '\r'

namespace Text

/-- Drops the last characters that satisfy `p`. -/
def dropEndWhile (p : Char → Bool) (chars : List Char) : List Char :=
  (chars.reverse.dropWhile p).reverse

def trim (chars : List Char) : List Char := dropEndWhile isBlank (chars.dropWhile isBlank)

/-- A text without the blank characters at its ends. -/
def trimmed (text : String) : String := String.ofList (trim text.toList)

end Text

end ModuleAudit
