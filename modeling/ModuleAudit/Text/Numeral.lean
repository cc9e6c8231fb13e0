/-! # Numerals

Reading numbers in a radix up to sixteen, and characters by their code points; bytes in hexadecimal.
-/

namespace ModuleAudit.Text
set_option autoImplicit false

/-- The value of a digit, letters counting from ten in either case. -/
def digitValue? (c : Char) : Option Nat :=
  if '0' ≤ c ∧ c ≤ '9' then some (c.toNat - 48)
  else if 'a' ≤ c ∧ c ≤ 'f' then some (c.toNat - 87)
  else if 'A' ≤ c ∧ c ≤ 'F' then some (c.toNat - 55)
  else none

def digitBelow? (radix : Nat) (c : Char) : Option Nat := (digitValue? c).filter (· < radix)

/-- The number that digits write; there has to be one at least. -/
def numeral? (radix : Nat) (digits : List Char) : Option Nat :=
  if digits.isEmpty then none
  else digits.foldlM (fun n c => (digitBelow? radix c).map (n * radix + ·)) 0

def charOfCode? (code : Nat) : Option Char := if code.isValidChar then some (Char.ofNat code) else none

/-- Reads the character whose code point so many hexadecimal digits write. -/
def readCode? (width : Nat) (chars : List Char) : Option (Char × List Char) :=
  if chars.length < width then none
  else ((numeral? 16 (chars.take width)).bind charOfCode?).map (·, chars.drop width)

/-- A byte in two hexadecimal digits. -/
def twoHexDigits (n : Nat) : String :=
  String.ofList [Nat.digitChar (n / 16 % 16), Nat.digitChar (n % 16)]

end ModuleAudit.Text
