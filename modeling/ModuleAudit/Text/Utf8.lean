import ModuleAudit.Bytes

/-! # UTF-8

Two readings of bytes as text. `lossy` reads any bytes: a maximal part that no character starts with
becomes one replacement character. `decode?` reads the bytes that are UTF-8 and refuses all others: they
are the ones that writing the lossy reading gives back.
-/

namespace ModuleAudit.Utf8
set_option autoImplicit false

/-- The character that stands for bytes which are not UTF-8. -/
def replacement : Char := Char.ofNat 0xFFFD

/-- A character whose first bytes were read: the value so far, the number of bytes that follow the next
one, and the range the next one has to be in. -/
structure Pending where
  value : Nat
  more : Nat
  low : UInt8
  high : UInt8
  deriving Repr, DecidableEq

/-- What a byte between characters begins. -/
inductive Lead where
  | ascii (c : Char)
  | pending (p : Pending)
  | none
  deriving Repr, DecidableEq

/-- The ranges of the second byte exclude overlong forms, surrogates and values above the last scalar. -/
def lead (b : UInt8) : Lead :=
  let n := b.toNat
  if n < 0x80 then .ascii (Char.ofNat n)
  else if n < 0xC2 then .none
  else if n < 0xE0 then .pending ⟨n - 0xC0, 0, 0x80, 0xBF⟩
  else if n = 0xE0 then .pending ⟨0, 1, 0xA0, 0xBF⟩
  else if n = 0xED then .pending ⟨0xD, 1, 0x80, 0x9F⟩
  else if n < 0xF0 then .pending ⟨n - 0xE0, 1, 0x80, 0xBF⟩
  else if n = 0xF0 then .pending ⟨0, 2, 0x90, 0xBF⟩
  else if n < 0xF4 then .pending ⟨n - 0xF0, 2, 0x80, 0xBF⟩
  else if n = 0xF4 then .pending ⟨4, 2, 0x80, 0x8F⟩
  else .none

/-- The value of a pending character after one more continuation byte. -/
def Pending.extend (p : Pending) (b : UInt8) : Nat := p.value * 64 + (b.toNat - 0x80)

/-- Lossy reading, with the character whose bytes are not all read yet. -/
def lossyFrom : Option Pending → Bytes → List Char
  | none, [] => []
  | some _, [] => [replacement]
  | pending, b :: rest =>
    match pending with
    | some p =>
      if p.low ≤ b ∧ b ≤ p.high then
        match p.more with
        | 0 => Char.ofNat (p.extend b) :: lossyFrom none rest
        | more + 1 => lossyFrom (some ⟨p.extend b, more, 0x80, 0xBF⟩) rest
      else
        match lead b with
        | .ascii c => replacement :: c :: lossyFrom none rest
        | .pending q => replacement :: lossyFrom (some q) rest
        | .none => replacement :: replacement :: lossyFrom none rest
    | none =>
      match lead b with
      | .ascii c => c :: lossyFrom none rest
      | .pending q => lossyFrom (some q) rest
      | .none => replacement :: lossyFrom none rest

/-- The text of any bytes, with one replacement character per maximal part that is not UTF-8. -/
def lossy (bytes : Bytes) : String := String.ofList (lossyFrom none bytes)

def encode (chars : List Char) : Bytes := chars.flatMap String.utf8EncodeChar

def bytesOf (text : String) : Bytes := encode text.toList

/-- The characters that `bytes` are the UTF-8 form of. -/
def decode? (bytes : Bytes) : Option String :=
  let chars := lossyFrom none bytes
  if encode chars = bytes then some (String.ofList chars) else none

end ModuleAudit.Utf8
