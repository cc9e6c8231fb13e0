import ModuleAudit.Bytes

/-! # The checksum of archive entries

The cyclic redundancy check over 32 bits with the reversed polynomial `EDB88320`.
-/

namespace ModuleAudit.Archive
set_option autoImplicit false

/-- One bit of the division. -/
def checksumBit (remainder : UInt32) : UInt32 :=
  if remainder &&& 1 = 1 then (remainder >>> 1) ^^^ 0xEDB88320 else remainder >>> 1

/-- The bits of one byte. -/
def checksumByte (remainder : UInt32) (byte : UInt8) : UInt32 :=
  (List.range 8).foldl (fun remainder _ => checksumBit remainder) (remainder ^^^ byte.toUInt32)

def checksum (bytes : Bytes) : Nat := ((bytes.foldl checksumByte 0xFFFFFFFF) ^^^ 0xFFFFFFFF).toNat

end ModuleAudit.Archive
