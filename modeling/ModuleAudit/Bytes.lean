/-! # Byte strings

File contents are lists of bytes, so that reading a format is recursion on a list. The two readers of
numbers here are the big-endian and little-endian values of a list of bytes.
-/

namespace ModuleAudit
set_option autoImplicit false

/-- The contents of a file, an archive entry or a part of either. -/
abbrev Bytes := List UInt8

namespace Bytes

/-- The number written by `bytes` with the most significant byte first. -/
def bigEndian (bytes : Bytes) : Nat :=
  bytes.foldl (fun value byte => value * 256 + byte.toNat) 0

/-- The number written by `bytes` with the least significant byte first. -/
def littleEndian (bytes : Bytes) : Nat :=
  bytes.foldr (fun byte value => value * 256 + byte.toNat) 0

end Bytes

end ModuleAudit
