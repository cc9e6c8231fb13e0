import ModuleAudit.ClassFile.Annotations

/-! # Code

The instructions of a method, with the constants they use. The length of an instruction follows from its
opcode, except that the operands of a switch are aligned to four bytes from the start of the code.
-/

namespace ModuleAudit.ClassFile
set_option autoImplicit false

open Scan

def attributeEntry (pool : ConstantPool) : Scan (String × Bytes) := do
  let name ← answer (pool.utf8 (← u2))
  let length ← u4
  return (name, ← take length)

namespace Code

/-- The number of operand bytes of the opcodes whose operands name nothing. -/
def plainOperands (opcode : Nat) : Option Nat :=
  if opcode ≤ 0x0F then some 0
  else if opcode = 0x10 then some 1
  else if opcode = 0x11 then some 2
  else if opcode < 0x15 then none
  else if opcode ≤ 0x19 then some 1
  else if opcode ≤ 0x35 then some 0
  else if opcode ≤ 0x3A then some 1
  else if opcode ≤ 0x83 then some 0
  else if opcode = 0x84 then some 2
  else if opcode ≤ 0x98 then some 0
  else if opcode ≤ 0xA8 then some 2
  else if opcode = 0xA9 then some 1
  else if opcode < 0xAC then none
  else if opcode ≤ 0xB1 then some 0
  else if opcode = 0xBC then some 1
  else if opcode = 0xBE ∨ opcode = 0xBF ∨ opcode = 0xC2 ∨ opcode = 0xC3 then some 0
  else if opcode = 0xC6 ∨ opcode = 0xC7 then some 2
  else if opcode = 0xC8 ∨ opcode = 0xC9 then some 4
  else none

/-- The number of operand bytes after `wide` and the opcode that it widens. -/
def wideOperands (opcode : Nat) : Option Nat :=
  if opcode = 0x84 then some 4
  else if (0x15 ≤ opcode ∧ opcode ≤ 0x19) ∨ (0x36 ≤ opcode ∧ opcode ≤ 0x3A) ∨ opcode = 0xA9 then some 2
  else none

/-- The number of bytes between a switch opcode at `offset` and its aligned operands. -/
def switchPadding (offset : Nat) : Nat := (4 - (offset + 1) % 4) % 4

/-- Scans the operands of the instruction `opcode` at `offset`. -/
def operands (pool : ConstantPool) (offset opcode : Nat) : Scan Unit :=
  match opcode with
  -- load a constant
  | 0x12 => do
    let constant ← answer (pool.loaded (← u1))
    report (.load constant)
  | 0x13 | 0x14 => do
    let constant ← answer (pool.loaded (← u2))
    report (.load constant)
  -- switch by a table of a range
  | 0xAA => do
    skip (switchPadding offset)
    skip 4
    let low ← i4
    let high ← i4
    if high < low then fail (.badOpcode opcode offset)
    else skip ((high - low + 1).toNat * 4)
  -- switch by pairs
  | 0xAB => do
    skip (switchPadding offset)
    skip 4
    let pairs ← i4
    if pairs < 0 then fail (.badOpcode opcode offset)
    else skip (pairs.toNat * 8)
  -- read or write a field
  | 0xB2 | 0xB3 | 0xB4 | 0xB5 => do
    let (owner, name, descriptor) ← answer (pool.memberRef (← u2))
    report (.fieldUse opcode owner name descriptor)
  -- call a method
  | 0xB6 | 0xB7 | 0xB8 => do
    let (owner, name, descriptor) ← answer (pool.memberRef (← u2))
    report (.methodUse opcode owner name descriptor)
  | 0xB9 => do
    let (owner, name, descriptor) ← answer (pool.memberRef (← u2))
    skip 2
    report (.methodUse opcode owner name descriptor)
  | 0xBA => do
    let (name, descriptor) ← answer (pool.dynamicCall (← u2))
    skip 2
    report (.dynamicCall name descriptor)
  -- create, cast or test
  | 0xBB | 0xBD | 0xC0 | 0xC1 => do
    let type ← answer (pool.className (← u2))
    report (.typeUse opcode type)
  | 0xC4 => do
    let inner ← u1
    match wideOperands inner with
    | some n => skip n
    | none => fail (.badOpcode inner (offset + 1))
  | 0xC5 => do
    let descriptor ← answer (pool.className (← u2))
    let dimensions ← u1
    report (.arrayCreation descriptor dimensions)
  | _ =>
    match plainOperands opcode with
    | some n => skip n
    | none => fail (.badOpcode opcode offset)

/-- Scans instructions up to the end of code of `size` bytes, of which at most `room` are unread. -/
def instructionsIn (pool : ConstantPool) (size : Nat) : Nat → Scan Unit
  | 0 => pure ()
  | room + 1 => do
    let left ← unread
    if left = 0 then return
    let opcode ← u1
    operands pool (size - left) opcode
    instructionsIn pool size room

/-- Scans the instructions of a method's code. -/
def instructions (pool : ConstantPool) : Scan Unit := bounded fun size => instructionsIn pool size size

def handler (pool : ConstantPool) : Scan Unit := do
  skip 6
  let type ← answer (pool.className? (← u2))
  report (.handler type)

def localVariables (pool : ConstantPool) : Scan Unit := do
  let count ← u2
  times count do
    skip 4
    let name ← answer (pool.utf8 (← u2))
    let descriptor ← answer (pool.utf8 (← u2))
    skip 2
    report (.localVariable name descriptor)

/-- Scans the body of a method's code attribute. -/
def scan (pool : ConstantPool) : Scan Unit := do
  skip 4
  let length ← u4
  let code ← take length
  within code (instructions pool)
  let handlers ← u2
  times handlers (handler pool)
  let attributes ← u2
  times attributes do
    let (name, body) ← attributeEntry pool
    if name = "LocalVariableTable" then within body (localVariables pool)
    else if name = "RuntimeVisibleTypeAnnotations" ∨ name = "RuntimeInvisibleTypeAnnotations" then
      within body (Annotations.ofTypes pool)
    else pure ()

end Code

end ModuleAudit.ClassFile
