import ModuleAudit.ClassFile.Scan
import ModuleAudit.Text.Utf8

/-! # The constant pool

Constants refer to each other by index. Index zero and the second index of a long or double hold no
constant. An accessor follows the indices and names the first one at fault.
-/

namespace ModuleAudit.ClassFile
set_option autoImplicit false

/-- What an index of the pool holds. -/
inductive Constant where
  | nothing
  | utf8 (text : String)
  | classRef (name : Nat)
  | string (text : Nat)
  | methodType (descriptor : Nat)
  | memberRef (owner nameAndType : Nat)
  | nameAndType (name descriptor : Nat)
  | dynamicCall (nameAndType : Nat)
  /-- A constant whose contents name no type. -/
  | other
  deriving Repr, DecidableEq, Inhabited

/-- A constant together with the number of indices it takes. -/
inductive Slot where
  | one (constant : Constant)
  /-- A long or a double, which takes two indices. -/
  | two

namespace ConstantPool

open Scan

def slot : Scan Slot := do
  match ← u1 with
  | 1 => do
    let length ← u2
    return .one (.utf8 (Utf8.lossy (← take length)))
  | 3 | 4 => do
    skip 4
    return .one .other
  | 5 | 6 => do
    skip 8
    return .two
  | 7 => return .one (.classRef (← u2))
  | 8 => return .one (.string (← u2))
  | 9 | 10 | 11 => do
    let owner ← u2
    return .one (.memberRef owner (← u2))
  | 12 => do
    let name ← u2
    return .one (.nameAndType name (← u2))
  | 15 => do
    skip 3
    return .one .other
  | 16 => return .one (.methodType (← u2))
  | 17 => do
    skip 4
    return .one .other
  | 18 => do
    skip 2
    return .one (.dynamicCall (← u2))
  | 19 | 20 => do
    skip 2
    return .one .other
  | tag => fail (.unknownConstant tag)

/-- Scans constants until `missing` indices are filled; a last long or double may fill one more. -/
def slots : Nat → Scan (List Constant)
  | 0 => pure []
  | missing + 1 => do
    match ← slot with
    | .one constant => return constant :: (← slots missing)
    | .two =>
      match missing with
      | 0 => return [.other, .nothing]
      | missing + 1 => return .other :: .nothing :: (← slots missing)

end ConstantPool

structure ConstantPool where
  constants : Array Constant
  deriving Repr

namespace ConstantPool

open Scan

/-- Scans a pool: the number of indices, then the constants from index one on. -/
def scan : Scan ConstantPool := do
  let count ← u2
  return ⟨(.nothing :: (← slots (count - 1))).toArray⟩

def get (pool : ConstantPool) (index : Nat) : Except Failure Constant :=
  match pool.constants[index]? with
  | some constant => .ok constant
  | none => .error (.badConstant index)

def utf8 (pool : ConstantPool) (index : Nat) : Except Failure String := do
  match ← pool.get index with
  | .utf8 text => .ok text
  | _ => .error (.badConstant index)

def className (pool : ConstantPool) (index : Nat) : Except Failure String := do
  match ← pool.get index with
  | .classRef name => pool.utf8 name
  | _ => .error (.badConstant index)

/-- The name of the class at `index`, where index zero stands for none. -/
def className? (pool : ConstantPool) (index : Nat) : Except Failure (Option String) :=
  if index = 0 then .ok none else some <$> pool.className index

def nameAndType (pool : ConstantPool) (index : Nat) : Except Failure (String × String) := do
  match ← pool.get index with
  | .nameAndType name descriptor => do
    let name ← pool.utf8 name
    return (name, ← pool.utf8 descriptor)
  | _ => .error (.badConstant index)

/-- The owner, the name and the descriptor of the field or method at `index`. -/
def memberRef (pool : ConstantPool) (index : Nat) : Except Failure (String × String × String) := do
  match ← pool.get index with
  | .memberRef owner nameAndType => do
    let owner ← pool.className owner
    return (owner, ← pool.nameAndType nameAndType)
  | _ => .error (.badConstant index)

/-- The name and the descriptor of the dynamic call at `index`. -/
def dynamicCall (pool : ConstantPool) (index : Nat) : Except Failure (String × String) := do
  match ← pool.get index with
  | .dynamicCall nameAndType => pool.nameAndType nameAndType
  | _ => .error (.badConstant index)

/-- The constant at `index`, which an instruction loads. -/
def loaded (pool : ConstantPool) (index : Nat) : Except Failure LoadedConstant := do
  match ← pool.get index with
  | .classRef name => .classRef <$> pool.utf8 name
  | .string text => .text <$> pool.utf8 text
  | .methodType descriptor => .methodType <$> pool.utf8 descriptor
  | .other => .ok .other
  | _ => .error (.badConstant index)

end ConstantPool

end ModuleAudit.ClassFile
