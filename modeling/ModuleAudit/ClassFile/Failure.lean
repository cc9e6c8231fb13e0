import ModuleAudit.Text.Numeral

/-! # Why a class file cannot be read

One constructor per cause; `Failure.message` is the only place where the causes are worded.
-/

namespace ModuleAudit.ClassFile
set_option autoImplicit false

/-- The reason why a class file, or a descriptor in it, cannot be read. -/
inductive Failure where
  /-- The bytes end inside a structure. -/
  | unexpectedEnd
  /-- The first four bytes are not `CA FE BA BE`. -/
  | badMagic
  /-- A constant has a tag that no constant kind has. -/
  | unknownConstant (tag : Nat)
  /-- An index names no constant, or one of the wrong kind. -/
  | badConstant (index : Nat)
  /-- A text is not a descriptor. -/
  | badDescriptor (text : String)
  /-- No instruction starts with this opcode at this offset of the code. -/
  | badOpcode (opcode offset : Nat)
  /-- An annotation element has a tag that no element kind has. -/
  | badElement (tag : Nat)
  /-- A type annotation has a target that no target kind has. -/
  | badTarget (target : Nat)
  deriving Repr, DecidableEq, Inhabited

def Failure.message : Failure → String
  | .unexpectedEnd => "unexpected end of class file"
  | .badMagic => "invalid class file magic header"
  | .unknownConstant tag => s!"unsupported constant pool tag {tag}"
  | .badConstant index => s!"invalid constant pool index {index}"
  | .badDescriptor text => s!"malformed descriptor: {text}"
  | .badOpcode opcode offset => "invalid opcode 0x" ++ Text.twoHexDigits opcode ++ s!" at offset {offset}"
  | .badElement tag => s!"invalid annotation element tag {tag}"
  | .badTarget target => "invalid type annotation target 0x" ++ Text.twoHexDigits target

end ModuleAudit.ClassFile
