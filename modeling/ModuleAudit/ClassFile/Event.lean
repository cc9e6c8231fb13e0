/-! # What a class file says about other types

Reading a class file reports one event per place that names a type, in the order of the file.
-/

namespace ModuleAudit.ClassFile
set_option autoImplicit false

inductive AnnotationSite where
  | ofClass
  | ofField
  | ofMethod
  | parameter
  | typeUse
  | localVariable
  | tryCatch
  | instruction
  /-- Inside the default value of an annotation's method. -/
  | defaultValue
  deriving Repr, DecidableEq

/-- A constant that an instruction loads. -/
inductive LoadedConstant where
  /-- An internal class name, or an array descriptor. -/
  | classRef (name : String)
  | text (value : String)
  | methodType (descriptor : String)
  /-- A number, a method handle or a computed constant. -/
  | other
  deriving Repr, DecidableEq

/-- One thing that a class file mentions. Names are internal (`a/b/C`). -/
inductive Event where
  | header (access : Nat) (name : String) (superName : Option String) (interfaces : List String)
  | field (access : Nat) (name descriptor : String)
  | method (access : Nat) (name descriptor : String)
  | annotated (site : AnnotationSite) (descriptor : String)
  /-- A class literal inside an annotation. -/
  | classLiteral (descriptor : String)
  | methodUse (opcode : Nat) (owner name descriptor : String)
  | typeUse (opcode : Nat) (type : String)
  | fieldUse (opcode : Nat) (owner name descriptor : String)
  | dynamicCall (name descriptor : String)
  | arrayCreation (descriptor : String) (dimensions : Nat)
  | load (constant : LoadedConstant)
  | localVariable (name descriptor : String)
  /-- An exception handler; one without a type handles everything. -/
  | handler (type : Option String)
  deriving Repr, DecidableEq

end ModuleAudit.ClassFile
