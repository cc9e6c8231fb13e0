import ModuleAudit.ClassFile.Code

/-! # Reading a class file

`read` scans a whole class file: the constant pool, the header, the fields, the methods and the attributes
of the class. Bytes after the class file are left alone.
-/

namespace ModuleAudit.ClassFile
set_option autoImplicit false

open Scan

/-- Scans the body of an attribute that holds annotations of `site`, and passes over any other. -/
def annotationAttribute (pool : ConstantPool) (site : AnnotationSite) (name : String) (body : Bytes) :
    Scan Unit :=
  if name = "RuntimeVisibleAnnotations" ∨ name = "RuntimeInvisibleAnnotations" then
    within body (Annotations.list pool site)
  else if name = "RuntimeVisibleTypeAnnotations" ∨ name = "RuntimeInvisibleTypeAnnotations" then
    within body (Annotations.ofTypes pool)
  else pure ()

def field (pool : ConstantPool) : Scan Unit := do
  let access ← u2
  let name ← answer (pool.utf8 (← u2))
  let descriptor ← answer (pool.utf8 (← u2))
  report (.field access name descriptor)
  let attributes ← u2
  times attributes do
    let (name, body) ← attributeEntry pool
    annotationAttribute pool .ofField name body

def method (pool : ConstantPool) : Scan Unit := do
  let access ← u2
  let name ← answer (pool.utf8 (← u2))
  let descriptor ← answer (pool.utf8 (← u2))
  report (.method access name descriptor)
  let attributes ← u2
  times attributes do
    let (name, body) ← attributeEntry pool
    if name = "Code" then within body (Code.scan pool)
    else if name = "RuntimeVisibleParameterAnnotations" ∨ name = "RuntimeInvisibleParameterAnnotations" then
      within body (Annotations.ofParameters pool)
    else if name = "AnnotationDefault" then within body (Annotations.element pool .defaultValue)
    else annotationAttribute pool .ofMethod name body

/-- Scans the header of the class: its flags, its name, its supertype and its interfaces. -/
def header (pool : ConstantPool) : Scan Unit := do
  let access ← u2
  let this ← u2
  let super ← u2
  let count ← u2
  let interfaces ← collect count do answer (pool.className (← u2))
  let name ← answer (pool.className this)
  let superName ← answer (pool.className? super)
  report (.header access name superName interfaces)

def classFile : Scan Unit := do
  let magic ← u4
  if magic ≠ 0xCAFEBABE then fail .badMagic
  skip 4
  let pool ← ConstantPool.scan
  header pool
  let fields ← u2
  times fields (field pool)
  let methods ← u2
  times methods (method pool)
  let attributes ← u2
  times attributes do
    let (name, body) ← attributeEntry pool
    annotationAttribute pool .ofClass name body

/-- The events of a class file, and the failure that ended them early. -/
structure Reading where
  events : List Event
  failure : Option Failure
  deriving Repr, DecidableEq

def read (bytes : Bytes) : Reading :=
  match classFile bytes with
  | ⟨events, .ok _⟩ => ⟨events, none⟩
  | ⟨events, .error failure⟩ => ⟨events, some failure⟩

end ModuleAudit.ClassFile
