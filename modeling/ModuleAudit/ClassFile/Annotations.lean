import ModuleAudit.ClassFile.ConstantPool

/-! # Annotations

An annotation has a type and named elements, and an element may hold further annotations or an array of
elements. Every element starts with a tag byte, so the unread bytes bound how deep elements nest.
-/

namespace ModuleAudit.ClassFile
set_option autoImplicit false

namespace Annotations

open Scan

/-- Tags of the elements that are one constant: the primitive types and `s` for a text. -/
def constantTags : List Char := ['B', 'C', 'D', 'F', 'I', 'J', 'S', 'Z', 's']

/-- Scans an annotation, given the scan of an element. -/
def singleOf (pool : ConstantPool) (site : AnnotationSite) (element : Scan Unit) : Scan Unit := do
  let descriptor ← answer (pool.utf8 (← u2))
  report (.annotated site descriptor)
  let pairs ← u2
  times pairs do
    skip 2
    element

/-- Scans an element of which at most `room` bytes are unread. Without room there is no byte left for its
tag. -/
def elementIn (pool : ConstantPool) (site : AnnotationSite) : Nat → Scan Unit
  | 0 => fail .unexpectedEnd
  | room + 1 => do
    let tag ← u1
    let letter := Char.ofNat tag
    if letter ∈ constantTags then skip 2
    else if letter = 'e' then skip 4
    else if letter = 'c' then do
      let descriptor ← answer (pool.utf8 (← u2))
      report (.classLiteral descriptor)
    else if letter = '@' then singleOf pool site (elementIn pool site room)
    else if letter = '[' then do
      let count ← u2
      times count (elementIn pool site room)
    else fail (.badElement tag)

def element (pool : ConstantPool) (site : AnnotationSite) : Scan Unit := bounded (elementIn pool site)

def single (pool : ConstantPool) (site : AnnotationSite) : Scan Unit :=
  singleOf pool site (element pool site)

def list (pool : ConstantPool) (site : AnnotationSite) : Scan Unit := do
  let count ← u2
  times count (single pool site)

/-- Scans the annotations of a method's parameters, a list for each parameter. -/
def ofParameters (pool : ConstantPool) : Scan Unit := do
  let parameters ← u1
  times parameters (list pool .parameter)

/-- Scans the target of a type annotation and says where the annotation stands. -/
def target : Scan AnnotationSite := do
  let code ← u1
  -- a type parameter, or a formal parameter
  if code = 0x00 ∨ code = 0x01 ∨ code = 0x16 then do
    skip 1
    return .typeUse
  -- a supertype, a bound of a type parameter, a thrown type
  else if code = 0x10 ∨ code = 0x11 ∨ code = 0x12 ∨ code = 0x17 then do
    skip 2
    return .typeUse
  -- a field, a result, a receiver
  else if 0x13 ≤ code ∧ code ≤ 0x15 then return .typeUse
  -- a local variable, with the ranges where it lives
  else if code = 0x40 ∨ code = 0x41 then do
    let ranges ← u2
    skip (ranges * 6)
    return .localVariable
  else if code = 0x42 then do
    skip 2
    return .tryCatch
  -- a type test, a creation, a method reference
  else if 0x43 ≤ code ∧ code ≤ 0x46 then do
    skip 2
    return .instruction
  -- a cast, a type argument
  else if 0x47 ≤ code ∧ code ≤ 0x4B then do
    skip 3
    return .instruction
  else fail (.badTarget code)

/-- Scans a counted list of type annotations. -/
def ofTypes (pool : ConstantPool) : Scan Unit := do
  let count ← u2
  times count do
    let site ← target
    let steps ← u1
    skip (steps * 2)
    single pool site

end Annotations

end ModuleAudit.ClassFile
