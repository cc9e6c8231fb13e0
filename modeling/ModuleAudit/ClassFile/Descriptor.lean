import ModuleAudit.Text.Split
import ModuleAudit.ClassFile.Failure

/-! # Type descriptors

A descriptor is the text of a field type, of a method's parameter and return types, or of `void`.
`Descriptor.parse?` reads one, and the classes that a descriptor mentions (`Descriptor.classes`) are those of
the value that was read.
-/

namespace ModuleAudit.ClassFile
set_option autoImplicit false

/-- A primitive, array or class type. -/
inductive FieldType where
  | primitive (letter : Char)
  | array (element : FieldType)
  | object (name : String)
  deriving Repr, DecidableEq

namespace FieldType

/-- The letters of the eight primitive types. -/
def primitives : List Char := ['B', 'C', 'D', 'F', 'I', 'J', 'S', 'Z']

/-- Reads one type from the front of a text. -/
def parse? : List Char → Option (FieldType × List Char)
  | [] => none
  | c :: rest =>
    if c ∈ primitives then some (.primitive c, rest)
    else if c = '[' then (parse? rest).map fun (element, left) => (.array element, left)
    else if c = 'L' then
      match Text.cutFirst ';' rest with
      | some (name, left) => if name.isEmpty then none else some (.object (String.ofList name), left)
      | none => none
    else none

/-- The class at the bottom of a type. -/
def className? : FieldType → Option String
  | .primitive _ => none
  | .array element => element.className?
  | .object name => some name

/-- Reading a type uses up at least one character. -/
theorem parse?_length {text left : List Char} {t : FieldType} (h : parse? text = some (t, left)) :
    left.length < text.length := by
  induction text generalizing t with
  | nil => simp [parse?] at h
  | cons c rest ih =>
    simp only [parse?] at h
    split at h
    · obtain ⟨-, rfl⟩ := by simpa using h
      simp
    · split at h
      · simp only [Option.map_eq_some_iff, Prod.mk.injEq, Prod.exists] at h
        obtain ⟨e, l, found, -, rfl⟩ := h
        have := ih found
        simp only [List.length_cons]
        omega
      · split at h
        · split at h
          · rename_i name l found
            split at h
            · simp at h
            · obtain ⟨-, rfl⟩ := by simpa using h
              rw [(Text.cutFirst_eq_some_iff.mp found).2]
              simp only [List.length_cons, List.length_append]
              omega
          · simp at h
        · simp at h

end FieldType

/-- The type of a field, or the types of a method. -/
inductive Descriptor where
  | void
  | field (type : FieldType)
  | method (parameters : List FieldType) (result : Option FieldType)
  deriving Repr, DecidableEq

namespace Descriptor

/-- Reads parameter types up to the closing parenthesis. -/
def parameters? (text : List Char) : Option (List FieldType × List Char) :=
  if text.head? = some ')' then some ([], text.tail)
  else
    match _found : FieldType.parse? text with
    | none => none
    | some (type, left) => (parameters? left).map fun (types, rest) => (type :: types, rest)
termination_by text.length
decreasing_by exact FieldType.parse?_length _found

/-- Reads a return type, where `V` stands for none, that ends the text. -/
def result? (text : List Char) : Option (Option FieldType) :=
  if text = ['V'] then some none
  else
    match FieldType.parse? text with
    | some (type, []) => some (some type)
    | _ => none

def parse? (text : List Char) : Option Descriptor :=
  if text.head? = some '(' then do
    let (types, rest) ← parameters? text.tail
    let result ← result? rest
    return .method types result
  else
    (result? text).map fun
      | none => .void
      | some type => .field type

/-- The classes that a descriptor mentions, in order; an array stands for its element type. -/
def classes : Descriptor → List String
  | .void => []
  | .field type => type.className?.toList
  | .method parameters result =>
    parameters.filterMap FieldType.className? ++ (result.bind FieldType.className?).toList

end Descriptor

def descriptorClasses (text : String) : Except Failure (List String) :=
  match Descriptor.parse? text.toList with
  | some descriptor => .ok descriptor.classes
  | none => .error (.badDescriptor text)

/-- The class that a class constant names: the name itself, or the element class of an array type. -/
def elementClass (name : String) : Except Failure (Option String) :=
  match name.toList with
  | [] => .error (.badDescriptor "")
  | '[' :: _ => (descriptorClasses name).map List.head?
  | _ => .ok (some name)

end ModuleAudit.ClassFile
