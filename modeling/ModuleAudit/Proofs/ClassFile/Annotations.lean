import ModuleAudit.Proofs.ClassFile.Constants

/-! Annotations as the format describes them, and that the scans of annotations read them back. The scan of an
element knows only how many bytes are left, so the induction runs on that number: the elements inside of one are
shorter than it by its tag. -/

namespace ModuleAudit.ClassFile.Format
set_option autoImplicit false

open Scan Annotations

/-! ## Elements -/

/-- The kinds of elements that are one constant. -/
inductive ConstantKind where
  | byte
  | char
  | double
  | float
  | int
  | long
  | short
  | boolean
  | text

def ConstantKind.tag : ConstantKind → UInt8
  | .byte => 0x42
  | .char => 0x43
  | .double => 0x44
  | .float => 0x46
  | .int => 0x49
  | .long => 0x4A
  | .short => 0x53
  | .boolean => 0x5A
  | .text => 0x73

/-- The value of an element of an annotation. The indices of constants, of enumerations and of the elements'
names are not followed by a reader of types, and may be any. -/
inductive ElementValue (pool : List Entry) where
  | constant (kind : ConstantKind) (index : UInt16)
  | enumeration (type name : UInt16)
  | classLiteral (descriptor : TextRef pool)
  | nested (type : TextRef pool) (elements : List (UInt16 × ElementValue pool))
  | array (values : List (ElementValue pool))

namespace ElementValue

variable {pool : List Entry}

mutual

def encode : ElementValue pool → Bytes
  | .constant kind index => kind.tag :: ofU2 index
  | .enumeration type name => 0x65 :: (ofU2 type ++ ofU2 name)
  | .classLiteral descriptor => 0x63 :: ofU2 descriptor.index
  | .nested type elements => 0x40 :: (ofU2 type.index ++ (big 2 elements.length ++ encodeElements elements))
  | .array values => 0x5B :: (big 2 values.length ++ encodeValues values)

def encodeElements : List (UInt16 × ElementValue pool) → Bytes
  | [] => []
  | (name, value) :: rest => ofU2 name ++ (value.encode ++ encodeElements rest)

def encodeValues : List (ElementValue pool) → Bytes
  | [] => []
  | value :: rest => value.encode ++ encodeValues rest

end

mutual

def events (site : AnnotationSite) : ElementValue pool → List Event
  | .constant _ _ | .enumeration _ _ => []
  | .classLiteral descriptor => [.classLiteral descriptor.text]
  | .nested type elements => .annotated site type.text :: eventsOfElements site elements
  | .array values => eventsOfValues site values

def eventsOfElements (site : AnnotationSite) : List (UInt16 × ElementValue pool) → List Event
  | [] => []
  | (_, value) :: rest => value.events site ++ eventsOfElements site rest

def eventsOfValues (site : AnnotationSite) : List (ElementValue pool) → List Event
  | [] => []
  | value :: rest => value.events site ++ eventsOfValues site rest

end

mutual

def fits : ElementValue pool → Bool
  | .constant _ _ | .enumeration _ _ | .classLiteral _ => true
  | .nested _ elements => decide (elements.length < 0x10000) && elementsFit elements
  | .array values => decide (values.length < 0x10000) && valuesFit values

def elementsFit : List (UInt16 × ElementValue pool) → Bool
  | [] => true
  | (_, value) :: rest => value.fits && elementsFit rest

def valuesFit : List (ElementValue pool) → Bool
  | [] => true
  | value :: rest => value.fits && valuesFit rest

end

theorem encodeElements_eq (elements : List (UInt16 × ElementValue pool)) :
    encodeElements elements = elements.flatMap fun pair => ofU2 pair.1 ++ pair.2.encode := by
  induction elements with
  | nil => rfl
  | cons pair rest ih => rw [encodeElements, ih, List.flatMap_cons, List.append_assoc]

theorem encodeValues_eq (values : List (ElementValue pool)) : encodeValues values = values.flatMap encode := by
  induction values with
  | nil => rfl
  | cons value rest ih => rw [encodeValues, ih, List.flatMap_cons]

theorem eventsOfElements_eq (site : AnnotationSite) (elements : List (UInt16 × ElementValue pool)) :
    eventsOfElements site elements = elements.flatMap fun pair => pair.2.events site := by
  induction elements with
  | nil => rfl
  | cons pair rest ih => rw [eventsOfElements, ih, List.flatMap_cons]

theorem eventsOfValues_eq (site : AnnotationSite) (values : List (ElementValue pool)) :
    eventsOfValues site values = values.flatMap (events site) := by
  induction values with
  | nil => rfl
  | cons value rest ih => rw [eventsOfValues, ih, List.flatMap_cons]

theorem elementsFit_eq (elements : List (UInt16 × ElementValue pool)) :
    elementsFit elements = elements.all fun pair => pair.2.fits := by
  induction elements with
  | nil => rfl
  | cons pair rest ih => rw [elementsFit, ih, List.all_cons]

theorem valuesFit_eq (values : List (ElementValue pool)) : valuesFit values = values.all fits := by
  induction values with
  | nil => rfl
  | cons value rest ih => rw [valuesFit, ih, List.all_cons]

end ElementValue

/-- An annotation, given a scan that reads each of its elements. -/
theorem reads_singleOf {pool : List Entry} {site : AnnotationSite} {element : Scan Unit} (type : TextRef pool)
    {elements : List (UInt16 × ElementValue pool)} (hlength : elements.length < 0x10000)
    (h : ∀ pair ∈ elements, Reads element pair.2.encode (pair.2.events site) ()) :
    Reads (singleOf (poolOf pool) site element)
      (ofU2 type.index ++ (big 2 elements.length ++ ElementValue.encodeElements elements))
      (.annotated site type.text :: ElementValue.eventsOfElements site elements) () := by
  have hpair : ∀ pair ∈ elements, Reads (skip 2 >>= fun _ => element) (ofU2 pair.1 ++ pair.2.encode)
      (pair.2.events site) () := by
    intro pair hmem
    exact (reads_skip (length_ofU2 pair.1)).then (h pair hmem)
  rw [ElementValue.encodeElements_eq, ElementValue.eventsOfElements_eq]
  exact reads_index (utf8_poolOf type) (reads_counted hlength hpair).reporting

theorem reads_elementIn {pool : List Entry} (site : AnnotationSite) {value : ElementValue pool}
    (hfits : value.fits) {room : Nat} (hroom : value.encode.length ≤ room) :
    Reads (elementIn (poolOf pool) site room) value.encode (value.events site) () := by
  induction room generalizing value with
  | zero => cases value <;> exact absurd hroom (Nat.not_succ_le_zero _)
  | succ room ih =>
    rw [elementIn]
    cases value with
    | constant kind index =>
      have hletter : Char.ofNat kind.tag.toNat ∈ constantTags := by cases kind <;> decide
      refine reads_byte kind.tag ?_
      dsimp only
      rw [if_pos hletter]
      exact reads_skip (length_ofU2 index)
    | enumeration type name =>
      have hlength : (ofU2 type ++ ofU2 name).length = 4 := by
        rw [List.length_append, length_ofU2, length_ofU2]
      exact reads_byte 0x65 (reads_skip hlength)
    | classLiteral descriptor =>
      exact reads_byte 0x63 (reads_last_index (utf8_poolOf descriptor) (reads_report _))
    | nested type elements =>
      -- the tag takes one byte, so what is inside has room in the bytes that are left
      obtain ⟨hcount, hall⟩ : elements.length < 0x10000 ∧ ElementValue.elementsFit elements = true := by
        rwa [ElementValue.fits, Bool.and_eq_true, decide_eq_true_eq] at hfits
      rw [ElementValue.elementsFit_eq] at hall
      have helement : ∀ pair ∈ elements,
          Reads (elementIn (poolOf pool) site room) pair.2.encode (pair.2.events site) () := by
        intro pair hmem
        refine ih (List.all_eq_true.mp hall pair hmem) ?_
        have hpair := length_le_flatMap (fun pair => ofU2 pair.1 ++ ElementValue.encode pair.2) hmem
        simp only [ElementValue.encode, ElementValue.encodeElements_eq, List.length_cons, List.length_append]
          at hroom hpair
        omega
      exact reads_byte 0x40 (reads_singleOf type hcount helement)
    | array values =>
      obtain ⟨hcount, hall⟩ : values.length < 0x10000 ∧ ElementValue.valuesFit values = true := by
        rwa [ElementValue.fits, Bool.and_eq_true, decide_eq_true_eq] at hfits
      rw [ElementValue.valuesFit_eq] at hall
      have hvalue : ∀ value ∈ values,
          Reads (elementIn (poolOf pool) site room) value.encode (value.events site) () := by
        intro value hmem
        refine ih (List.all_eq_true.mp hall value hmem) ?_
        have hlength := length_le_flatMap ElementValue.encode hmem
        simp only [ElementValue.encode, ElementValue.encodeValues_eq, List.length_cons, List.length_append]
          at hroom
        omega
      rw [ElementValue.encode, ElementValue.events, ElementValue.encodeValues_eq,
        ElementValue.eventsOfValues_eq]
      exact reads_byte 0x5B (reads_counted hcount hvalue)

theorem reads_element {pool : List Entry} (site : AnnotationSite) {value : ElementValue pool} (h : value.fits) :
    Reads (element (poolOf pool) site) value.encode (value.events site) () :=
  reads_bounded fun _ hroom => reads_elementIn site h hroom

/-! ## Annotations where they are used -/

/-- An annotation where it is used: its type, and its elements by the indices of their names. -/
structure AnnotationUse (pool : List Entry) where
  type : TextRef pool
  elements : List (UInt16 × ElementValue pool)

namespace AnnotationUse

variable {pool : List Entry}

def encode (use : AnnotationUse pool) : Bytes :=
  ofU2 use.type.index ++ (big 2 use.elements.length ++ ElementValue.encodeElements use.elements)

def events (site : AnnotationSite) (use : AnnotationUse pool) : List Event :=
  .annotated site use.type.text :: ElementValue.eventsOfElements site use.elements

def fits (use : AnnotationUse pool) : Bool :=
  decide (use.elements.length < 0x10000) && ElementValue.elementsFit use.elements

end AnnotationUse

/-- Counted annotations. -/
def encodeUses {pool : List Entry} (uses : List (AnnotationUse pool)) : Bytes :=
  counted 2 AnnotationUse.encode uses

def usesFit {pool : List Entry} (uses : List (AnnotationUse pool)) : Bool :=
  decide (uses.length < 0x10000) && uses.all AnnotationUse.fits

section

variable {pool : List Entry}

theorem reads_single (site : AnnotationSite) {use : AnnotationUse pool} (h : use.fits) :
    Reads (single (poolOf pool) site) use.encode (use.events site) () := by
  obtain ⟨hcount, hall⟩ : use.elements.length < 0x10000 ∧ ElementValue.elementsFit use.elements = true := by
    rwa [AnnotationUse.fits, Bool.and_eq_true, decide_eq_true_eq] at h
  rw [ElementValue.elementsFit_eq] at hall
  exact reads_singleOf use.type hcount fun pair hmem => reads_element site (List.all_eq_true.mp hall pair hmem)

theorem reads_uses (site : AnnotationSite) {uses : List (AnnotationUse pool)} (h : usesFit uses) :
    Reads (list (poolOf pool) site) (encodeUses uses) (uses.flatMap (AnnotationUse.events site)) () := by
  obtain ⟨hcount, hall⟩ : uses.length < 0x10000 ∧ uses.all AnnotationUse.fits = true := by
    rwa [usesFit, Bool.and_eq_true, decide_eq_true_eq] at h
  exact reads_counted hcount fun use hmem => reads_single site (List.all_eq_true.mp hall use hmem)

theorem reads_ofParameters {parameters : List (List (AnnotationUse pool))} (hcount : parameters.length < 0x100)
    (hall : parameters.all usesFit) :
    Reads (ofParameters (poolOf pool)) (counted 1 encodeUses parameters)
      (parameters.flatMap fun uses => uses.flatMap (AnnotationUse.events .parameter)) () :=
  reads_counted hcount fun uses hmem => reads_uses .parameter (List.all_eq_true.mp hall uses hmem)

end

/-! ## Type annotations -/

/-- A range of code where a variable lives: where it starts, how long it is, and the variable's slot. -/
structure LiveRange where
  start : UInt16
  length : UInt16
  slot : UInt16

def LiveRange.encode (range : LiveRange) : Bytes := ofU2 range.start ++ (ofU2 range.length ++ ofU2 range.slot)

/-- What a type annotation stands at. -/
inductive Target where
  | classTypeParameter (index : UInt8)
  | methodTypeParameter (index : UInt8)
  | supertype (index : UInt16)
  | classTypeParameterBound (parameter bound : UInt8)
  | methodTypeParameterBound (parameter bound : UInt8)
  | field
  | result
  | receiver
  | formalParameter (index : UInt8)
  | thrown (index : UInt16)
  | localVariable (ranges : List LiveRange)
  | resource (ranges : List LiveRange)
  | handler (index : UInt16)
  | typeTest (offset : UInt16)
  | creation (offset : UInt16)
  | constructorReference (offset : UInt16)
  | methodReference (offset : UInt16)
  | cast (offset : UInt16) (argument : UInt8)
  | constructorArgument (offset : UInt16) (argument : UInt8)
  | methodArgument (offset : UInt16) (argument : UInt8)
  | constructorReferenceArgument (offset : UInt16) (argument : UInt8)
  | methodReferenceArgument (offset : UInt16) (argument : UInt8)

namespace Target

def encode : Target → Bytes
  | .classTypeParameter index => [0x00, index]
  | .methodTypeParameter index => [0x01, index]
  | .supertype index => 0x10 :: ofU2 index
  | .classTypeParameterBound parameter bound => [0x11, parameter, bound]
  | .methodTypeParameterBound parameter bound => [0x12, parameter, bound]
  | .field => [0x13]
  | .result => [0x14]
  | .receiver => [0x15]
  | .formalParameter index => [0x16, index]
  | .thrown index => 0x17 :: ofU2 index
  | .localVariable ranges => 0x40 :: counted 2 LiveRange.encode ranges
  | .resource ranges => 0x41 :: counted 2 LiveRange.encode ranges
  | .handler index => 0x42 :: ofU2 index
  | .typeTest offset => 0x43 :: ofU2 offset
  | .creation offset => 0x44 :: ofU2 offset
  | .constructorReference offset => 0x45 :: ofU2 offset
  | .methodReference offset => 0x46 :: ofU2 offset
  | .cast offset argument => 0x47 :: (ofU2 offset ++ [argument])
  | .constructorArgument offset argument => 0x48 :: (ofU2 offset ++ [argument])
  | .methodArgument offset argument => 0x49 :: (ofU2 offset ++ [argument])
  | .constructorReferenceArgument offset argument => 0x4A :: (ofU2 offset ++ [argument])
  | .methodReferenceArgument offset argument => 0x4B :: (ofU2 offset ++ [argument])

/-- Variables, handlers and instructions are told apart; all else is a use of a type in a declaration. -/
def site : Target → AnnotationSite
  | .localVariable _ | .resource _ => .localVariable
  | .handler _ => .tryCatch
  | .typeTest _ | .creation _ | .constructorReference _ | .methodReference _ => .instruction
  | .cast _ _ | .constructorArgument _ _ | .methodArgument _ _ => .instruction
  | .constructorReferenceArgument _ _ | .methodReferenceArgument _ _ => .instruction
  | _ => .typeUse

def fits : Target → Bool
  | .localVariable ranges | .resource ranges => decide (ranges.length < 0x10000)
  | _ => true

end Target

theorem LiveRange.length_encode (range : LiveRange) : range.encode.length = 6 := by
  rw [LiveRange.encode, List.length_append, List.length_append, length_ofU2, length_ofU2, length_ofU2]

/-! The first byte of a target says how many bytes follow. -/

theorem reads_target_parameter {code : UInt8} (h : code.toNat = 0x00 ∨ code.toNat = 0x01 ∨ code.toNat = 0x16)
    (index : UInt8) : Reads target [code, index] [] .typeUse := by
  refine reads_byte code ?_
  rw [if_pos h]
  have hskip : Reads (skip 1) [index] [] () := reads_skip rfl
  exact hskip.returns (reads_pure _)

theorem reads_target_declared {code : UInt8}
    (h : code.toNat = 0x10 ∨ code.toNat = 0x11 ∨ code.toNat = 0x12 ∨ code.toNat = 0x17) {operands : Bytes}
    (hlength : operands.length = 2) : Reads target (code :: operands) [] .typeUse := by
  refine reads_byte code ?_
  rw [if_neg (by omega), if_pos h]
  exact (reads_skip hlength).returns (reads_pure _)

theorem reads_target_bare {code : UInt8} (h : 0x13 ≤ code.toNat ∧ code.toNat ≤ 0x15) :
    Reads target [code] [] .typeUse := by
  refine reads_byte code ?_
  rw [if_neg (by omega), if_neg (by omega), if_pos h]
  exact reads_pure _

theorem reads_target_variable {code : UInt8} (h : code.toNat = 0x40 ∨ code.toNat = 0x41) {ranges : List LiveRange}
    (hcount : ranges.length < 0x10000) :
    Reads target (code :: counted 2 LiveRange.encode ranges) [] .localVariable := by
  have hlength := length_flatMap_of LiveRange.length_encode ranges
  refine reads_byte code ?_
  rw [if_neg (by omega), if_neg (by omega), if_neg (by omega), if_pos h]
  exact (reads_number hcount).then ((reads_skip hlength).returns (reads_pure _))

theorem reads_target_instruction {code : UInt8} (h : 0x43 ≤ code.toNat ∧ code.toNat ≤ 0x46) (offset : UInt16) :
    Reads target (code :: ofU2 offset) [] .instruction := by
  refine reads_byte code ?_
  rw [if_neg (by omega), if_neg (by omega), if_neg (by omega), if_neg (by omega), if_neg (by omega), if_pos h]
  exact (reads_skip (length_ofU2 offset)).returns (reads_pure _)

theorem reads_target_argument {code : UInt8} (h : 0x47 ≤ code.toNat ∧ code.toNat ≤ 0x4B) (offset : UInt16)
    (argument : UInt8) : Reads target (code :: (ofU2 offset ++ [argument])) [] .instruction := by
  have hlength : (ofU2 offset ++ [argument]).length = 3 := by
    rw [List.length_append, length_ofU2, List.length_singleton]
  refine reads_byte code ?_
  rw [if_neg (by omega), if_neg (by omega), if_neg (by omega), if_neg (by omega), if_neg (by omega),
    if_neg (by omega), if_pos h]
  exact (reads_skip hlength).returns (reads_pure _)

theorem reads_target {item : Target} (h : item.fits) : Reads target item.encode [] item.site := by
  cases item with
  | classTypeParameter index => exact reads_target_parameter (by decide) index
  | methodTypeParameter index => exact reads_target_parameter (by decide) index
  | supertype index => exact reads_target_declared (by decide) (length_ofU2 index)
  | classTypeParameterBound parameter bound => exact reads_target_declared (by decide) rfl
  | methodTypeParameterBound parameter bound => exact reads_target_declared (by decide) rfl
  | field => exact reads_target_bare (by decide)
  | result => exact reads_target_bare (by decide)
  | receiver => exact reads_target_bare (by decide)
  | formalParameter index => exact reads_target_parameter (by decide) index
  | thrown index => exact reads_target_declared (by decide) (length_ofU2 index)
  | localVariable ranges => exact reads_target_variable (by decide) (of_decide_eq_true h)
  | resource ranges => exact reads_target_variable (by decide) (of_decide_eq_true h)
  | handler index => exact reads_byte 0x42 ((reads_skip (length_ofU2 index)).returns (reads_pure _))
  | typeTest offset => exact reads_target_instruction (by decide) offset
  | creation offset => exact reads_target_instruction (by decide) offset
  | constructorReference offset => exact reads_target_instruction (by decide) offset
  | methodReference offset => exact reads_target_instruction (by decide) offset
  | cast offset argument => exact reads_target_argument (by decide) offset argument
  | constructorArgument offset argument => exact reads_target_argument (by decide) offset argument
  | methodArgument offset argument => exact reads_target_argument (by decide) offset argument
  | constructorReferenceArgument offset argument => exact reads_target_argument (by decide) offset argument
  | methodReferenceArgument offset argument => exact reads_target_argument (by decide) offset argument

/-- A type annotation: its target, the way to the annotated part of the type, and the annotation. -/
structure TypeAnnotationUse (pool : List Entry) where
  target : Target
  path : List (UInt8 × UInt8)
  use : AnnotationUse pool

namespace TypeAnnotationUse

variable {pool : List Entry}

def encode (item : TypeAnnotationUse pool) : Bytes :=
  item.target.encode ++ (counted 1 (fun step => [step.1, step.2]) item.path ++ item.use.encode)

def events (item : TypeAnnotationUse pool) : List Event := item.use.events item.target.site

def fits (item : TypeAnnotationUse pool) : Bool :=
  item.target.fits && decide (item.path.length < 0x100) && item.use.fits

end TypeAnnotationUse

def encodeTypeUses {pool : List Entry} (uses : List (TypeAnnotationUse pool)) : Bytes :=
  counted 2 TypeAnnotationUse.encode uses

def typeUsesFit {pool : List Entry} (uses : List (TypeAnnotationUse pool)) : Bool :=
  decide (uses.length < 0x10000) && uses.all TypeAnnotationUse.fits

theorem reads_ofTypes {pool : List Entry} {uses : List (TypeAnnotationUse pool)} (h : typeUsesFit uses) :
    Reads (ofTypes (poolOf pool)) (encodeTypeUses uses) (uses.flatMap TypeAnnotationUse.events) () := by
  obtain ⟨hcount, hall⟩ : uses.length < 0x10000 ∧ uses.all TypeAnnotationUse.fits = true := by
    rwa [typeUsesFit, Bool.and_eq_true, decide_eq_true_eq] at h
  refine reads_counted hcount fun item hmem => ?_
  have hitem := List.all_eq_true.mp hall item hmem
  obtain ⟨⟨htarget, hsteps⟩, huse⟩ :
      (item.target.fits = true ∧ item.path.length < 0x100) ∧ item.use.fits = true := by
    rwa [TypeAnnotationUse.fits, Bool.and_eq_true, Bool.and_eq_true, decide_eq_true_eq] at hitem
  have hstep : ∀ step : UInt8 × UInt8, List.length [step.1, step.2] = 2 := fun _ => rfl
  have hpath := length_flatMap_of hstep item.path
  have hnumber : Reads u1 (big 1 item.path.length) [] item.path.length := reads_number hsteps
  rw [TypeAnnotationUse.encode, counted, List.append_assoc]
  exact (reads_target htarget).then (hnumber.then ((reads_skip hpath).then (reads_single item.target.site huse)))

end ModuleAudit.ClassFile.Format
