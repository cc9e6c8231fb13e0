import ModuleAudit.ClassFile.Descriptor

/-! The grammar of descriptors. A derivation is given by its tree: the rules relate the tree to the text it derives
and to the names of the classes in that text, from left to right. Reading a type from the front of a text takes
off what one derivation derives, so a text is read exactly when it is derived, and by one tree only
(`descriptorClasses_exact`). -/

namespace ModuleAudit
set_option autoImplicit false

namespace ClassFile

/-! ## Types -/

namespace FieldType

/-- The rules for types. -/
inductive Derives : FieldType → List Char → List String → Prop
  | primitive {letter : Char} (known : letter ∈ ['B', 'C', 'D', 'F', 'I', 'J', 'S', 'Z']) :
      Derives (.primitive letter) [letter] []
  | array {element : FieldType} {text : List Char} {names : List String} (derivation : Derives element text names) :
      Derives (.array element) ('[' :: text) names
  | object {name : List Char} (nonempty : name ≠ []) (closed : ';' ∉ name) :
      Derives (.object (String.ofList name)) ('L' :: (name ++ [';'])) [String.ofList name]

theorem Derives.names_eq {type : FieldType} {text : List Char} {names : List String} (h : Derives type text names) :
    names = type.className?.toList := by
  induction h with
  | primitive known => rfl
  | array derivation ih => exact ih
  | object nonempty closed => rfl

/-- No type starts like the end of parameters, like a method or like `void`. -/
theorem Derives.head?_ne {type : FieldType} {text : List Char} {names : List String} (h : Derives type text names)
    (rest : List Char) {c : Char} (hc : c ∈ [')', '(', 'V']) : (text ++ rest).head? ≠ some c := by
  intro hhead
  cases h with
  | primitive known =>
    cases Option.some.inj hhead
    grind
  | array derivation =>
    cases Option.some.inj hhead
    exact absurd hc (by decide)
  | object nonempty closed =>
    cases Option.some.inj hhead
    exact absurd hc (by decide)

theorem parse?_of_derives {type : FieldType} {used : List Char} {names : List String} (h : Derives type used names)
    (left : List Char) : parse? (used ++ left) = some (type, left) := by
  induction h with
  | primitive known => exact if_pos known
  | @array element text names derivation ih =>
    have hletter : '[' ∉ primitives := by decide
    rw [List.cons_append, parse?, if_neg hletter, if_pos rfl, ih]
    rfl
  | @object name nonempty closed =>
    have hletter : 'L' ∉ primitives := by decide
    have hcut : Text.cutFirst ';' (name ++ [';'] ++ left) = some (name, left) :=
      Text.cutFirst_eq_some_iff.mpr ⟨closed, by simp⟩
    have hname : name.isEmpty = false := by simpa using nonempty
    rw [List.cons_append, parse?, if_neg hletter, if_neg (by decide), if_pos rfl, hcut]
    simp [hname]

theorem derives_of_parse? {text left : List Char} {type : FieldType} (h : parse? text = some (type, left)) :
    ∃ used, Derives type used type.className?.toList ∧ text = used ++ left := by
  induction text generalizing type with
  | nil => cases h
  | cons c rest ih =>
    rw [parse?] at h
    split at h
    case isTrue hletter =>
      obtain ⟨rfl, rfl⟩ := Prod.mk.inj (Option.some.inj h)
      exact ⟨[c], .primitive hletter, rfl⟩
    case isFalse =>
      split at h
      case isTrue harray =>
        obtain ⟨⟨element, after⟩, hfound, heq⟩ := Option.map_eq_some_iff.mp h
        obtain ⟨rfl, rfl⟩ := Prod.mk.inj heq
        obtain ⟨used, hderives, rfl⟩ := ih hfound
        exact ⟨c :: used, harray ▸ .array hderives, rfl⟩
      case isFalse =>
        split at h
        case isTrue hobject =>
          split at h
          case h_1 name after hcut =>
            split at h
            case isTrue => cases h
            case isFalse hname =>
              obtain ⟨rfl, rfl⟩ := Prod.mk.inj (Option.some.inj h)
              obtain ⟨hclosed, rfl⟩ := Text.cutFirst_eq_some_iff.mp hcut
              have hnonempty : name ≠ [] := by simpa using hname
              exact ⟨c :: (name ++ [';']), hobject ▸ .object hnonempty hclosed, by simp⟩
          case h_2 => cases h
        case isFalse => cases h

/-- The types of parameters, one after the other. -/
inductive DeriveAll : List FieldType → List Char → List String → Prop
  | nil : DeriveAll [] [] []
  | cons {type : FieldType} {types : List FieldType} {text texts : List Char} {names others : List String}
      (first : Derives type text names) (rest : DeriveAll types texts others) :
      DeriveAll (type :: types) (text ++ texts) (names ++ others)

/-- A result: `V` or a type. -/
inductive DeriveResult : Option FieldType → List Char → List String → Prop
  | void : DeriveResult none ['V'] []
  | type {type : FieldType} {text : List Char} {names : List String} (derivation : Derives type text names) :
      DeriveResult (some type) text names

end FieldType

/-! ## Descriptors -/

namespace Descriptor

open FieldType (DeriveAll DeriveResult)

/-- The rules for descriptors. -/
inductive Derives : Descriptor → List Char → List String → Prop
  | void : Derives .void ['V'] []
  | field {type : FieldType} {text : List Char} {names : List String} (derivation : type.Derives text names) :
      Derives (.field type) text names
  | method {types : List FieldType} {result : Option FieldType} {text after : List Char} {names others : List String}
      (front : DeriveAll types text names) (back : DeriveResult result after others) :
      Derives (.method types result) ('(' :: (text ++ ')' :: after)) (names ++ others)

theorem names_eq_of_deriveAll {types : List FieldType} {text : List Char} {names : List String}
    (h : DeriveAll types text names) : names = types.filterMap FieldType.className? := by
  induction h with
  | nil => rfl
  | @cons type types text texts names others first rest ih =>
    rw [first.names_eq, ih, List.filterMap_cons]
    cases type.className? <;> rfl

theorem names_eq_of_deriveResult {result : Option FieldType} {text : List Char} {names : List String}
    (h : DeriveResult result text names) : names = (result.bind FieldType.className?).toList := by
  cases h with
  | void => rfl
  | type derivation => exact derivation.names_eq

theorem Derives.names_eq {tree : Descriptor} {text : List Char} {names : List String} (h : Derives tree text names) :
    names = tree.classes := by
  cases h with
  | void => rfl
  | field derivation => exact derivation.names_eq
  | method front back => rw [classes, names_eq_of_deriveAll front, names_eq_of_deriveResult back]

theorem parameters?_of_deriveAll {types : List FieldType} {used : List Char} {names : List String}
    (h : DeriveAll types used names) (left : List Char) : parameters? (used ++ ')' :: left) = some (types, left) := by
  induction h with
  | nil =>
    have hclose : ([] ++ ')' :: left).head? = some ')' := rfl
    rw [parameters?, if_pos hclose]
    rfl
  | @cons type types text texts names others first rest ih =>
    have hhead := first.head?_ne (texts ++ ')' :: left) (c := ')') (by decide)
    have hparse := FieldType.parse?_of_derives first (texts ++ ')' :: left)
    rw [List.append_assoc, parameters?, if_neg hhead]
    split
    case h_1 hnone =>
      rw [hparse] at hnone
      cases hnone
    case h_2 found after hsome =>
      rw [hparse] at hsome
      obtain ⟨rfl, rfl⟩ := Prod.mk.inj (Option.some.inj hsome)
      rw [ih]
      rfl

theorem deriveAll_of_parameters? {text left : List Char} {types : List FieldType}
    (h : parameters? text = some (types, left)) :
    ∃ used names, DeriveAll types used names ∧ text = used ++ ')' :: left := by
  induction hlength : text.length using Nat.strongRecOn generalizing text types with
  | ind n ih =>
    rw [parameters?] at h
    split at h
    case isTrue hclose =>
      obtain ⟨rfl, rfl⟩ := Prod.mk.inj (Option.some.inj h)
      obtain ⟨rest, rfl⟩ := List.head?_eq_some_iff.mp hclose
      exact ⟨[], [], .nil, rfl⟩
    case isFalse =>
      split at h
      case h_1 => cases h
      case h_2 type after hparse =>
        obtain ⟨⟨others, rest⟩, hrest, heq⟩ := Option.map_eq_some_iff.mp h
        obtain ⟨rfl, rfl⟩ := Prod.mk.inj heq
        have hshorter : after.length < n := hlength ▸ FieldType.parse?_length hparse
        obtain ⟨used, names, hall, rfl⟩ := ih after.length hshorter hrest rfl
        obtain ⟨front, hderives, rfl⟩ := FieldType.derives_of_parse? hparse
        exact ⟨front ++ used, _, .cons hderives hall, (List.append_assoc _ _ _).symm⟩

theorem result?_of_deriveResult {result : Option FieldType} {text : List Char} {names : List String}
    (h : DeriveResult result text names) : result? text = some result := by
  cases h with
  | void => rfl
  | type derivation =>
    have hhead := derivation.head?_ne [] (c := 'V') (by decide)
    have hparse := FieldType.parse?_of_derives derivation []
    rw [List.append_nil] at hhead hparse
    have hvoid : text ≠ ['V'] := fun h => hhead (h ▸ rfl)
    rw [result?, if_neg hvoid, hparse]

theorem deriveResult_of_result? {text : List Char} {result : Option FieldType} (h : result? text = some result) :
    ∃ names, DeriveResult result text names := by
  rw [result?] at h
  split at h
  case isTrue hvoid =>
    subst hvoid
    obtain rfl := Option.some.inj h
    exact ⟨[], .void⟩
  case isFalse =>
    split at h
    case h_1 type hparse =>
      obtain ⟨used, hderives, rfl⟩ := FieldType.derives_of_parse? hparse
      obtain rfl := Option.some.inj h
      rw [List.append_nil]
      exact ⟨_, .type hderives⟩
    case h_2 => cases h

theorem parse?_of_derives {tree : Descriptor} {text : List Char} {names : List String} (h : Derives tree text names) :
    parse? text = some tree := by
  cases h with
  | void => rfl
  | @field type _ _ derivation =>
    have hhead := derivation.head?_ne [] (c := '(') (by decide)
    rw [List.append_nil] at hhead
    rw [parse?, if_neg hhead, result?_of_deriveResult (.type derivation)]
    rfl
  | method front back =>
    rw [parse?, List.head?_cons, if_pos rfl, List.tail_cons, parameters?_of_deriveAll front]
    simp only [bind, Option.bind, result?_of_deriveResult back]
    rfl

theorem derives_of_parse? {tree : Descriptor} {text : List Char} (h : parse? text = some tree) :
    Derives tree text tree.classes := by
  suffices hsome : ∃ names, Derives tree text names by
    obtain ⟨names, hderives⟩ := hsome
    exact hderives.names_eq ▸ hderives
  rw [parse?] at h
  split at h
  case isTrue hopen =>
    obtain ⟨rest, rfl⟩ := List.head?_eq_some_iff.mp hopen
    obtain ⟨⟨types, after⟩, hparameters, hrest⟩ := Option.bind_eq_some_iff.mp h
    obtain ⟨result, hresult, htree⟩ := Option.bind_eq_some_iff.mp hrest
    obtain ⟨used, names, hall, rfl⟩ := deriveAll_of_parameters? hparameters
    obtain ⟨others, hlast⟩ := deriveResult_of_result? hresult
    obtain rfl := Option.some.inj htree
    exact ⟨_, .method hall hlast⟩
  case isFalse =>
    obtain ⟨result, hresult, rfl⟩ := Option.map_eq_some_iff.mp h
    obtain ⟨names, hlast⟩ := deriveResult_of_result? hresult
    cases hlast with
    | void => exact ⟨[], .void⟩
    | type derivation => exact ⟨names, .field derivation⟩

end Descriptor

/-! ## The classes of a descriptor -/

theorem descriptorClasses_eq_ok_iff {text : String} {names : List String} :
    descriptorClasses text = .ok names ↔ ∃ tree, Descriptor.Derives tree text.toList names := by
  rw [descriptorClasses]
  constructor
  · intro h
    split at h
    case h_1 tree hparse =>
      exact ⟨tree, Except.ok.inj h ▸ Descriptor.derives_of_parse? hparse⟩
    case h_2 => cases h
  · rintro ⟨tree, hderives⟩
    rw [Descriptor.parse?_of_derives hderives, hderives.names_eq]

theorem descriptorClasses_eq_error_iff {text : String} :
    descriptorClasses text = .error (.badDescriptor text) ↔
      ¬∃ tree names, Descriptor.Derives tree text.toList names := by
  cases h : descriptorClasses text with
  | ok names =>
    obtain ⟨tree, hderives⟩ := descriptorClasses_eq_ok_iff.mp h
    exact iff_of_false (fun e => by cases e) (fun hnone => hnone ⟨tree, names, hderives⟩)
  | error failure =>
    have hfailure : failure = .badDescriptor text := by
      rw [descriptorClasses] at h
      split at h
      · cases h
      · exact (Except.error.inj h).symm
    refine iff_of_true (hfailure ▸ rfl) ?_
    rintro ⟨tree, names, hderives⟩
    rw [descriptorClasses_eq_ok_iff.mpr ⟨tree, hderives⟩] at h
    cases h

section Arrays

variable {name : String} (harray : name.toList.head? = some '[')
include harray

theorem elementClass_of_array : elementClass name = (descriptorClasses name).map List.head? := by
  obtain ⟨rest, hname⟩ := List.head?_eq_some_iff.mp harray
  simp only [elementClass, hname]

/-- What starts with a bracket is derived as an array type or not at all. -/
theorem derives_iff_of_array {names : List String} :
    (∃ tree, Descriptor.Derives tree name.toList names) ↔
      ∃ type, FieldType.Derives (.array type) name.toList names := by
  obtain ⟨rest, hname⟩ := List.head?_eq_some_iff.mp harray
  rw [hname]
  constructor
  · rintro ⟨tree, hderives⟩
    cases hderives with
    | field derivation =>
      cases derivation with
      | primitive known => exact absurd known (by decide)
      | @array element _ _ inner => exact ⟨element, .array inner⟩
  · rintro ⟨type, hderives⟩
    exact ⟨.field (.array type), .field hderives⟩

theorem elementClass_eq_ok_iff {element : Option String} :
    elementClass name = .ok element ↔ ∃ type, FieldType.Derives (.array type) name.toList element.toList := by
  rw [elementClass_of_array harray, ← derives_iff_of_array harray, ← descriptorClasses_eq_ok_iff]
  cases hclasses : descriptorClasses name with
  | error failure => exact iff_of_false (fun h => by cases h) (fun h => by cases h)
  | ok names =>
    -- an array type mentions one class at most
    obtain ⟨type, hderives⟩ := (derives_iff_of_array harray).mp (descriptorClasses_eq_ok_iff.mp hclasses)
    have hmap : (Except.ok names : Except Failure (List String)).map List.head? = .ok names.head? := rfl
    rw [hmap, hderives.names_eq]
    cases (FieldType.array type).className? <;> cases element <;> simp

theorem elementClass_eq_error_iff :
    elementClass name = .error (.badDescriptor name) ↔
      ¬∃ type names, FieldType.Derives (.array type) name.toList names := by
  have hderives : (∃ type names, FieldType.Derives (.array type) name.toList names) ↔
      ∃ tree names, Descriptor.Derives tree name.toList names := by
    constructor
    · rintro ⟨type, names, h⟩
      obtain ⟨tree, htree⟩ := (derives_iff_of_array harray).mpr ⟨type, h⟩
      exact ⟨tree, names, htree⟩
    · rintro ⟨tree, names, h⟩
      obtain ⟨type, htype⟩ := (derives_iff_of_array harray).mp ⟨tree, h⟩
      exact ⟨type, names, htype⟩
  rw [hderives, ← descriptorClasses_eq_error_iff, elementClass_of_array harray]
  cases descriptorClasses name with
  | error failure =>
    constructor
    · intro h
      rw [Except.error.inj h]
    · intro h
      rw [Except.error.inj h]
      rfl
  | ok names => exact iff_of_false (fun h => by cases h) (fun h => by cases h)

end Arrays

/-- A text is read as the grammar derives it, by one tree at most, and otherwise refused as it stands. A class
constant that starts with a bracket is read as an array type, for the class of its elements if they have one. -/
theorem descriptorClasses_exact (text : String) :
    (∀ names, descriptorClasses text = .ok names ↔ ∃ tree, Descriptor.Derives tree text.toList names) ∧
    (∀ tree names other names', Descriptor.Derives tree text.toList names →
      Descriptor.Derives other text.toList names' → tree = other ∧ names = names') ∧
    (descriptorClasses text = .error (.badDescriptor text) ↔
      ¬∃ tree names, Descriptor.Derives tree text.toList names) ∧
    (text.toList.head? = some '[' →
      (∀ element, elementClass text = .ok element ↔
        ∃ type, FieldType.Derives (.array type) text.toList element.toList) ∧
      (elementClass text = .error (.badDescriptor text) ↔
        ¬∃ type names, FieldType.Derives (.array type) text.toList names)) := by
  refine ⟨fun names => descriptorClasses_eq_ok_iff, ?_, descriptorClasses_eq_error_iff, fun harray => ?_⟩
  · intro tree names other names' h h'
    have hsame : tree = other :=
      Option.some.inj ((Descriptor.parse?_of_derives h).symm.trans (Descriptor.parse?_of_derives h'))
    exact ⟨hsame, by rw [h.names_eq, h'.names_eq, hsame]⟩
  · exact ⟨fun element => elementClass_eq_ok_iff harray, elementClass_eq_error_iff harray⟩

end ClassFile

end ModuleAudit
