import ModuleAudit.Proofs.ClassFile.Annotations
import ModuleAudit.Proofs.ClassFile.Calls

/-! Annotations in any bytes. A tree of elements holds indices as its bytes give them, whether or not a pool holds
what they name; its calls are listed from the root down and from left to right. Bytes that the scan of an element
or an annotation reads are those of one tree, and it makes the calls of that tree; bytes that it fails on make it
call no more than any tree that they may be the beginning of (`annotations_exact`). The scan of an element is bounded
by the unread bytes, but the bound is never reached: the equations of the recursion have no other solution. -/

namespace ModuleAudit.ClassFile.Format
set_option autoImplicit false

open Scan Annotations

/-! ## Trees -/

/-- The value of an element by its indices. -/
inductive ElementTree where
  | constant (kind : ConstantKind) (index : UInt16)
  | enumeration (type name : UInt16)
  | classLiteral (descriptor : UInt16)
  | nested (type : UInt16) (elements : List (UInt16 × ElementTree))
  | array (values : List ElementTree)

namespace ElementTree

mutual

def encode : ElementTree → Bytes
  | .constant kind index => kind.tag :: ofU2 index
  | .enumeration type name => 0x65 :: (ofU2 type ++ ofU2 name)
  | .classLiteral descriptor => 0x63 :: ofU2 descriptor
  | .nested type elements => 0x40 :: (ofU2 type ++ (big 2 elements.length ++ encodeElements elements))
  | .array values => 0x5B :: (big 2 values.length ++ encodeValues values)

def encodeElements : List (UInt16 × ElementTree) → Bytes
  | [] => []
  | (name, value) :: rest => ofU2 name ++ (value.encode ++ encodeElements rest)

def encodeValues : List ElementTree → Bytes
  | [] => []
  | value :: rest => value.encode ++ encodeValues rest

end

mutual

/-- The calls of a tree, a node before what is inside of it. -/
def calls (pool : ConstantPool) (site : AnnotationSite) : ElementTree → List Call
  | .constant _ _ | .enumeration _ _ => []
  | .classLiteral descriptor => [(pool.utf8 descriptor.toNat).map .classLiteral]
  | .nested type elements => (pool.utf8 type.toNat).map (.annotated site) :: callsOfElements pool site elements
  | .array values => callsOfValues pool site values

def callsOfElements (pool : ConstantPool) (site : AnnotationSite) : List (UInt16 × ElementTree) → List Call
  | [] => []
  | (_, value) :: rest => value.calls pool site ++ callsOfElements pool site rest

def callsOfValues (pool : ConstantPool) (site : AnnotationSite) : List ElementTree → List Call
  | [] => []
  | value :: rest => value.calls pool site ++ callsOfValues pool site rest

end

mutual

def fits : ElementTree → Bool
  | .constant _ _ | .enumeration _ _ | .classLiteral _ => true
  | .nested _ elements => decide (elements.length < 0x10000) && elementsFit elements
  | .array values => decide (values.length < 0x10000) && valuesFit values

def elementsFit : List (UInt16 × ElementTree) → Bool
  | [] => true
  | (_, value) :: rest => value.fits && elementsFit rest

def valuesFit : List ElementTree → Bool
  | [] => true
  | value :: rest => value.fits && valuesFit rest

end

/-- An element with its name. -/
def encodeNamed (pair : UInt16 × ElementTree) : Bytes := ofU2 pair.1 ++ pair.2.encode

theorem encodeElements_eq (elements : List (UInt16 × ElementTree)) :
    encodeElements elements = elements.flatMap encodeNamed := by
  induction elements with
  | nil => rfl
  | cons pair rest ih => rw [encodeElements, ih, List.flatMap_cons, encodeNamed, List.append_assoc]

theorem encodeValues_eq (values : List ElementTree) : encodeValues values = values.flatMap encode := by
  induction values with
  | nil => rfl
  | cons value rest ih => rw [encodeValues, ih, List.flatMap_cons]

theorem callsOfElements_eq (pool : ConstantPool) (site : AnnotationSite) (elements : List (UInt16 × ElementTree)) :
    callsOfElements pool site elements = elements.flatMap fun pair => pair.2.calls pool site := by
  induction elements with
  | nil => rfl
  | cons pair rest ih => rw [callsOfElements, ih, List.flatMap_cons]

theorem callsOfValues_eq (pool : ConstantPool) (site : AnnotationSite) (values : List ElementTree) :
    callsOfValues pool site values = values.flatMap (calls pool site) := by
  induction values with
  | nil => rfl
  | cons value rest ih => rw [callsOfValues, ih, List.flatMap_cons]

theorem elementsFit_iff {elements : List (UInt16 × ElementTree)} :
    elementsFit elements ↔ ∀ pair ∈ elements, pair.2.fits := by
  induction elements with
  | nil => simp [elementsFit]
  | cons pair rest ih => simp [elementsFit, ih]

theorem valuesFit_iff {values : List ElementTree} : valuesFit values ↔ ∀ value ∈ values, value.fits := by
  induction values with
  | nil => simp [valuesFit]
  | cons value rest ih => simp [valuesFit, ih]

end ElementTree

/-- An annotation by its indices. -/
structure AnnotationTree where
  type : UInt16
  elements : List (UInt16 × ElementTree)

namespace AnnotationTree

def encode (tree : AnnotationTree) : Bytes :=
  ofU2 tree.type ++ (big 2 tree.elements.length ++ ElementTree.encodeElements tree.elements)

def calls (pool : ConstantPool) (site : AnnotationSite) (tree : AnnotationTree) : List Call :=
  (pool.utf8 tree.type.toNat).map (.annotated site) :: ElementTree.callsOfElements pool site tree.elements

def fits (tree : AnnotationTree) : Bool :=
  decide (tree.elements.length < 0x10000) && ElementTree.elementsFit tree.elements

theorem fits_iff {tree : AnnotationTree} :
    tree.fits ↔ tree.elements.length < 0x10000 ∧ ∀ pair ∈ tree.elements, pair.2.fits := by
  rw [fits, Bool.and_eq_true, decide_eq_true_eq, ElementTree.elementsFit_iff]

end AnnotationTree

/-! A nested annotation is one after its tag. -/

theorem ElementTree.encode_nested (type : UInt16) (elements : List (UInt16 × ElementTree)) :
    (ElementTree.nested type elements).encode = 0x40 :: (AnnotationTree.mk type elements).encode := by
  rw [ElementTree.encode, AnnotationTree.encode]

theorem ElementTree.calls_nested (pool : ConstantPool) (site : AnnotationSite) (type : UInt16)
    (elements : List (UInt16 × ElementTree)) :
    (ElementTree.nested type elements).calls pool site = (AnnotationTree.mk type elements).calls pool site := by
  rw [ElementTree.calls, AnnotationTree.calls]

theorem ElementTree.fits_nested (type : UInt16) (elements : List (UInt16 × ElementTree)) :
    (ElementTree.nested type elements).fits = (AnnotationTree.mk type elements).fits := by
  rw [ElementTree.fits, AnnotationTree.fits]

variable {pool : ConstantPool} {site : AnnotationSite}

/-! ## One step of the recursion -/

/-- What follows the tag of an element, given the scans of an annotation and of an element. -/
def afterTag (pool : ConstantPool) (whole element : Scan Unit) (tag : Nat) : Scan Unit :=
  if Char.ofNat tag ∈ constantTags then skip 2
  else if Char.ofNat tag = 'e' then skip 4
  else if Char.ofNat tag = 'c' then do
    let descriptor ← answer (pool.utf8 (← u2))
    report (.classLiteral descriptor)
  else if Char.ofNat tag = '@' then whole
  else if Char.ofNat tag = '[' then do
    let count ← u2
    times count element
  else fail (.badElement tag)

theorem elementIn_succ (room : Nat) : elementIn pool site (room + 1) =
    u1 >>= afterTag pool (singleOf pool site (elementIn pool site room)) (elementIn pool site room) := rfl

section Tags

variable {whole element : Scan Unit}

theorem afterTag_constant (kind : ConstantKind) : afterTag pool whole element kind.tag.toNat = skip 2 := by
  have hletter : Char.ofNat kind.tag.toNat ∈ constantTags := by cases kind <;> decide
  rw [afterTag, if_pos hletter]

theorem afterTag_enumeration : afterTag pool whole element 0x65 = skip 4 := by
  rw [afterTag, if_neg (by decide), if_pos (by decide)]

theorem afterTag_classLiteral : afterTag pool whole element 0x63 =
    (u2 >>= fun index => answer (pool.utf8 index) >>= fun descriptor => report (.classLiteral descriptor)) := by
  rw [afterTag, if_neg (by decide), if_neg (by decide), if_pos (by decide)]

theorem afterTag_nested : afterTag pool whole element 0x40 = whole := by
  rw [afterTag, if_neg (by decide), if_neg (by decide), if_neg (by decide), if_pos (by decide)]

theorem afterTag_array : afterTag pool whole element 0x5B = (u2 >>= fun count => times count element) := by
  rw [afterTag, if_neg (by decide), if_neg (by decide), if_neg (by decide), if_neg (by decide), if_pos (by decide)]

theorem toNat_of_letter {byte : UInt8} {letter : Char} (h : Char.ofNat byte.toNat = letter) :
    byte.toNat = letter.toNat := by
  have hvalid : byte.toNat.isValidChar := by
    have hlt := byte.toNat_lt
    exact Or.inl (by omega)
  rw [← h, Char.ofNat, dif_pos hvalid]
  rfl

theorem exists_kind {byte : UInt8} (h : Char.ofNat byte.toNat ∈ constantTags) :
    ∃ kind : ConstantKind, byte = kind.tag := by
  have htags : constantTags = [ConstantKind.byte, .char, .double, .float, .int, .long, .short, .boolean, .text].map
      fun kind => Char.ofNat kind.tag.toNat := by decide
  rw [htags] at h
  obtain ⟨kind, -, hkind⟩ := List.mem_map.mp h
  refine ⟨kind, UInt8.toNat_inj.mp ?_⟩
  rw [toNat_of_letter hkind.symm, ← toNat_of_letter rfl]

/-- The tags that stand before a value. -/
theorem tag_cases {byte : UInt8} {bytes rest : Bytes}
    (h : (afterTag pool whole element byte.toNat bytes).result = .ok ((), rest)) :
    (∃ kind : ConstantKind, byte = kind.tag) ∨ byte = 0x65 ∨ byte = 0x63 ∨ byte = 0x40 ∨ byte = 0x5B := by
  have hbyte : ∀ {letter : Char} {tag : UInt8}, letter.toNat = tag.toNat → Char.ofNat byte.toNat = letter →
      byte = tag := fun htag hletter => UInt8.toNat_inj.mp ((toNat_of_letter hletter).trans htag)
  rw [afterTag] at h
  split at h
  case isTrue hletter => exact .inl (exists_kind hletter)
  split at h
  case isTrue hletter => exact .inr (.inl (hbyte rfl hletter))
  split at h
  case isTrue hletter => exact .inr (.inr (.inl (hbyte rfl hletter)))
  split at h
  case isTrue hletter => exact .inr (.inr (.inr (.inl (hbyte rfl hletter))))
  split at h
  case isTrue hletter => exact .inr (.inr (.inr (.inr (hbyte rfl hletter))))
  cases h

end Tags

/-! ## From trees to calls -/

theorem plays_singleOf {element : Scan Unit} {tree : AnnotationTree} (hfits : tree.fits)
    (h : ∀ pair ∈ tree.elements, Plays element pair.2.encode (pair.2.calls pool site) ()) :
    Plays (singleOf pool site element) tree.encode (tree.calls pool site) () := by
  have hpair : ∀ pair ∈ tree.elements, Plays (skip 2 >>= fun _ => element) (ElementTree.encodeNamed pair)
      (pair.2.calls pool site) () := by
    intro pair hmem
    exact Plays.after (reads_skip (length_ofU2 pair.1)) (h pair hmem)
  have hcount : Reads u2 (big 2 tree.elements.length) [] tree.elements.length :=
    reads_number (AnnotationTree.fits_iff.mp hfits).1
  rw [AnnotationTree.encode, AnnotationTree.calls, ElementTree.encodeElements_eq, ElementTree.callsOfElements_eq]
  refine Plays.after (reads_u2 tree.type) (plays_answer fun descriptor => plays_report ?_)
  exact Plays.after hcount (plays_times tree.elements hpair)

theorem plays_tag {tag : UInt8} {next : Nat → Scan Unit} {bytes : Bytes} {calls : List Call}
    (h : Plays (next tag.toNat) bytes calls ()) : Plays (u1 >>= next) (tag :: bytes) calls () :=
  Plays.after (reads_u1 tag) h

theorem plays_elementIn {tree : ElementTree} (hfits : tree.fits) {room : Nat} (hroom : tree.encode.length ≤ room) :
    Plays (elementIn pool site room) tree.encode (tree.calls pool site) () := by
  induction room generalizing tree with
  | zero => cases tree <;> exact absurd hroom (Nat.not_succ_le_zero _)
  | succ room ih =>
    rw [elementIn_succ]
    cases tree with
    | constant kind index =>
      rw [ElementTree.encode, ElementTree.calls]
      refine plays_tag ?_
      rw [afterTag_constant]
      exact (reads_skip (length_ofU2 index)).plays
    | enumeration type name =>
      have hlength : (ofU2 type ++ ofU2 name).length = 4 := by
        rw [List.length_append, length_ofU2, length_ofU2]
      rw [ElementTree.encode, ElementTree.calls]
      refine plays_tag ?_
      rw [show UInt8.toNat 0x65 = 0x65 from rfl, afterTag_enumeration]
      exact (reads_skip hlength).plays
    | classLiteral descriptor =>
      have hcall : Plays (answer (pool.utf8 descriptor.toNat) >>= fun text => report (.classLiteral text)) []
          [(pool.utf8 descriptor.toNat).map .classLiteral] () := plays_answer fun text => fun _ => rfl
      rw [ElementTree.encode, ElementTree.calls, ← List.append_nil (ofU2 descriptor)]
      refine plays_tag ?_
      rw [show UInt8.toNat 0x63 = 0x63 from rfl, afterTag_classLiteral]
      exact Plays.after (reads_u2 descriptor) hcall
    | nested type elements =>
      -- the tag takes one byte, so what is inside has room in the bytes that are left
      rw [ElementTree.fits_nested] at hfits
      rw [ElementTree.encode_nested, ElementTree.calls_nested]
      refine plays_tag ?_
      rw [show UInt8.toNat 0x40 = 0x40 from rfl, afterTag_nested]
      refine plays_singleOf hfits fun pair hmem => ih ((AnnotationTree.fits_iff.mp hfits).2 pair hmem) ?_
      have hpair := length_le_flatMap ElementTree.encodeNamed hmem
      simp only [ElementTree.encode, ElementTree.encodeElements_eq, ElementTree.encodeNamed, List.length_cons,
        List.length_append] at hroom hpair
      omega
    | array values =>
      obtain ⟨hcount, hall⟩ : values.length < 0x10000 ∧ ∀ value ∈ values, value.fits := by
        rwa [ElementTree.fits, Bool.and_eq_true, decide_eq_true_eq, ElementTree.valuesFit_iff] at hfits
      have hnumber : Reads u2 (big 2 values.length) [] values.length := reads_number hcount
      rw [ElementTree.encode, ElementTree.calls, ElementTree.encodeValues_eq, ElementTree.callsOfValues_eq]
      refine plays_tag ?_
      rw [show UInt8.toNat 0x5B = 0x5B from rfl, afterTag_array]
      refine Plays.after hnumber (plays_times values fun value hmem => ih (hall value hmem) ?_)
      have hlength := length_le_flatMap ElementTree.encode hmem
      simp only [ElementTree.encode, ElementTree.encodeValues_eq, List.length_cons, List.length_append] at hroom
      omega

/-! ## From results to trees -/

section Results

/-- The scan of an element gives the bytes of a tree. -/
def FindsTrees (element : Scan Unit) : Prop :=
  ∀ {bytes rest : Bytes}, (element bytes).result = .ok ((), rest) →
    ∃ tree : ElementTree, tree.fits ∧ bytes = tree.encode ++ rest

theorem exists_tree_of_singleOf {element : Scan Unit} (h : FindsTrees element) {bytes rest : Bytes}
    (hresult : (singleOf pool site element bytes).result = .ok ((), rest)) :
    ∃ tree : AnnotationTree, tree.fits ∧ bytes = tree.encode ++ rest := by
  obtain ⟨index, afterType, htype, hresult⟩ := result_bind_eq_ok.mp hresult
  obtain ⟨descriptor, afterAnswer, hanswer, hresult⟩ := result_bind_eq_ok.mp hresult
  obtain ⟨⟨⟩, afterReport, hreport, hresult⟩ := result_bind_eq_ok.mp hresult
  obtain ⟨pairs, afterCount, hcount, htimes⟩ := result_bind_eq_ok.mp hresult
  obtain ⟨type, -, rfl⟩ := result_u2_eq_ok htype
  obtain ⟨-, rfl⟩ := result_answer_eq_ok.mp hanswer
  cases hreport
  obtain ⟨hpairs, rfl⟩ := result_number_eq_ok.mp hcount
  have hpair : ∀ {bytes rest}, ((skip 2 >>= fun _ => element) bytes).result = .ok ((), rest) →
      ∃ pair : UInt16 × ElementTree, pair.2.fits ∧ bytes = ElementTree.encodeNamed pair ++ rest := by
    intro bytes rest hresult
    obtain ⟨⟨⟩, middle, hskip, hvalue⟩ := result_bind_eq_ok.mp hresult
    obtain ⟨name, rfl⟩ := result_skip_two_eq_ok hskip
    obtain ⟨tree, hfits, rfl⟩ := h hvalue
    exact ⟨(name, tree), hfits, by rw [ElementTree.encodeNamed, List.append_assoc]⟩
  obtain ⟨elements, rfl, hall, rfl⟩ := exists_items_of_times hpair htimes
  refine ⟨⟨type, elements⟩, AnnotationTree.fits_iff.mpr ⟨hpairs, hall⟩, ?_⟩
  rw [AnnotationTree.encode, ElementTree.encodeElements_eq, List.append_assoc, List.append_assoc]

theorem findsTrees_elementIn (room : Nat) : FindsTrees (elementIn pool site room) := by
  induction room with
  | zero =>
    intro bytes rest hresult
    cases hresult
  | succ room ih =>
    intro bytes rest hresult
    rw [elementIn_succ] at hresult
    obtain ⟨tag, middle, htag, hvalue⟩ := result_bind_eq_ok.mp hresult
    obtain ⟨byte, rfl, rfl⟩ := result_u1_eq_ok htag
    obtain ⟨kind, rfl⟩ | rfl | rfl | rfl | rfl := tag_cases hvalue
    · rw [afterTag_constant] at hvalue
      obtain ⟨index, rfl⟩ := result_skip_two_eq_ok hvalue
      exact ⟨.constant kind index, rfl, by rw [ElementTree.encode, List.cons_append]⟩
    · rw [show UInt8.toNat 0x65 = 0x65 from rfl, afterTag_enumeration] at hvalue
      obtain ⟨type, name, rfl⟩ := result_skip_four_eq_ok hvalue
      exact ⟨.enumeration type name, rfl, by rw [ElementTree.encode, List.cons_append, List.append_assoc]⟩
    · rw [show UInt8.toNat 0x63 = 0x63 from rfl, afterTag_classLiteral] at hvalue
      obtain ⟨index, afterIndex, hindex, hvalue⟩ := result_bind_eq_ok.mp hvalue
      obtain ⟨text, afterAnswer, hanswer, hreport⟩ := result_bind_eq_ok.mp hvalue
      obtain ⟨descriptor, -, rfl⟩ := result_u2_eq_ok hindex
      obtain ⟨-, rfl⟩ := result_answer_eq_ok.mp hanswer
      cases hreport
      exact ⟨.classLiteral descriptor, rfl, by rw [ElementTree.encode, List.cons_append]⟩
    · rw [show UInt8.toNat 0x40 = 0x40 from rfl, afterTag_nested] at hvalue
      obtain ⟨⟨type, elements⟩, hfits, rfl⟩ := exists_tree_of_singleOf ih hvalue
      refine ⟨.nested type elements, by rw [ElementTree.fits_nested, hfits], ?_⟩
      rw [ElementTree.encode_nested, List.cons_append]
    · rw [show UInt8.toNat 0x5B = 0x5B from rfl, afterTag_array] at hvalue
      obtain ⟨count, afterCount, hcount, htimes⟩ := result_bind_eq_ok.mp hvalue
      obtain ⟨hlimit, rfl⟩ := result_number_eq_ok.mp hcount
      obtain ⟨values, rfl, hall, rfl⟩ := exists_items_of_times ih htimes
      refine ⟨.array values, ?_, ?_⟩
      · rw [ElementTree.fits, Bool.and_eq_true, decide_eq_true_eq, ElementTree.valuesFit_iff]
        exact ⟨hlimit, hall⟩
      · rw [ElementTree.encode, ElementTree.encodeValues_eq, List.cons_append, List.append_assoc]

end Results

/-! ## Bytes have one tree -/

/-- What begins with the encoding of one item does not begin with that of another. -/
def Delimits {ι : Type} (P : ι → Prop) (encode : ι → Bytes) : Prop :=
  ∀ {item other rest rest'}, P item → P other → encode item ++ rest = encode other ++ rest' →
    item = other ∧ rest = rest'

theorem delimits_big (width : Nat) : Delimits (· < limit width) (big width) := by
  intro value other rest rest' hvalue hother h
  have hlength : (big width value).length = (big width other).length := by rw [length_big, length_big]
  obtain ⟨hbytes, hrest⟩ := List.append_inj h hlength
  exact ⟨by rw [← bigEndian_big hvalue, hbytes, bigEndian_big hother], hrest⟩

theorem delimits_ofU2 : Delimits (fun _ => True) ofU2 := by
  intro value other rest rest' _ _ h
  obtain ⟨hvalue, hrest⟩ := delimits_big 2 value.toNat_lt other.toNat_lt h
  exact ⟨UInt16.toNat_inj.mp hvalue, hrest⟩

theorem Delimits.flatMap {ι : Type} {P : ι → Prop} {encode : ι → Bytes} (h : Delimits P encode)
    {items others : List ι} {rest rest' : Bytes} (hlength : items.length = others.length)
    (hitems : ∀ item ∈ items, P item) (hothers : ∀ other ∈ others, P other)
    (hbytes : items.flatMap encode ++ rest = others.flatMap encode ++ rest') : items = others ∧ rest = rest' := by
  induction items generalizing others with
  | nil =>
    obtain rfl := List.length_eq_zero_iff.mp hlength.symm
    exact ⟨rfl, hbytes⟩
  | cons item items ih =>
    cases others with
    | nil => cases hlength
    | cons other others =>
      rw [List.forall_mem_cons] at hitems hothers
      rw [List.flatMap_cons, List.flatMap_cons, List.append_assoc, List.append_assoc] at hbytes
      obtain ⟨rfl, htail⟩ := h hitems.1 hothers.1 hbytes
      obtain ⟨rfl, rfl⟩ := ih (Nat.succ.inj hlength) hitems.2 hothers.2 htail
      exact ⟨rfl, rfl⟩

/-- Counted items. -/
theorem Delimits.counted {ι : Type} {P : ι → Prop} {encode : ι → Bytes} (h : Delimits P encode) :
    Delimits (fun items : List ι => items.length < 0x10000 ∧ ∀ item ∈ items, P item)
      (fun items => big 2 items.length ++ items.flatMap encode) := by
  rintro items others rest rest' ⟨hcount, hitems⟩ ⟨hcount', hothers⟩ hbytes
  rw [List.append_assoc, List.append_assoc] at hbytes
  obtain ⟨hlength, htail⟩ := delimits_big 2 hcount hcount' hbytes
  exact h.flatMap hlength hitems hothers htail

theorem delimits_single {n : Nat}
    (h : Delimits (fun tree : ElementTree => tree.fits ∧ tree.encode.length ≤ n) ElementTree.encode) :
    Delimits (fun tree : AnnotationTree => tree.fits ∧ tree.encode.length ≤ n) AnnotationTree.encode := by
  have hnamed : Delimits (fun pair : UInt16 × ElementTree => pair.2.fits ∧ pair.2.encode.length ≤ n)
      ElementTree.encodeNamed := by
    rintro ⟨name, tree⟩ ⟨name', tree'⟩ rest rest' htree htree' hbytes
    rw [ElementTree.encodeNamed, ElementTree.encodeNamed, List.append_assoc, List.append_assoc] at hbytes
    obtain ⟨rfl, htail⟩ := delimits_ofU2 trivial trivial hbytes
    obtain ⟨rfl, rfl⟩ := h htree htree' htail
    exact ⟨rfl, rfl⟩
  have hinside : ∀ {tree : AnnotationTree}, tree.fits ∧ tree.encode.length ≤ n →
      tree.elements.length < 0x10000 ∧ ∀ pair ∈ tree.elements, pair.2.fits ∧ pair.2.encode.length ≤ n := by
    rintro tree ⟨hfits, hlength⟩
    obtain ⟨hcount, hall⟩ := AnnotationTree.fits_iff.mp hfits
    refine ⟨hcount, fun pair hmem => ⟨hall pair hmem, ?_⟩⟩
    have hpair := length_le_flatMap ElementTree.encodeNamed hmem
    simp only [AnnotationTree.encode, ElementTree.encodeElements_eq, ElementTree.encodeNamed, List.length_append]
      at hlength hpair
    omega
  rintro ⟨type, elements⟩ ⟨type', elements'⟩ rest rest' htree htree' hbytes
  simp only [AnnotationTree.encode, ElementTree.encodeElements_eq] at hbytes
  rw [List.append_assoc (ofU2 type), List.append_assoc (ofU2 type')] at hbytes
  obtain ⟨rfl, htail⟩ := delimits_ofU2 trivial trivial hbytes
  obtain ⟨rfl, rfl⟩ := hnamed.counted (hinside htree) (hinside htree') htail
  exact ⟨rfl, rfl⟩

theorem ConstantKind.tag_injective : Function.Injective ConstantKind.tag := by
  intro kind other h
  cases kind <;> cases other <;> first | rfl | exact absurd h (by decide)

theorem ConstantKind.tag_ne (kind : ConstantKind) :
    kind.tag ≠ 0x65 ∧ kind.tag ≠ 0x63 ∧ kind.tag ≠ 0x40 ∧ kind.tag ≠ 0x5B := by
  cases kind <;> decide

theorem delimits_element (n : Nat) :
    Delimits (fun tree : ElementTree => tree.fits ∧ tree.encode.length ≤ n) ElementTree.encode := by
  induction n with
  | zero =>
    rintro tree other rest rest' ⟨-, hlength⟩ - -
    cases tree <;> exact absurd hlength (Nat.not_succ_le_zero _)
  | succ n ih =>
    rintro tree other rest rest' ⟨hfits, hlength⟩ ⟨hfits', hlength'⟩ hbytes
    cases tree <;> cases other
    case constant.constant kind index kind' index' =>
      rw [ElementTree.encode, ElementTree.encode] at hbytes
      obtain ⟨htag, hbody⟩ := List.cons.inj hbytes
      obtain rfl := ConstantKind.tag_injective htag
      obtain ⟨rfl, rfl⟩ := delimits_ofU2 trivial trivial hbody
      exact ⟨rfl, rfl⟩
    case enumeration.enumeration type name type' name' =>
      rw [ElementTree.encode, ElementTree.encode, List.cons_append, List.cons_append, List.append_assoc,
        List.append_assoc] at hbytes
      obtain ⟨rfl, htail⟩ := delimits_ofU2 trivial trivial (List.cons.inj hbytes).2
      obtain ⟨rfl, rfl⟩ := delimits_ofU2 trivial trivial htail
      exact ⟨rfl, rfl⟩
    case classLiteral.classLiteral descriptor descriptor' =>
      rw [ElementTree.encode, ElementTree.encode] at hbytes
      obtain ⟨rfl, rfl⟩ := delimits_ofU2 trivial trivial (List.cons.inj hbytes).2
      exact ⟨rfl, rfl⟩
    case nested.nested type elements type' elements' =>
      rw [ElementTree.fits_nested] at hfits hfits'
      rw [ElementTree.encode_nested, List.length_cons, Nat.add_le_add_iff_right] at hlength hlength'
      rw [ElementTree.encode_nested, ElementTree.encode_nested] at hbytes
      obtain ⟨htree, rfl⟩ := delimits_single ih ⟨hfits, hlength⟩ ⟨hfits', hlength'⟩ (List.cons.inj hbytes).2
      cases htree
      exact ⟨rfl, rfl⟩
    case array.array values values' =>
      have hinside : ∀ {values : List ElementTree}, (ElementTree.array values).fits →
          (ElementTree.array values).encode.length ≤ n + 1 →
          values.length < 0x10000 ∧ ∀ value ∈ values, value.fits ∧ value.encode.length ≤ n := by
        intro values hfits hlength
        rw [ElementTree.fits, Bool.and_eq_true, decide_eq_true_eq, ElementTree.valuesFit_iff] at hfits
        refine ⟨hfits.1, fun value hmem => ⟨hfits.2 value hmem, ?_⟩⟩
        have hvalue := length_le_flatMap ElementTree.encode hmem
        simp only [ElementTree.encode, ElementTree.encodeValues_eq, List.length_cons, List.length_append] at hlength
        omega
      have hbody := hbytes
      rw [ElementTree.encode, ElementTree.encode, ElementTree.encodeValues_eq, ElementTree.encodeValues_eq] at hbody
      obtain ⟨rfl, rfl⟩ :=
        ih.counted (hinside hfits hlength) (hinside hfits' hlength') (List.cons.inj hbody).2
      exact ⟨rfl, rfl⟩
    all_goals
      -- the tags differ
      rw [ElementTree.encode, ElementTree.encode] at hbytes
      have htag := (List.cons.inj hbytes).1
      grind [ConstantKind.tag_ne]

/-! ## Room -/

theorem steady_singleOf {element : Scan Unit} (h : Steady element) : Steady (singleOf pool site element) := by
  refine steady_index fun descriptor => (steady_report _).bind fun _ => (steady_number 2).bind fun pairs => ?_
  exact steady_times pairs ((steady_skip 2).bind fun _ => h)

theorem steady_afterTag {whole element : Scan Unit} (h : Steady whole) (h' : Steady element) (tag : Nat) :
    Steady (afterTag pool whole element tag) := by
  unfold afterTag
  split
  · exact steady_skip 2
  split
  · exact steady_skip 4
  split
  · exact steady_index fun _ => steady_report _
  split
  · exact h
  split
  · exact (steady_number 2).bind fun count => steady_times count h'
  · exact steady_fail _

theorem steady_elementIn (room : Nat) : Steady (elementIn pool site room) := by
  induction room with
  | zero => exact steady_fail _
  | succ room ih => exact (steady_number 1).bind (steady_afterTag (steady_singleOf ih) ih)

theorem exact_elementIn (room : Nat) : Exact (elementIn pool site room) := (steady_elementIn room).decided

theorem agree_singleOf {n : Nat} {element other : Scan Unit} (hexact : Exact element) (h : Agree n element other) :
    Agree n (singleOf pool site element) (singleOf pool site other) := by
  have hpair : Agree n (skip 2 >>= fun _ => element) (skip 2 >>= fun _ => other) :=
    (agree_refl n _).bind (exact_skip 2) fun _ => h
  refine (agree_refl n _).bind exact_u2 fun index => (agree_refl n _).bind (exact_answer _) fun descriptor => ?_
  refine (agree_refl n _).bind (exact_report _) fun _ => (agree_refl n _).bind exact_u2 fun pairs => ?_
  exact agree_times ((exact_skip 2).bind fun _ => hexact) hpair pairs

/-- The tag takes a byte, so the scans may differ on inputs of one byte more. -/
theorem agree_step {n : Nat} {whole whole' element other : Scan Unit} (hexact : Exact element)
    (h : Agree n whole whole') (h' : Agree n element other) :
    Agree (n + 1) (u1 >>= afterTag pool whole element) (u1 >>= afterTag pool whole' other) := by
  have hafter : ∀ tag, Agree n (afterTag pool whole element tag) (afterTag pool whole' other tag) := by
    intro tag
    unfold afterTag
    split
    · exact agree_refl n _
    split
    · exact agree_refl n _
    split
    · exact agree_refl n _
    split
    · exact h
    split
    · exact (agree_refl n _).bind exact_u2 fun count => agree_times hexact h' count
    · exact agree_refl n _
  intro bytes hbytes
  cases bytes with
  | nil => rfl
  | cons byte rest =>
    rw [u1_bind_cons, u1_bind_cons]
    exact hafter byte.toNat rest (Nat.le_of_succ_le_succ hbytes)

theorem elementIn_nil (room : Nat) : elementIn pool site room [] = ⟨[], .error .unexpectedEnd⟩ := by
  cases room <;> rfl

/-- More room changes nothing. -/
theorem agree_rooms {n room room' : Nat} (h : n ≤ room) (h' : n ≤ room') :
    Agree n (elementIn pool site room) (elementIn pool site room') := by
  induction n generalizing room room' with
  | zero =>
    intro bytes hbytes
    obtain rfl := List.length_eq_zero_iff.mp (Nat.le_zero.mp hbytes)
    rw [elementIn_nil, elementIn_nil]
  | succ n ih =>
    obtain ⟨room, rfl⟩ := Nat.exists_eq_add_of_le' (Nat.le_trans (Nat.le_add_left 1 n) h)
    obtain ⟨room', rfl⟩ := Nat.exists_eq_add_of_le' (Nat.le_trans (Nat.le_add_left 1 n) h')
    have hless := ih (Nat.le_of_succ_le_succ h) (Nat.le_of_succ_le_succ h')
    rw [elementIn_succ, elementIn_succ]
    exact agree_step (exact_elementIn room) (agree_singleOf (exact_elementIn room) hless) hless

theorem agree_element (n : Nat) : Agree n (elementIn pool site n) (element pool site) :=
  fun bytes hbytes => agree_rooms hbytes (Nat.le_refl _) bytes (Nat.le_refl _)

theorem agree_single (n : Nat) : Agree n (singleOf pool site (elementIn pool site n)) (single pool site) :=
  agree_singleOf (exact_elementIn n) (agree_element n)

/-- The room is never used up: the scan of an element meets the equation that has no bound. -/
theorem element_eq_step : element pool site = u1 >>= afterTag pool (single pool site) (element pool site) := by
  funext bytes
  have hroom : elementIn pool site bytes.length bytes = elementIn pool site (bytes.length + 1) bytes :=
    agree_rooms (Nat.le_refl _) (Nat.le_succ _) bytes (Nat.le_refl _)
  rw [element, bounded, hroom, elementIn_succ]
  exact agree_step (exact_elementIn _) (agree_single _) (agree_element _) bytes (Nat.le_succ _)

theorem eq_element_of_step {other : Scan Unit}
    (h : other = u1 >>= afterTag pool (singleOf pool site other) other) : other = element pool site := by
  have hagree : ∀ n, Agree n (elementIn pool site n) other := by
    intro n
    induction n with
    | zero =>
      intro bytes hbytes
      obtain rfl := List.length_eq_zero_iff.mp (Nat.le_zero.mp hbytes)
      rw [h]
      rfl
    | succ n ih =>
      rw [h, elementIn_succ]
      exact agree_step (exact_elementIn n) (agree_singleOf (exact_elementIn n) ih) ih
  funext bytes
  exact (hagree bytes.length bytes (Nat.le_refl _)).symm

/-! ## Exactness -/

/-- The scan recognizes trees of a kind, in any bytes and with any constants. -/
structure Recognizes {ι : Type} (scan : Scan Unit) (fits : ι → Bool) (encode : ι → Bytes) (calls : ι → List Call) :
    Prop where
  /-- On the bytes of a tree it makes the calls of the tree, up to one that fails. -/
  plays : ∀ {tree}, fits tree → Plays scan (encode tree) (calls tree) ()
  /-- Where it succeeds it has read one tree, and the bytes begin with no other. -/
  reads : ∀ {bytes rest events}, scan bytes = ⟨events, .ok ((), rest)⟩ →
    ∃ tree, fits tree ∧ bytes = encode tree ++ rest ∧ events.map .ok = calls tree ∧
      ∀ other, fits other → encode other <+: bytes → other = tree
  /-- Where it fails, take any part of the input that is enough for the calls it made, as the bytes that it read
  are. Trees that begin with this part begin with these calls. -/
  fails : ∀ {bytes events failure}, scan bytes = ⟨events, .error failure⟩ →
    ∀ used, used <+: bytes → (scan used).events = events →
      ∀ tree, fits tree → used <+: encode tree → events.map .ok <+: calls tree

theorem recognizes_of_delimits {ι : Type} {scan : Scan Unit} {fits : ι → Bool} {encode : ι → Bytes}
    {calls : ι → List Call} (hplays : ∀ {tree}, fits tree → Plays scan (encode tree) (calls tree) ())
    (htrees : ∀ {bytes rest}, (scan bytes).result = .ok ((), rest) → ∃ tree, fits tree ∧ bytes = encode tree ++ rest)
    (hdelimits : Delimits (fun tree => fits tree) encode) (hgrowing : Growing scan) :
    Recognizes scan fits encode calls where
  plays := hplays
  reads := by
    intro bytes rest events hscan
    obtain ⟨tree, hfits, rfl⟩ := htrees (congrArg Outcome.result hscan)
    rw [hplays hfits rest, Outcome.mk.injEq] at hscan
    obtain ⟨rfl, hresult⟩ := hscan
    have hbroken : broken (calls tree) = none := by
      cases hcall : broken (calls tree) with
      | none => rfl
      | some failure =>
        rw [hcall] at hresult
        cases hresult
    refine ⟨tree, hfits, rfl, (eq_map_made hbroken).symm, ?_⟩
    rintro other hother ⟨rest', hbytes⟩
    exact (hdelimits hother hfits hbytes).1
  fails := by
    rintro bytes events failure - used - rfl tree hfits ⟨more, hmore⟩
    have hevents : (scan (encode tree)).events = made (calls tree) := by
      have htree := hplays hfits []
      rw [List.append_nil] at htree
      rw [htree]
    have hearly := hgrowing used more
    rw [hmore, hevents] at hearly
    exact (hearly.map fun event => Except.ok event).trans (made_prefix_calls _)

theorem recognizes_element :
    Recognizes (element pool site) ElementTree.fits ElementTree.encode (ElementTree.calls pool site) := by
  refine recognizes_of_delimits ?_ (fun hresult => findsTrees_elementIn _ hresult) ?_
    (growing_of_agree agree_element fun n => (steady_elementIn n).growing)
  · intro tree hfits rest
    exact plays_elementIn hfits (List.prefix_append _ _).length_le rest
  · intro tree other rest rest' hfits hother hbytes
    have hmax := Nat.le_max_left tree.encode.length other.encode.length
    have hmax' := Nat.le_max_right tree.encode.length other.encode.length
    exact delimits_element _ ⟨hfits, hmax⟩ ⟨hother, hmax'⟩ hbytes

theorem recognizes_single :
    Recognizes (single pool site) AnnotationTree.fits AnnotationTree.encode (AnnotationTree.calls pool site) := by
  refine recognizes_of_delimits ?_ (fun hresult => exists_tree_of_singleOf (findsTrees_elementIn _) hresult) ?_
    (growing_of_agree agree_single fun n => (steady_singleOf (steady_elementIn n)).growing)
  · intro tree hfits
    exact plays_singleOf hfits fun pair hmem =>
      recognizes_element.plays ((AnnotationTree.fits_iff.mp hfits).2 pair hmem)
  · intro tree other rest rest' hfits hother hbytes
    have hmax := Nat.le_max_left tree.encode.length other.encode.length
    have hmax' := Nat.le_max_right tree.encode.length other.encode.length
    exact delimits_single (delimits_element _) ⟨hfits, hmax⟩ ⟨hother, hmax'⟩ hbytes

/-- The two scans call each other without a bound and end on all bytes, for their equations have one solution; and
they recognize the trees of annotations and of elements. -/
theorem annotations_exact (pool : ConstantPool) (site : AnnotationSite) :
    (∀ whole value : Scan Unit,
      (whole = singleOf pool site value ∧ value = u1 >>= afterTag pool whole value) ↔
        (whole = single pool site ∧ value = element pool site)) ∧
    Recognizes (single pool site) AnnotationTree.fits AnnotationTree.encode (AnnotationTree.calls pool site) ∧
    Recognizes (element pool site) ElementTree.fits ElementTree.encode (ElementTree.calls pool site) := by
  refine ⟨fun whole value => ⟨?_, ?_⟩, recognizes_single, recognizes_element⟩
  · rintro ⟨rfl, hvalue⟩
    obtain rfl := eq_element_of_step hvalue
    exact ⟨rfl, rfl⟩
  · rintro ⟨rfl, rfl⟩
    exact ⟨rfl, element_eq_step⟩

end ModuleAudit.ClassFile.Format
