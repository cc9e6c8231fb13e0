import ModuleAudit.Proofs.ClassFile.Reads
import ModuleAudit.Proofs.Utf8

/-! Numbers and constants as the format of class files describes them, how they are written as bytes, and that the
scan of the pool reads them back. A constant of eight bytes takes two indices. An index comes together with the
constants it leads to, so the names it stands for are known without a pool that was read; the accessors of the
pool give the same names. -/

namespace ModuleAudit.ClassFile.Format
set_option autoImplicit false

open Scan

variable {α β : Type}

/-! ## Numbers -/

/-- The last `width` bytes of a number, the most significant one first. -/
def big : Nat → Nat → Bytes
  | 0, _ => []
  | width + 1, value => big width (value / 256) ++ [UInt8.ofNat value]

/-- One more than the greatest number of `width` bytes. -/
def limit (width : Nat) : Nat := Nat.pow 256 width

theorem limit_succ (width : Nat) : limit (width + 1) = 256 * limit width := Nat.mul_comm _ _

def ofU2 (value : UInt16) : Bytes := big 2 value.toNat

def ofU4 (value : UInt32) : Bytes := big 4 value.toNat

theorem length_big (width value : Nat) : (big width value).length = width := by
  induction width generalizing value with
  | zero => rfl
  | succ width ih => rw [big, List.length_append, ih, List.length_singleton]

theorem bigEndian_big {width value : Nat} (h : value < limit width) : (big width value).bigEndian = value := by
  induction width generalizing value with
  | zero =>
    have hzero : value = 0 := Nat.lt_one_iff.mp h
    rw [hzero]
    rfl
  | succ width ih =>
    have hfront : value / 256 < limit width := Nat.div_lt_of_lt_mul (limit_succ width ▸ h)
    have hlast : (UInt8.ofNat value).toNat = value % 256 := UInt8.toNat_ofNat'
    have happend : (big (width + 1) value).bigEndian =
        (big width (value / 256)).bigEndian * 256 + (UInt8.ofNat value).toNat := by
      rw [big, Bytes.bigEndian, List.foldl_append]
      rfl
    rw [happend, ih hfront, hlast]
    omega

theorem reads_number {width value : Nat} (h : value < limit width) :
    Reads (number width) (big width value) [] value := by
  have htake := reads_take (big width value)
  rw [length_big] at htake
  have hpure : Reads (pure (big width value).bigEndian) [] [] value := by
    rw [bigEndian_big h]
    exact reads_pure value
  exact htake.returns hpure

theorem reads_u2 (value : UInt16) : Reads u2 (ofU2 value) [] value.toNat := reads_number value.toNat_lt

theorem reads_u4 (value : UInt32) : Reads u4 (ofU4 value) [] value.toNat := reads_number value.toNat_lt

theorem length_ofU2 (value : UInt16) : (ofU2 value).length = 2 := length_big 2 _

theorem length_ofU4 (value : UInt32) : (ofU4 value).length = 4 := length_big 4 _

theorem reads_u1 (byte : UInt8) : Reads u1 [byte] [] byte.toNat := by
  have hvalue : Bytes.bigEndian [byte] = byte.toNat := Nat.zero_add _
  have hpure : Reads (pure (Bytes.bigEndian [byte])) [] [] byte.toNat := by
    rw [hvalue]
    exact reads_pure byte.toNat
  exact (reads_take [byte]).returns hpure

/-- The first step reads one byte. -/
theorem reads_byte (byte : UInt8) {next : Nat → Scan β} {bytes : Bytes} {events : List Event} {value : β}
    (h : Reads (next byte.toNat) bytes events value) : Reads (u1 >>= next) (byte :: bytes) events value :=
  (reads_u1 byte).then h

/-! ## Counted items -/

/-- The number of items in `width` bytes, then the items. -/
def counted {ι : Type} (width : Nat) (encode : ι → Bytes) (items : List ι) : Bytes :=
  big width items.length ++ items.flatMap encode

theorem length_le_flatMap {ι : Type} (encode : ι → Bytes) {items : List ι} {item : ι} (h : item ∈ items) :
    (encode item).length ≤ (items.flatMap encode).length := by
  obtain ⟨before, after, rfl⟩ := List.append_of_mem h
  rw [List.flatMap_append, List.flatMap_cons, List.length_append, List.length_append]
  omega

theorem length_flatMap_of {ι : Type} {encode : ι → Bytes} {width : Nat}
    (h : ∀ item, (encode item).length = width) (items : List ι) :
    (items.flatMap encode).length = items.length * width := by
  induction items with
  | nil => exact (Nat.zero_mul width).symm
  | cons item rest ih =>
    rw [List.flatMap_cons, List.length_append, h, ih, List.length_cons, Nat.succ_mul, Nat.add_comm]

theorem reads_counted {ι : Type} {width : Nat} {scan : Scan Unit} {encode : ι → Bytes} {events : ι → List Event}
    {items : List ι} (hlength : items.length < limit width)
    (h : ∀ item ∈ items, Reads scan (encode item) (events item) ()) :
    Reads (number width >>= fun count => times count scan) (counted width encode items)
      (items.flatMap events) () :=
  (reads_number hlength).then (reads_times items h)

/-- Counted items, and what follows them. -/
theorem reads_counted_bind {ι : Type} {width : Nat} {scan : Scan Unit} {encode : ι → Bytes}
    {events : ι → List Event} {items : List ι} (hlength : items.length < limit width)
    (h : ∀ item ∈ items, Reads scan (encode item) (events item) ()) {next : Unit → Scan β} {bytes : Bytes}
    {after : List Event} {b : β} (hnext : Reads (next ()) bytes after b) :
    Reads (number width >>= fun count => times count scan >>= next) (counted width encode items ++ bytes)
      (items.flatMap events ++ after) b := by
  rw [counted, List.append_assoc]
  exact (reads_number hlength).then ((reads_times items h).bind hnext)

/-! ## Constants -/

inductive Entry where
  | utf8 (text : String)
  | integer (bits : UInt32)
  | float (bits : UInt32)
  | long (high low : UInt32)
  | double (high low : UInt32)
  | classRef (name : UInt16)
  | string (text : UInt16)
  | fieldRef (owner member : UInt16)
  | methodRef (owner member : UInt16)
  | interfaceMethodRef (owner member : UInt16)
  | nameAndType (name descriptor : UInt16)
  | methodHandle (kind : UInt8) (reference : UInt16)
  | methodType (descriptor : UInt16)
  | dynamic (bootstrap call : UInt16)
  | invokeDynamic (bootstrap call : UInt16)
  | module (name : UInt16)
  | package (name : UInt16)
  deriving DecidableEq

namespace Entry

/-- The number of indices that a constant takes. -/
def width : Entry → Nat
  | .long _ _ | .double _ _ => 2
  | _ => 1

def encode : Entry → Bytes
  | .utf8 text => 1 :: (big 2 (Utf8.bytesOf text).length ++ Utf8.bytesOf text)
  | .integer bits => 3 :: ofU4 bits
  | .float bits => 4 :: ofU4 bits
  | .long high low => 5 :: (ofU4 high ++ ofU4 low)
  | .double high low => 6 :: (ofU4 high ++ ofU4 low)
  | .classRef name => 7 :: ofU2 name
  | .string text => 8 :: ofU2 text
  | .fieldRef owner member => 9 :: (ofU2 owner ++ ofU2 member)
  | .methodRef owner member => 10 :: (ofU2 owner ++ ofU2 member)
  | .interfaceMethodRef owner member => 11 :: (ofU2 owner ++ ofU2 member)
  | .nameAndType name descriptor => 12 :: (ofU2 name ++ ofU2 descriptor)
  | .methodHandle kind reference => 15 :: kind :: ofU2 reference
  | .methodType descriptor => 16 :: ofU2 descriptor
  | .dynamic bootstrap call => 17 :: (ofU2 bootstrap ++ ofU2 call)
  | .invokeDynamic bootstrap call => 18 :: (ofU2 bootstrap ++ ofU2 call)
  | .module name => 19 :: ofU2 name
  | .package name => 20 :: ofU2 name

/-- A text has at most 65535 bytes. -/
def fits : Entry → Bool
  | .utf8 text => decide ((Utf8.bytesOf text).length < 0x10000)
  | _ => true

/-- The constants that are loaded as a value which names no type. -/
def isValue : Entry → Bool
  | .integer _ | .float _ | .long _ _ | .double _ _ | .methodHandle _ _ | .dynamic _ _ => true
  | _ => false

/-- What a pool holds at the first index of a constant. -/
def held : Entry → Constant
  | .utf8 text => .utf8 text
  | .classRef name => .classRef name.toNat
  | .string text => .string text.toNat
  | .fieldRef owner member | .methodRef owner member | .interfaceMethodRef owner member =>
    .memberRef owner.toNat member.toNat
  | .nameAndType name descriptor => .nameAndType name.toNat descriptor.toNat
  | .methodType descriptor => .methodType descriptor.toNat
  | .invokeDynamic _ call => .dynamicCall call.toNat
  | _ => .other

/-- The constant as one step of the scan of a pool gives it. -/
def slot : Entry → Slot
  | .long _ _ | .double _ _ => .two
  | entry => .one entry.held

theorem width_cases (entry : Entry) :
    (entry.width = 1 ∧ entry.slot = .one entry.held) ∨ (entry.width = 2 ∧ entry.slot = .two) := by
  cases entry with
  | long high low => exact .inr ⟨rfl, rfl⟩
  | double high low => exact .inr ⟨rfl, rfl⟩
  | _ => exact .inl ⟨rfl, rfl⟩

theorem held_of_two {entry : Entry} (h : entry.slot = .two) : entry.held = .other := by
  cases entry with
  | long high low => rfl
  | double high low => rfl
  | _ => cases h

theorem held_of_isValue {entry : Entry} (h : entry.isValue) : entry.held = .other := by
  cases entry with
  | integer bits => rfl
  | float bits => rfl
  | long high low => rfl
  | double high low => rfl
  | methodHandle kind reference => rfl
  | dynamic bootstrap call => rfl
  | _ => cases h

theorem reads_slot {entry : Entry} (h : entry.fits) : Reads ConstantPool.slot entry.encode [] entry.slot := by
  have hword : ∀ bits : UInt32, Reads (skip 4) (ofU4 bits) [] () := fun bits => reads_skip (length_ofU4 bits)
  have hhalf : ∀ value : UInt16, Reads (skip 2) (ofU2 value) [] () := fun value => reads_skip (length_ofU2 value)
  unfold ConstantPool.slot
  cases entry with
  | utf8 text =>
    have hlength : (Utf8.bytesOf text).length < limit 2 := of_decide_eq_true h
    have htext : Reads (take (Utf8.bytesOf text).length >>= fun bytes =>
        pure (Slot.one (.utf8 (Utf8.lossy bytes)))) (Utf8.bytesOf text) [] (Slot.one (.utf8 text)) := by
      have hpure : Reads (pure (Slot.one (.utf8 (Utf8.lossy (Utf8.bytesOf text))))) [] [] (.one (.utf8 text)) := by
        rw [Utf8.lossy_bytesOf]
        exact reads_pure _
      exact (reads_take _).returns hpure
    exact reads_byte 1 ((reads_number hlength).then htext)
  | integer bits => exact reads_byte 3 ((hword bits).returns (reads_pure _))
  | float bits => exact reads_byte 4 ((hword bits).returns (reads_pure _))
  | long high low =>
    have hlength : (ofU4 high ++ ofU4 low).length = 8 := by
      rw [List.length_append, length_ofU4, length_ofU4]
    exact reads_byte 5 ((reads_skip hlength).returns (reads_pure _))
  | double high low =>
    have hlength : (ofU4 high ++ ofU4 low).length = 8 := by
      rw [List.length_append, length_ofU4, length_ofU4]
    exact reads_byte 6 ((reads_skip hlength).returns (reads_pure _))
  | classRef name => exact reads_byte 7 ((reads_u2 name).returns (reads_pure _))
  | string text => exact reads_byte 8 ((reads_u2 text).returns (reads_pure _))
  | fieldRef owner member =>
    exact reads_byte 9 ((reads_u2 owner).then ((reads_u2 member).returns (reads_pure _)))
  | methodRef owner member =>
    exact reads_byte 10 ((reads_u2 owner).then ((reads_u2 member).returns (reads_pure _)))
  | interfaceMethodRef owner member =>
    exact reads_byte 11 ((reads_u2 owner).then ((reads_u2 member).returns (reads_pure _)))
  | nameAndType name descriptor =>
    exact reads_byte 12 ((reads_u2 name).then ((reads_u2 descriptor).returns (reads_pure _)))
  | methodHandle kind reference =>
    have hlength : (kind :: ofU2 reference).length = 3 := by rw [List.length_cons, length_ofU2]
    exact reads_byte 15 ((reads_skip hlength).returns (reads_pure _))
  | methodType descriptor => exact reads_byte 16 ((reads_u2 descriptor).returns (reads_pure _))
  | dynamic bootstrap call =>
    have hlength : (ofU2 bootstrap ++ ofU2 call).length = 4 := by
      rw [List.length_append, length_ofU2, length_ofU2]
    exact reads_byte 17 ((reads_skip hlength).returns (reads_pure _))
  | invokeDynamic bootstrap call =>
    exact reads_byte 18 ((hhalf bootstrap).then ((reads_u2 call).returns (reads_pure _)))
  | module name => exact reads_byte 19 ((hhalf name).returns (reads_pure _))
  | package name => exact reads_byte 20 ((hhalf name).returns (reads_pure _))

end Entry

/-! ## The pool -/

/-- The number of indices that constants take. -/
def indices : List Entry → Nat
  | [] => 0
  | entry :: rest => entry.width + indices rest

/-- The constant at an index, when the first constant has the index `first`. -/
def entryFrom : Nat → List Entry → Nat → Option Entry
  | _, [], _ => none
  | first, entry :: rest, index => if index = first then some entry else entryFrom (first + entry.width) rest index

/-- The constant at an index. -/
def entryAt (pool : List Entry) (index : UInt16) : Option Entry := entryFrom 1 pool index.toNat

/-- What a pool with these constants holds from its first index on. -/
def heldBy : List Entry → List Constant
  | [] => []
  | entry :: rest => (if entry.width = 2 then [.other, .nothing] else [entry.held]) ++ heldBy rest

def poolOf (entries : List Entry) : ConstantPool := ⟨(.nothing :: heldBy entries).toArray⟩

theorem reads_slots {entries : List Entry} (h : entries.all Entry.fits) :
    Reads (ConstantPool.slots (indices entries)) (entries.flatMap Entry.encode) [] (heldBy entries) := by
  induction entries with
  | nil => exact reads_pure []
  | cons entry rest ih =>
    obtain ⟨hentry, hrest⟩ : entry.fits = true ∧ rest.all Entry.fits = true := by
      rwa [List.all_cons, Bool.and_eq_true] at h
    have hslot := Entry.reads_slot hentry
    have hslots := ih hrest
    rw [List.flatMap_cons, indices, heldBy]
    rcases Entry.width_cases entry with ⟨hwidth, hone⟩ | ⟨hwidth, htwo⟩
    · rw [hone] at hslot
      rw [hwidth, if_neg (by decide), Nat.add_comm]
      -- whether an index is left for a second half matters only after a constant of eight bytes
      generalize indices rest = missing at hslots
      cases missing with
      | zero =>
        rw [ConstantPool.slots]
        exact hslot.then (hslots.returns (reads_pure _))
      | succ missing =>
        rw [ConstantPool.slots]
        exact hslot.then (hslots.returns (reads_pure _))
    · rw [htwo] at hslot
      rw [hwidth, if_pos rfl, Nat.add_comm, ConstantPool.slots]
      exact hslot.then (hslots.returns (reads_pure _))

theorem reads_pool {entries : List Entry} (hfit : entries.all Entry.fits) (hcount : indices entries + 1 < 0x10000) :
    Reads ConstantPool.scan (big 2 (indices entries + 1) ++ entries.flatMap Entry.encode) [] (poolOf entries) := by
  have hnumber : Reads u2 (big 2 (indices entries + 1)) [] (indices entries + 1) := reads_number hcount
  exact hnumber.then ((reads_slots hfit).returns (reads_pure _))

/-- A constant is at no index before the first one, and a pool holds it where it is. -/
theorem heldBy_of_entryFrom {first index : Nat} {entries : List Entry} {entry : Entry}
    (h : entryFrom first entries index = some entry) :
    first ≤ index ∧ (heldBy entries)[index - first]? = some entry.held := by
  induction entries generalizing first with
  | nil => cases h
  | cons front rest ih =>
    rw [entryFrom] at h
    split at h
    case isTrue hindex =>
      have hfront : front = entry := Option.some.inj h
      have hoffset : index - first = 0 := by omega
      refine ⟨Nat.le_of_eq hindex.symm, ?_⟩
      rw [hoffset, heldBy, hfront]
      rcases Entry.width_cases entry with ⟨hwidth, -⟩ | ⟨hwidth, htwo⟩
      · rw [hwidth, if_neg (by decide)]
        rfl
      · rw [hwidth, if_pos rfl, Entry.held_of_two htwo]
        rfl
    case isFalse hindex =>
      obtain ⟨hle, hheld⟩ := ih h
      refine ⟨by omega, ?_⟩
      rw [heldBy]
      rcases Entry.width_cases front with ⟨hwidth, -⟩ | ⟨hwidth, -⟩
      · have hoffset : index - first = index - (first + front.width) + 1 := by omega
        rw [hoffset, hwidth, if_neg (by decide)]
        rw [hwidth] at hheld
        exact hheld
      · have hoffset : index - first = index - (first + front.width) + 2 := by omega
        rw [hoffset, hwidth, if_pos rfl]
        rw [hwidth] at hheld
        exact hheld

theorem get_poolOf {entries : List Entry} {index : UInt16} {entry : Entry} (h : entryAt entries index = some entry) :
    (poolOf entries).get index.toNat = .ok entry.held := by
  obtain ⟨hfirst, hheld⟩ := heldBy_of_entryFrom h
  obtain ⟨offset, hoffset⟩ : ∃ offset, index.toNat = offset + 1 := ⟨index.toNat - 1, by omega⟩
  rw [hoffset, Nat.add_sub_cancel] at hheld
  have hat : (poolOf entries).constants[index.toNat]? = some entry.held := by
    rw [hoffset, poolOf, List.getElem?_toArray, List.getElem?_cons_succ]
    exact hheld
  rw [ConstantPool.get, hat]

/-! ## References into the pool -/

structure TextRef (pool : List Entry) where
  index : UInt16
  text : String
  holds : entryAt pool index = some (.utf8 text)

structure ClassRef (pool : List Entry) where
  index : UInt16
  name : TextRef pool
  holds : entryAt pool index = some (.classRef name.index)

structure NameAndTypeRef (pool : List Entry) where
  index : UInt16
  name : TextRef pool
  descriptor : TextRef pool
  holds : entryAt pool index = some (.nameAndType name.index descriptor.index)

/-- A field, a method or a method of an interface. -/
structure MemberRef (pool : List Entry) where
  index : UInt16
  owner : ClassRef pool
  member : NameAndTypeRef pool
  holds : entryAt pool index ∈ [some (.fieldRef owner.index member.index),
    some (.methodRef owner.index member.index), some (.interfaceMethodRef owner.index member.index)]

structure CallSiteRef (pool : List Entry) where
  index : UInt16
  bootstrap : UInt16
  call : NameAndTypeRef pool
  holds : entryAt pool index = some (.invokeDynamic bootstrap call.index)

/-- A constant that an instruction can load. -/
inductive LoadableRef (pool : List Entry) where
  | classRef (ref : ClassRef pool)
  | string (index : UInt16) (text : TextRef pool) (holds : entryAt pool index = some (.string text.index))
  | methodType (index : UInt16) (descriptor : TextRef pool)
      (holds : entryAt pool index = some (.methodType descriptor.index))
  | value (index : UInt16) (entry : Entry) (holds : entryAt pool index = some entry) (isValue : entry.isValue)

namespace LoadableRef

variable {pool : List Entry}

def index : LoadableRef pool → UInt16
  | .classRef ref => ref.index
  | .string index _ _ | .methodType index _ _ | .value index _ _ _ => index

def loaded : LoadableRef pool → LoadedConstant
  | .classRef ref => .classRef ref.name.text
  | .string _ text _ => .text text.text
  | .methodType _ descriptor _ => .methodType descriptor.text
  | .value _ _ _ _ => .other

end LoadableRef

/-- The index of a class that may be missing; index zero stands for none. -/
def optionalIndex {pool : List Entry} (ref : Option (ClassRef pool)) : UInt16 := (ref.map (·.index)).getD 0

/-- The name of a class that may be missing. -/
def optionalName {pool : List Entry} (ref : Option (ClassRef pool)) : Option String := ref.map (·.name.text)

/-! ## The accessors of a pool -/

section

variable {pool : List Entry}

theorem utf8_poolOf (ref : TextRef pool) : (poolOf pool).utf8 ref.index.toNat = .ok ref.text := by
  rw [ConstantPool.utf8, get_poolOf ref.holds]
  rfl

theorem className_poolOf (ref : ClassRef pool) : (poolOf pool).className ref.index.toNat = .ok ref.name.text := by
  rw [ConstantPool.className, get_poolOf ref.holds]
  exact utf8_poolOf ref.name

theorem className?_poolOf (ref : Option (ClassRef pool)) :
    (poolOf pool).className? (optionalIndex ref).toNat = .ok (optionalName ref) := by
  cases ref with
  | none => rfl
  | some ref =>
    have hindex : ref.index.toNat ≠ 0 := by
      have hfirst := (heldBy_of_entryFrom ref.holds).1
      omega
    have hname := className_poolOf ref
    rw [ConstantPool.className?, optionalIndex, Option.map_some, Option.getD_some, if_neg hindex, hname]
    rfl

theorem nameAndType_poolOf (ref : NameAndTypeRef pool) :
    (poolOf pool).nameAndType ref.index.toNat = .ok (ref.name.text, ref.descriptor.text) := by
  have hname := utf8_poolOf ref.name
  have hdescriptor := utf8_poolOf ref.descriptor
  rw [ConstantPool.nameAndType, get_poolOf ref.holds]
  simp only [Entry.held, bind, Except.bind, hname, hdescriptor, pure, Except.pure]

theorem memberRef_poolOf (ref : MemberRef pool) : (poolOf pool).memberRef ref.index.toNat =
    .ok (ref.owner.name.text, ref.member.name.text, ref.member.descriptor.text) := by
  have howner := className_poolOf ref.owner
  have hmember := nameAndType_poolOf ref.member
  have hget : (poolOf pool).get ref.index.toNat =
      .ok (.memberRef ref.owner.index.toNat ref.member.index.toNat) := by
    have hkinds := ref.holds
    simp only [List.mem_cons, List.not_mem_nil, or_false] at hkinds
    rcases hkinds with h | h | h
    · exact get_poolOf h
    · exact get_poolOf h
    · exact get_poolOf h
  rw [ConstantPool.memberRef, hget]
  simp only [bind, Except.bind, howner, hmember, pure, Except.pure]

theorem dynamicCall_poolOf (ref : CallSiteRef pool) :
    (poolOf pool).dynamicCall ref.index.toNat = .ok (ref.call.name.text, ref.call.descriptor.text) := by
  rw [ConstantPool.dynamicCall, get_poolOf ref.holds]
  exact nameAndType_poolOf ref.call

theorem loaded_poolOf (ref : LoadableRef pool) : (poolOf pool).loaded ref.index.toNat = .ok ref.loaded := by
  cases ref with
  | classRef ref =>
    have hget := get_poolOf ref.holds
    have hname := utf8_poolOf ref.name
    rw [LoadableRef.index, ConstantPool.loaded, hget]
    simp only [Entry.held, bind, Except.bind, hname]
    rfl
  | string index text holds =>
    have hget := get_poolOf holds
    have htext := utf8_poolOf text
    rw [LoadableRef.index, ConstantPool.loaded, hget]
    simp only [Entry.held, bind, Except.bind, htext]
    rfl
  | methodType index descriptor holds =>
    have hget := get_poolOf holds
    have hdescriptor := utf8_poolOf descriptor
    rw [LoadableRef.index, ConstantPool.loaded, hget]
    simp only [Entry.held, bind, Except.bind, hdescriptor]
    rfl
  | value index entry holds isValue =>
    have hget := get_poolOf holds
    have hother : entry.held = .other := Entry.held_of_isValue isValue
    rw [LoadableRef.index, ConstantPool.loaded, hget, hother]
    rfl

end

/-! ## Scans of an index -/

/-- An index, the answer of an accessor of the pool for it, and what follows. -/
theorem reads_index {index : UInt16} {accessor : Nat → Except Failure α} {a : α}
    (h : accessor index.toNat = .ok a) {next : α → Scan β} {bytes : Bytes} {events : List Event} {b : β}
    (hnext : Reads (next a) bytes events b) :
    Reads (u2 >>= fun found => answer (accessor found) >>= next) (ofU2 index ++ bytes) events b :=
  (reads_u2 index).then ((reads_answer h).after hnext)

/-- An index that nothing follows. -/
theorem reads_last_index {index : UInt16} {accessor : Nat → Except Failure α} {a : α}
    (h : accessor index.toNat = .ok a) {next : α → Scan β} {events : List Event} {b : β}
    (hnext : Reads (next a) [] events b) :
    Reads (u2 >>= fun found => answer (accessor found) >>= next) (ofU2 index) events b :=
  (reads_u2 index).ends ((reads_answer h).after hnext)

end ModuleAudit.ClassFile.Format
