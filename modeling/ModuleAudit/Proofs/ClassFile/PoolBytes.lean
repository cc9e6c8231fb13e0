import ModuleAudit.Proofs.ClassFile.Decoding

/-! The constants in any bytes that the scan of a pool accepts. Such bytes hold constants one after the other as long as
an index is left (`Holds`), and every row of constants that is written so is scanned (`IsPool.scan_eq`). A constant of
eight bytes takes two indices, of which the second may be one too many. -/

namespace ModuleAudit.ClassFile.Format
set_option autoImplicit false

open Scan

/-! ## Constants in bytes -/

def Entry.isText : Entry → Bool
  | .utf8 _ => true
  | _ => false

/-- The bytes of a constant. Those of a text need not be UTF-8. -/
inductive Spells : Bytes → Entry → Prop
  | text {raw : Bytes} (short : raw.length < 0x10000) :
      Spells (1 :: (big 2 raw.length ++ raw)) (.utf8 (Utf8.lossy raw))
  | other {entry : Entry} (h : entry.isText = false) : Spells entry.encode entry

/-- The constants of bytes, the first of them at the index `first`. Another one follows as long as an index below
`count` is left, so the second index of a last constant of eight bytes may be `count` itself. -/
inductive Holds (count : Nat) : Nat → Bytes → List Entry → Prop
  | full {first : Nat} (h : count ≤ first) : Holds count first [] []
  | next {first : Nat} {part bytes : Bytes} {entry : Entry} {entries : List Entry} (room : first < count)
      (spelled : Spells part entry) (more : Holds count (first + entry.width) bytes entries) :
      Holds count first (part ++ bytes) (entry :: entries)

/-- Bytes that start with a pool: the number of indices, and the constants from the index one on. -/
def IsPool (bytes : Bytes) (count : UInt16) (entries : List Entry) (rest : Bytes) : Prop :=
  ∃ body, bytes = ofU2 count ++ (body ++ rest) ∧ Holds count.toNat 1 body entries

theorem Spells.reads {part : Bytes} {entry : Entry} (h : Spells part entry) :
    Reads ConstantPool.slot part [] entry.slot := by
  cases h with
  | @text raw short =>
    have hlength : raw.length < limit 2 := short
    unfold ConstantPool.slot
    exact reads_byte 1 ((reads_number hlength).then ((reads_take raw).returns (reads_pure _)))
  | other hother =>
    refine Entry.reads_slot ?_
    cases entry with
    | utf8 text => cases hother
    | _ => rfl

/-- The scan of a pool after a constant, when `missing` indices were left beside its first one. -/
def afterSlot (missing : Nat) : Slot → Scan (List Constant)
  | .one constant => ConstantPool.slots missing >>= fun more => pure (constant :: more)
  | .two => ConstantPool.slots (missing - 1) >>= fun more => pure (.other :: .nothing :: more)

theorem slots_succ (missing : Nat) :
    ConstantPool.slots (missing + 1) = (ConstantPool.slot >>= afterSlot missing) := by
  cases missing with
  | zero =>
    rw [ConstantPool.slots]
    rfl
  | succ missing =>
    rw [ConstantPool.slots]
    rfl

theorem Holds.reads {count first : Nat} {body : Bytes} {entries : List Entry} (h : Holds count first body entries) :
    Reads (ConstantPool.slots (count - first)) body [] (heldBy entries) := by
  induction h with
  | full h =>
    rw [Nat.sub_eq_zero_of_le h]
    exact reads_pure []
  | @next first part bytes entry entries room spelled more ih =>
    have hslot := spelled.reads
    obtain ⟨missing, hmissing⟩ : ∃ missing, count - first = missing + 1 := ⟨count - first - 1, by omega⟩
    rw [hmissing, heldBy, slots_succ]
    rcases Entry.width_cases entry with ⟨hwidth, hone⟩ | ⟨hwidth, htwo⟩
    · have hrest : count - (first + entry.width) = missing := by omega
      rw [hrest] at ih
      rw [hone] at hslot
      rw [hwidth, if_neg (by decide)]
      exact hslot.then (ih.returns (reads_pure _))
    · have hrest : count - (first + entry.width) = missing - 1 := by omega
      rw [hrest] at ih
      rw [htwo] at hslot
      rw [hwidth, if_pos rfl]
      exact hslot.then (ih.returns (reads_pure _))

theorem IsPool.scan_eq {bytes rest : Bytes} {count : UInt16} {entries : List Entry}
    (h : IsPool bytes count entries rest) : ConstantPool.scan bytes = ⟨[], .ok (poolOf entries, rest)⟩ := by
  obtain ⟨body, rfl, hbody⟩ := h
  have hreads : Reads ConstantPool.scan (ofU2 count ++ body) [] (poolOf entries) :=
    (reads_u2 count).then (hbody.reads.returns (reads_pure _))
  rw [← List.append_assoc]
  exact hreads rest

/-! ## From a scan to the constants -/

theorem exists_word {bytes : Bytes} (h : bytes.length = 4) : ∃ word : UInt32, bytes = ofU4 word := by
  obtain ⟨value, hvalue⟩ := exists_ofU4 h
  exact ⟨value.toUInt32, hvalue⟩

theorem exists_words {bytes : Bytes} (h : bytes.length = 8) :
    ∃ high low : UInt32, bytes = ofU4 high ++ ofU4 low := by
  have hhigh : (bytes.take 4).length = 4 := List.length_take_of_le (by omega)
  have hlow : (bytes.drop 4).length = 4 := by
    rw [List.length_drop]
    omega
  obtain ⟨high, hhigh⟩ := exists_word hhigh
  obtain ⟨low, hlow⟩ := exists_word hlow
  exact ⟨high, low, by rw [← hhigh, ← hlow, List.take_append_drop]⟩

theorem exists_half {bytes : Bytes} (h : bytes.length = 2) : ∃ half : UInt16, bytes = ofU2 half := by
  have hskip : (skip 2 (bytes ++ [])).result = .ok ((), []) := result_skip_eq_ok.mpr ⟨bytes, h, rfl⟩
  obtain ⟨half, hhalf⟩ := result_skip_two_eq_ok hskip
  exact ⟨half, List.append_cancel_right hhalf⟩

theorem exists_halves {bytes : Bytes} (h : bytes.length = 4) :
    ∃ first second : UInt16, bytes = ofU2 first ++ ofU2 second := by
  have hskip : (skip 4 (bytes ++ [])).result = .ok ((), []) := result_skip_eq_ok.mpr ⟨bytes, h, rfl⟩
  obtain ⟨first, second, hhalves⟩ := result_skip_four_eq_ok hskip
  rw [List.append_nil, List.append_nil] at hhalves
  exact ⟨first, second, hhalves⟩

section

variable {bytes rest : Bytes} {slot : Slot}

theorem result_index_eq_ok {f : Nat → Slot}
    (h : ((u2 >>= fun value => pure (f value)) bytes).result = .ok (slot, rest)) :
    ∃ index : UInt16, slot = f index.toNat ∧ bytes = ofU2 index ++ rest := by
  obtain ⟨value, middle, hvalue, hpure⟩ := result_bind_eq_ok.mp h
  obtain ⟨index, rfl, rfl⟩ := result_u2_eq_ok hvalue
  cases hpure
  exact ⟨index, rfl, rfl⟩

theorem result_indices_eq_ok {f : Nat → Nat → Slot}
    (h : ((u2 >>= fun first => u2 >>= fun second => pure (f first second)) bytes).result = .ok (slot, rest)) :
    ∃ first second : UInt16, slot = f first.toNat second.toNat ∧ bytes = ofU2 first ++ (ofU2 second ++ rest) := by
  obtain ⟨value, middle, hvalue, hmore⟩ := result_bind_eq_ok.mp h
  obtain ⟨first, rfl, rfl⟩ := result_u2_eq_ok hvalue
  obtain ⟨second, hslot, rfl⟩ := result_index_eq_ok hmore
  exact ⟨first, second, hslot, rfl⟩

theorem result_passed_eq_ok {n : Nat} {passed : Slot}
    (h : ((skip n >>= fun _ => pure passed) bytes).result = .ok (slot, rest)) :
    ∃ front, slot = passed ∧ front.length = n ∧ bytes = front ++ rest := by
  obtain ⟨⟨⟩, middle, hskip, hpure⟩ := result_bind_eq_ok.mp h
  obtain ⟨front, hlength, rfl⟩ := result_skip_eq_ok.mp hskip
  cases hpure
  exact ⟨front, rfl, hlength, rfl⟩

/-- What one step of the scan of a pool read is the bytes of a constant. -/
theorem exists_entry_of_slot (h : (ConstantPool.slot bytes).result = .ok (slot, rest)) :
    ∃ entry part, Spells part entry ∧ slot = entry.slot ∧ bytes = part ++ rest := by
  unfold ConstantPool.slot at h
  obtain ⟨tag, body, htag, hbody⟩ := result_bind_eq_ok.mp h
  obtain ⟨byte, hbyte, rfl⟩ := result_u1_eq_ok htag
  split at hbody
  case h_1 =>
    obtain rfl : byte = 1 := UInt8.toNat_inj.mp hbyte.symm
    obtain ⟨length, middle, hlength, htake⟩ := result_bind_eq_ok.mp hbody
    obtain ⟨hshort, rfl⟩ := result_number_eq_ok.mp hlength
    obtain ⟨raw, after, hraw, hpure⟩ := result_bind_eq_ok.mp htake
    obtain ⟨rfl, rfl⟩ := result_take_eq_ok.mp hraw
    cases hpure
    exact ⟨_, _, .text hshort, rfl, by simp⟩
  case h_2 =>
    obtain rfl : byte = 3 := UInt8.toNat_inj.mp hbyte.symm
    obtain ⟨front, hslot, hlength, rfl⟩ := result_passed_eq_ok hbody
    obtain ⟨bits, rfl⟩ := exists_word hlength
    exact ⟨.integer bits, _, .other rfl, hslot, rfl⟩
  case h_3 =>
    obtain rfl : byte = 4 := UInt8.toNat_inj.mp hbyte.symm
    obtain ⟨front, hslot, hlength, rfl⟩ := result_passed_eq_ok hbody
    obtain ⟨bits, rfl⟩ := exists_word hlength
    exact ⟨.float bits, _, .other rfl, hslot, rfl⟩
  case h_4 =>
    obtain rfl : byte = 5 := UInt8.toNat_inj.mp hbyte.symm
    obtain ⟨front, hslot, hlength, rfl⟩ := result_passed_eq_ok hbody
    obtain ⟨high, low, rfl⟩ := exists_words hlength
    exact ⟨.long high low, _, .other rfl, hslot, rfl⟩
  case h_5 =>
    obtain rfl : byte = 6 := UInt8.toNat_inj.mp hbyte.symm
    obtain ⟨front, hslot, hlength, rfl⟩ := result_passed_eq_ok hbody
    obtain ⟨high, low, rfl⟩ := exists_words hlength
    exact ⟨.double high low, _, .other rfl, hslot, rfl⟩
  case h_6 =>
    obtain rfl : byte = 7 := UInt8.toNat_inj.mp hbyte.symm
    obtain ⟨name, hslot, rfl⟩ := result_index_eq_ok hbody
    exact ⟨.classRef name, _, .other rfl, hslot, rfl⟩
  case h_7 =>
    obtain rfl : byte = 8 := UInt8.toNat_inj.mp hbyte.symm
    obtain ⟨text, hslot, rfl⟩ := result_index_eq_ok hbody
    exact ⟨.string text, _, .other rfl, hslot, rfl⟩
  case h_8 =>
    obtain rfl : byte = 9 := UInt8.toNat_inj.mp hbyte.symm
    obtain ⟨first, second, hslot, rfl⟩ := result_indices_eq_ok hbody
    exact ⟨.fieldRef first second, _, .other rfl, hslot, rfl⟩
  case h_9 =>
    obtain rfl : byte = 10 := UInt8.toNat_inj.mp hbyte.symm
    obtain ⟨first, second, hslot, rfl⟩ := result_indices_eq_ok hbody
    exact ⟨.methodRef first second, _, .other rfl, hslot, rfl⟩
  case h_10 =>
    obtain rfl : byte = 11 := UInt8.toNat_inj.mp hbyte.symm
    obtain ⟨first, second, hslot, rfl⟩ := result_indices_eq_ok hbody
    exact ⟨.interfaceMethodRef first second, _, .other rfl, hslot, rfl⟩
  case h_11 =>
    obtain rfl : byte = 12 := UInt8.toNat_inj.mp hbyte.symm
    obtain ⟨first, second, hslot, rfl⟩ := result_indices_eq_ok hbody
    exact ⟨.nameAndType first second, _, .other rfl, hslot, rfl⟩
  case h_12 =>
    obtain rfl : byte = 15 := UInt8.toNat_inj.mp hbyte.symm
    obtain ⟨front, hslot, hlength, rfl⟩ := result_passed_eq_ok hbody
    obtain ⟨kind, tail, rfl⟩ := List.exists_cons_of_length_eq_add_one hlength
    obtain ⟨reference, rfl⟩ := exists_half (Nat.succ.inj hlength)
    exact ⟨.methodHandle kind reference, _, .other rfl, hslot, rfl⟩
  case h_13 =>
    obtain rfl : byte = 16 := UInt8.toNat_inj.mp hbyte.symm
    obtain ⟨descriptor, hslot, rfl⟩ := result_index_eq_ok hbody
    exact ⟨.methodType descriptor, _, .other rfl, hslot, rfl⟩
  case h_14 =>
    obtain rfl : byte = 17 := UInt8.toNat_inj.mp hbyte.symm
    obtain ⟨front, hslot, hlength, rfl⟩ := result_passed_eq_ok hbody
    obtain ⟨bootstrap, call, rfl⟩ := exists_halves hlength
    exact ⟨.dynamic bootstrap call, _, .other rfl, hslot, rfl⟩
  case h_15 =>
    obtain rfl : byte = 18 := UInt8.toNat_inj.mp hbyte.symm
    obtain ⟨⟨⟩, middle, hskip, hmore⟩ := result_bind_eq_ok.mp hbody
    obtain ⟨bootstrap, rfl⟩ := result_skip_two_eq_ok hskip
    obtain ⟨call, hslot, rfl⟩ := result_index_eq_ok hmore
    exact ⟨.invokeDynamic bootstrap call, _, .other rfl, hslot, rfl⟩
  case h_16 =>
    obtain rfl : byte = 19 := UInt8.toNat_inj.mp hbyte.symm
    obtain ⟨front, hslot, hlength, rfl⟩ := result_passed_eq_ok hbody
    obtain ⟨name, rfl⟩ := exists_half hlength
    exact ⟨.module name, _, .other rfl, hslot, rfl⟩
  case h_17 =>
    obtain rfl : byte = 20 := UInt8.toNat_inj.mp hbyte.symm
    obtain ⟨front, hslot, hlength, rfl⟩ := result_passed_eq_ok hbody
    obtain ⟨name, rfl⟩ := exists_half hlength
    exact ⟨.package name, _, .other rfl, hslot, rfl⟩
  case h_18 => cases hbody

/-- The scan of a pool goes on after a constant, with the indices that it left. -/
theorem result_slots_succ {missing : Nat} {constants : List Constant}
    (h : (ConstantPool.slots (missing + 1) bytes).result = .ok (constants, rest)) :
    ∃ entry part middle more, Spells part entry ∧ bytes = part ++ middle ∧
      (ConstantPool.slots (missing + 1 - entry.width) middle).result = .ok (more, rest) := by
  rw [slots_succ] at h
  obtain ⟨slot, middle, hslot, hmore⟩ := result_bind_eq_ok.mp h
  obtain ⟨entry, part, hpart, rfl, rfl⟩ := exists_entry_of_slot hslot
  refine ⟨entry, part, middle, ?_⟩
  rcases Entry.width_cases entry with ⟨hwidth, hone⟩ | ⟨hwidth, htwo⟩
  · rw [hone] at hmore
    obtain ⟨more, after, hslots, hpure⟩ := result_bind_eq_ok.mp hmore
    cases hpure
    rw [hwidth]
    exact ⟨more, hpart, rfl, hslots⟩
  · rw [htwo] at hmore
    obtain ⟨more, after, hslots, hpure⟩ := result_bind_eq_ok.mp hmore
    cases hpure
    rw [hwidth]
    exact ⟨more, hpart, rfl, hslots⟩

theorem width_pos (entry : Entry) : 0 < entry.width := by
  rcases Entry.width_cases entry with ⟨hwidth, -⟩ | ⟨hwidth, -⟩
  · omega
  · omega

theorem exists_holds_of_slots {count first : Nat} {constants : List Constant}
    (h : (ConstantPool.slots (count - first) bytes).result = .ok (constants, rest)) :
    ∃ body entries, bytes = body ++ rest ∧ Holds count first body entries := by
  generalize hmissing : count - first = missing at h
  induction missing using Nat.strongRecOn generalizing first bytes constants with
  | ind missing ih =>
    cases missing with
    | zero =>
      cases h
      exact ⟨[], [], rfl, .full (Nat.le_of_sub_eq_zero hmissing)⟩
    | succ missing =>
      obtain ⟨entry, part, middle, more, hpart, rfl, hmore⟩ := result_slots_succ h
      have hwidth := width_pos entry
      have hleft : count - (first + entry.width) = missing + 1 - entry.width := by omega
      obtain ⟨body, entries, rfl, hbody⟩ := ih _ (by omega) hleft hmore
      exact ⟨part ++ body, entry :: entries, (List.append_assoc _ _ _).symm, .next (by omega) hpart hbody⟩

/-- Bytes from which a pool is scanned start with constants. -/
theorem exists_isPool_of_scan {pool : ConstantPool} (h : (ConstantPool.scan bytes).result = .ok (pool, rest)) :
    ∃ count entries, IsPool bytes count entries rest := by
  obtain ⟨value, middle, hvalue, hmore⟩ := result_bind_eq_ok.mp h
  obtain ⟨count, rfl, rfl⟩ := result_u2_eq_ok hvalue
  obtain ⟨constants, after, hslots, hpure⟩ := result_bind_eq_ok.mp hmore
  cases hpure
  obtain ⟨body, entries, rfl, hbody⟩ := exists_holds_of_slots hslots
  exact ⟨count, entries, body, rfl, hbody⟩

end

end ModuleAudit.ClassFile.Format
