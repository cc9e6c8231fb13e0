import ModuleAudit.Proofs.ClassFile.Calls
import ModuleAudit.Proofs.ClassFile.Instructions

/-! One instruction in any bytes. What an instruction is follows from its opcode and its offset alone
(`IsInstruction`), whatever the constant is that it names. On an instruction the scan makes its call
(`plays_instructionAt`), and on any bytes it does one of four things (`decoded_instructionAt`). -/

namespace ModuleAudit.ClassFile.Format
set_option autoImplicit false

open Scan Code

/-! ## Lengths -/

/-- The number that a table of ranges gives for an opcode. -/
def operandsIn (table : List (Nat × List (Nat × Nat))) (opcode : Nat) : Option Nat :=
  (table.find? fun row => row.2.any fun range => decide (range.1 ≤ opcode) && decide (opcode ≤ range.2)).map (·.1)

/-- The opcodes of instructions with one length, in ranges, by the number of operand bytes. -/
def fixedOpcodes : List (Nat × List (Nat × Nat)) :=
  [(0, [(0x00, 0x0F), (0x1A, 0x35), (0x3B, 0x83), (0x85, 0x98), (0xAC, 0xB1), (0xBE, 0xBF), (0xC2, 0xC3)]),
   (1, [(0x10, 0x10), (0x12, 0x12), (0x15, 0x19), (0x36, 0x3A), (0xA9, 0xA9), (0xBC, 0xBC)]),
   (2, [(0x11, 0x11), (0x13, 0x14), (0x84, 0x84), (0x99, 0xA8), (0xB2, 0xB8), (0xBB, 0xBB), (0xBD, 0xBD),
     (0xC0, 0xC1), (0xC6, 0xC7)]),
   (3, [(0xC5, 0xC5)]),
   (4, [(0xB9, 0xBA), (0xC8, 0xC9)])]

/-- The opcodes that may follow `wide`, by the number of bytes after them. -/
def widenedOpcodes : List (Nat × List (Nat × Nat)) :=
  [(2, [(0x15, 0x19), (0x36, 0x3A), (0xA9, 0xA9)]), (4, [(0x84, 0x84)])]

/-- The bytes after the opcode of a switch reach to the next multiple of four. -/
def Aligned (offset : Nat) (padding : Bytes) : Prop := padding.length < 4 ∧ (offset + 1 + padding.length) % 4 = 0

/-- A complete instruction at `offset`. -/
inductive IsInstruction (offset : Nat) : Bytes → Prop
  | fixed {opcode : UInt8} {operands : Bytes} (length : operandsIn fixedOpcodes opcode.toNat = some operands.length) :
      IsInstruction offset (opcode :: operands)
  | wide {opcode : UInt8} {operands : Bytes} (length : operandsIn widenedOpcodes opcode.toNat = some operands.length) :
      IsInstruction offset (0xC4 :: opcode :: operands)
  | tableSwitch {padding otherwise table : Bytes} {low high : Int32} (aligned : Aligned offset padding)
      (one : otherwise.length = 4) (order : low.toInt ≤ high.toInt)
      (full : (table.length : Int) = (high.toInt - low.toInt + 1) * 4) : IsInstruction offset
        (0xAA :: (padding ++ (otherwise ++ (ofU4 low.toUInt32 ++ (ofU4 high.toUInt32 ++ table)))))
  | lookupSwitch {padding otherwise table : Bytes} {pairs : Int32} (aligned : Aligned offset padding)
      (one : otherwise.length = 4) (order : 0 ≤ pairs.toInt) (full : (table.length : Int) = pairs.toInt * 8) :
      IsInstruction offset (0xAB :: (padding ++ (otherwise ++ (ofU4 pairs.toUInt32 ++ table))))

/-- No instruction starts with these bytes at `offset`, because of the opcode at `place`. -/
inductive BadCode (offset : Nat) : Bytes → Nat → Nat → Prop
  | undefined {opcode : UInt8} {rest : Bytes} (above : 0xC9 < opcode.toNat) :
      BadCode offset (opcode :: rest) opcode.toNat offset
  | widened {opcode : UInt8} {rest : Bytes} (none : operandsIn widenedOpcodes opcode.toNat = none) :
      BadCode offset (0xC4 :: opcode :: rest) opcode.toNat (offset + 1)
  | inverted {padding otherwise rest : Bytes} {low high : Int32} (aligned : Aligned offset padding)
      (one : otherwise.length = 4) (order : high.toInt < low.toInt) : BadCode offset
        (0xAA :: (padding ++ (otherwise ++ (ofU4 low.toUInt32 ++ (ofU4 high.toUInt32 ++ rest))))) 0xAA offset
  | negative {padding otherwise rest : Bytes} {pairs : Int32} (aligned : Aligned offset padding)
      (one : otherwise.length = 4) (order : pairs.toInt < 0) :
      BadCode offset (0xAB :: (padding ++ (otherwise ++ (ofU4 pairs.toUInt32 ++ rest)))) 0xAB offset

/-! ## References -/

/-- How an instruction uses a constant: the bytes of the index and those after it, and the event, which may hold the
number that is written after the index. -/
structure Reference where
  width : Nat
  extra : Nat
  resolve : ConstantPool → Nat → Except Failure (Nat → Event)

namespace Reference

def load (width : Nat) : Reference :=
  ⟨width, 0, fun pool index => (pool.loaded index).map fun constant _ => .load constant⟩

def ofMember (extra : Nat) (event : String → String → String → Event) : Reference :=
  ⟨2, extra, fun pool index => (pool.memberRef index).map fun ref _ => event ref.1 ref.2.1 ref.2.2⟩

def ofType (extra : Nat) (event : String → Nat → Event) : Reference :=
  ⟨2, extra, fun pool index => (pool.className index).map event⟩

def call (ref : Reference) (pool : ConstantPool) (operands : Bytes) : Call :=
  (ref.resolve pool (Bytes.bigEndian (operands.take ref.width))).map fun event =>
    event (Bytes.bigEndian (operands.drop ref.width))

/-- The constant is looked up before the bytes after its index are read. -/
def scan (ref : Reference) (pool : ConstantPool) : Scan Unit := do
  let index ← number ref.width
  let event ← answer (ref.resolve pool index)
  let more ← take ref.extra
  report (event more.bigEndian)

end Reference

def reference? (opcode : Nat) : Option Reference :=
  match opcode with
  | 0x12 => some (.load 1)
  | 0x13 | 0x14 => some (.load 2)
  | 0xB2 | 0xB3 | 0xB4 | 0xB5 => some (.ofMember 0 (.fieldUse opcode))
  | 0xB6 | 0xB7 | 0xB8 => some (.ofMember 0 (.methodUse opcode))
  | 0xB9 => some (.ofMember 2 (.methodUse opcode))
  | 0xBA => some ⟨2, 2, fun pool index => (pool.dynamicCall index).map fun ref _ => .dynamicCall ref.1 ref.2⟩
  | 0xBB | 0xBD | 0xC0 | 0xC1 => some (.ofType 0 fun type _ => .typeUse opcode type)
  | 0xC5 => some (.ofType 1 .arrayCreation)
  | _ => none

/-- The call of an instruction, if it uses a constant. -/
def callsOf (pool : ConstantPool) : Bytes → List Call
  | [] => []
  | opcode :: operands => ((reference? opcode.toNat).map fun ref => ref.call pool operands).toList

/-! ## Opcodes -/

theorem marked_cases : ∀ opcode ∈ markedOpcodes,
    (reference? opcode).isSome ∨ opcode = 0xAA ∨ opcode = 0xAB ∨ opcode = 0xC4 := by decide

theorem unmarked_table : ∀ opcode < 0x100, opcode ∉ markedOpcodes →
    (reference? opcode).isNone ∧ operandsIn fixedOpcodes opcode = plainOperands opcode := by decide +kernel

theorem undefined_table : ∀ opcode < 0x100,
    (opcode ∉ markedOpcodes ∧ plainOperands opcode = none ↔ 0xC9 < opcode) := by decide +kernel

theorem reference_table : ∀ opcode < 0x100, ((reference? opcode).all fun ref =>
    decide (operandsIn fixedOpcodes opcode = some (ref.width + ref.extra))) := by decide +kernel

theorem widened_table : ∀ opcode < 0x100, operandsIn widenedOpcodes opcode = wideOperands opcode := by decide +kernel

section

variable {pool : ConstantPool} {offset opcode : Nat}

theorem answer_map_bind {α β : Type} (value : Except Failure α) (f : α → β) (next : β → Scan Unit) :
    (answer (value.map f) >>= next) = (answer value >>= fun a => next (f a)) := by
  funext bytes
  cases value <;> rfl

theorem take_zero_bind (next : Bytes → Scan Unit) : (take 0 >>= next) = next [] := by
  funext bytes
  rfl

theorem skip_bind (n : Nat) (next : Unit → Scan Unit) : (skip n >>= next) = (take n >>= fun _ => next ()) := by
  rw [skip, bind_assoc]
  rfl

theorem number_bind (n : Nat) (next : Nat → Scan Unit) :
    (number n >>= next) = (take n >>= fun bytes => next bytes.bigEndian) := by
  rw [number, bind_assoc]
  rfl

theorem operands_of_reference {ref : Reference} (h : reference? opcode = some ref) :
    Code.operands pool offset opcode = ref.scan pool := by
  unfold reference? at h
  split at h
  case h_18 => cases h
  all_goals
    cases h
    simp only [Reference.scan, Reference.load, Reference.ofMember, Reference.ofType, answer_map_bind, take_zero_bind]
  -- calls by interface, dynamic calls and arrays of arrays read on after the constant is found
  case h_11 => simp only [Code.operands, skip_bind]; rfl
  case h_12 => simp only [Code.operands, skip_bind]; rfl
  case h_17 => simp only [Code.operands, u1, u2, number_bind]
  all_goals rfl

theorem operands_of_unmarked (h : opcode ∉ markedOpcodes) :
    Code.operands pool offset opcode = (plainOperands opcode).elim (fail (.badOpcode opcode offset)) skip := by
  unfold Code.operands
  split
  case h_21 => cases plainOperands opcode <;> rfl
  all_goals exact absurd (by decide) h

theorem operands_tableSwitch : Code.operands pool offset 0xAA =
    (skip (switchPadding offset) >>= fun _ => skip 4 >>= fun _ => i4 >>= fun low => i4 >>= fun high =>
      if high < low then fail (.badOpcode 0xAA offset) else skip ((high - low + 1).toNat * 4)) := rfl

theorem operands_lookupSwitch : Code.operands pool offset 0xAB =
    (skip (switchPadding offset) >>= fun _ => skip 4 >>= fun _ => i4 >>= fun pairs =>
      if pairs < 0 then fail (.badOpcode 0xAB offset) else skip (pairs.toNat * 8)) := rfl

/-- What follows `wide` and the opcode that it widens. -/
def afterWide (offset opcode : Nat) : Scan Unit :=
  (wideOperands opcode).elim (fail (.badOpcode opcode (offset + 1))) skip

theorem operands_wide : Code.operands pool offset 0xC4 = (u1 >>= afterWide offset) := by
  rw [Code.operands]
  congr 1
  funext inner
  rw [afterWide]
  cases wideOperands inner <;> rfl

theorem afterWide_eq (opcode : UInt8) : afterWide offset opcode.toNat =
    (operandsIn widenedOpcodes opcode.toNat).elim (fail (.badOpcode opcode.toNat (offset + 1))) skip := by
  rw [afterWide, widened_table opcode.toNat opcode.toNat_lt]

theorem opcode_cases (opcode : UInt8) :
    (∃ ref, reference? opcode.toNat = some ref ∧
      operandsIn fixedOpcodes opcode.toNat = some (ref.width + ref.extra)) ∨
    opcode = 0xAA ∨ opcode = 0xAB ∨ opcode = 0xC4 ∨
    (opcode.toNat ∉ markedOpcodes ∧ reference? opcode.toNat = none ∧
      operandsIn fixedOpcodes opcode.toNat = plainOperands opcode.toNat) := by
  by_cases hmarked : opcode.toNat ∈ markedOpcodes
  · obtain href | h | h | h := marked_cases opcode.toNat hmarked
    · obtain ⟨ref, href⟩ := Option.isSome_iff_exists.mp href
      have hlength := reference_table opcode.toNat opcode.toNat_lt
      rw [href, Option.all_some, decide_eq_true_eq] at hlength
      exact .inl ⟨ref, href, hlength⟩
    · exact .inr (.inl (UInt8.toNat_inj.mp h))
    · exact .inr (.inr (.inl (UInt8.toNat_inj.mp h)))
    · exact .inr (.inr (.inr (.inl (UInt8.toNat_inj.mp h))))
  · obtain ⟨hnone, hlength⟩ := unmarked_table opcode.toNat opcode.toNat_lt hmarked
    exact .inr (.inr (.inr (.inr ⟨hmarked, Option.isNone_iff_eq_none.mp hnone, hlength⟩)))

theorem aligned_iff {padding : Bytes} : Aligned offset padding ↔ padding.length = switchPadding offset := by
  rw [Aligned, switchPadding]
  omega

end

/-! ## From instructions to calls -/

section

variable {pool : ConstantPool} {offset : Nat}

theorem plays_reference (ref : Reference) {operands : Bytes} (hlength : operands.length = ref.width + ref.extra) :
    Plays (ref.scan pool) operands [ref.call pool operands] () := by
  have hindex : Reads (number ref.width) (operands.take ref.width) [] (Bytes.bigEndian (operands.take ref.width)) :=
    reads_number_of_length (List.length_take_of_le (by omega))
  have hmore : Reads (take ref.extra) (operands.drop ref.width) [] (operands.drop ref.width) := by
    have hextra : (operands.drop ref.width).length = ref.extra := by
      rw [List.length_drop]
      omega
    exact hextra ▸ reads_take (operands.drop ref.width)
  have hcall : Plays (answer (ref.resolve pool (Bytes.bigEndian (operands.take ref.width))) >>= fun event =>
      take ref.extra >>= fun more => report (event more.bigEndian)) (operands.drop ref.width)
      [ref.call pool operands] () := by
    refine plays_answer fun event => ?_
    have hreport : Plays (report (event (Bytes.bigEndian (operands.drop ref.width)))) []
        [.ok (event (Bytes.bigEndian (operands.drop ref.width)))] () := fun _ => rfl
    have hlast : Plays (take ref.extra >>= fun more => report (event more.bigEndian)) (operands.drop ref.width ++ [])
        [.ok (event (Bytes.bigEndian (operands.drop ref.width)))] () := Plays.after hmore hreport
    rwa [List.append_nil] at hlast
  have hplays : Plays (ref.scan pool) (operands.take ref.width ++ operands.drop ref.width)
      [ref.call pool operands] () := Plays.after hindex hcall
  rwa [List.take_append_drop] at hplays

/-- An instruction with its opcode. -/
def instructionAt (pool : ConstantPool) (offset : Nat) : Scan Unit := u1 >>= Code.operands pool offset

theorem plays_instructionAt {part : Bytes} (h : IsInstruction offset part) :
    Plays (instructionAt pool offset) part (callsOf pool part) () := by
  have hpadding : ∀ {padding}, Aligned offset padding → Reads (skip (switchPadding offset)) padding [] () :=
    fun aligned => reads_skip (aligned_iff.mp aligned)
  cases h with
  | @fixed opcode operands length =>
    refine Plays.after (reads_u1 opcode) ?_
    obtain ⟨ref, href, hlength⟩ | rfl | rfl | rfl | ⟨hmarked, hnone, hplain⟩ := opcode_cases opcode
    · rw [hlength, Option.some.injEq] at length
      rw [callsOf, href, operands_of_reference href]
      exact plays_reference ref length.symm
    · exact absurd length.symm (Option.some_ne_none _)
    · exact absurd length.symm (Option.some_ne_none _)
    · exact absurd length.symm (Option.some_ne_none _)
    · rw [hplain] at length
      rw [callsOf, hnone, operands_of_unmarked hmarked, length]
      exact (reads_skip rfl).plays
  | @wide opcode operands length =>
    have hskip : Plays (afterWide offset opcode.toNat) operands [] () := by
      rw [afterWide_eq, length]
      exact (reads_skip rfl).plays
    refine Plays.after (reads_u1 0xC4) ?_
    rw [show UInt8.toNat 0xC4 = 0xC4 from rfl, operands_wide]
    exact Plays.after (reads_u1 opcode) hskip
  | @tableSwitch padding otherwise table low high aligned one order full =>
    have htable : Reads (if high.toInt < low.toInt then fail (.badOpcode 0xAA offset)
        else skip ((high.toInt - low.toInt + 1).toNat * 4)) table [] () := by
      rw [if_neg (by omega)]
      exact reads_skip (by omega)
    refine Plays.after (reads_u1 0xAA) ?_
    rw [show UInt8.toNat 0xAA = 0xAA from rfl, operands_tableSwitch]
    refine (((hpadding aligned).then ((reads_skip one).then ((reads_i4 low).then ?_)))).plays
    exact (reads_i4 high).then htable
  | @lookupSwitch padding otherwise table pairs aligned one order full =>
    have htable : Reads (if pairs.toInt < 0 then fail (.badOpcode 0xAB offset)
        else skip (pairs.toInt.toNat * 8)) table [] () := by
      rw [if_neg (by omega)]
      exact reads_skip (by omega)
    refine Plays.after (reads_u1 0xAB) ?_
    rw [show UInt8.toNat 0xAB = 0xAB from rfl, operands_lookupSwitch]
    exact ((hpadding aligned).then ((reads_skip one).then ((reads_i4 pairs).then htable))).plays

theorem result_of_badCode {bytes : Bytes} {opcode place : Nat} (h : BadCode offset bytes opcode place) :
    (instructionAt pool offset bytes).result = .error (.badOpcode opcode place) := by
  have hswitch : ∀ {padding otherwise : Bytes} {next : Scan Unit} {rest : Bytes}, Aligned offset padding →
      otherwise.length = 4 → ((skip (switchPadding offset) >>= fun _ => skip 4 >>= fun _ => next)
        (padding ++ (otherwise ++ rest))).result = (next rest).result := by
    intro padding otherwise next rest aligned one
    rw [(reads_skip (aligned_iff.mp aligned)).run, (reads_skip one).run]
  cases h with
  | @undefined opcode rest above =>
    obtain ⟨hmarked, hplain⟩ := (undefined_table opcode.toNat opcode.toNat_lt).mpr above
    rw [instructionAt, u1_bind_cons, operands_of_unmarked hmarked, hplain]
    rfl
  | @widened opcode rest none =>
    rw [instructionAt, u1_bind_cons, show UInt8.toNat 0xC4 = 0xC4 from rfl, operands_wide, u1_bind_cons, afterWide_eq,
      none]
    rfl
  | @inverted padding otherwise rest low high aligned one order =>
    rw [instructionAt, u1_bind_cons, show UInt8.toNat 0xAA = 0xAA from rfl, operands_tableSwitch, hswitch aligned one,
      (reads_i4 low).run, (reads_i4 high).run, if_pos order]
    rfl
  | @negative padding otherwise rest pairs aligned one order =>
    rw [instructionAt, u1_bind_cons, show UInt8.toNat 0xAB = 0xAB from rfl, operands_lookupSwitch,
      hswitch aligned one, (reads_i4 pairs).run, if_pos order]
    rfl

end

/-! ## What a step can do -/

/-- A constant that is not found is named by its index. -/
def NamesIndex {α : Type} (value : Except Failure α) : Prop :=
  ∀ ⦃failure⦄, value = .error failure → ∃ index, failure = .badConstant index

section

variable {α β : Type} {pool : ConstantPool}

theorem namesIndex_ok (a : α) : NamesIndex (.ok a : Except Failure α) := fun _ h => by cases h

theorem namesIndex_error (index : Nat) : NamesIndex (.error (.badConstant index) : Except Failure α) :=
  fun _ h => ⟨index, (Except.error.inj h).symm⟩

theorem NamesIndex.bind {value : Except Failure α} {next : α → Except Failure β} (h : NamesIndex value)
    (h' : ∀ a, NamesIndex (next a)) : NamesIndex (value >>= next) := by
  intro failure hfailure
  cases value with
  | error other =>
    cases hfailure
    exact h rfl
  | ok a => exact h' a hfailure

theorem NamesIndex.map {value : Except Failure α} (h : NamesIndex value) (f : α → β) : NamesIndex (value.map f) := by
  intro failure hfailure
  cases value with
  | error other =>
    cases hfailure
    exact h rfl
  | ok a => cases hfailure

theorem namesIndex_get (index : Nat) : NamesIndex (pool.get index) := by
  rw [ConstantPool.get]
  split
  · exact namesIndex_ok _
  · exact namesIndex_error index

theorem namesIndex_utf8 (index : Nat) : NamesIndex (pool.utf8 index) := by
  refine (namesIndex_get index).bind fun constant => ?_
  split
  · exact namesIndex_ok _
  · exact namesIndex_error index

theorem namesIndex_className (index : Nat) : NamesIndex (pool.className index) := by
  refine (namesIndex_get index).bind fun constant => ?_
  split
  · exact namesIndex_utf8 _
  · exact namesIndex_error index

theorem namesIndex_nameAndType (index : Nat) : NamesIndex (pool.nameAndType index) := by
  refine (namesIndex_get index).bind fun constant => ?_
  split
  · exact (namesIndex_utf8 _).bind fun _ => (namesIndex_utf8 _).bind fun _ => namesIndex_ok _
  · exact namesIndex_error index

theorem namesIndex_memberRef (index : Nat) : NamesIndex (pool.memberRef index) := by
  refine (namesIndex_get index).bind fun constant => ?_
  split
  · exact (namesIndex_className _).bind fun _ => (namesIndex_nameAndType _).bind fun _ => namesIndex_ok _
  · exact namesIndex_error index

theorem namesIndex_dynamicCall (index : Nat) : NamesIndex (pool.dynamicCall index) := by
  refine (namesIndex_get index).bind fun constant => ?_
  split
  · exact namesIndex_nameAndType _
  · exact namesIndex_error index

theorem namesIndex_loaded (index : Nat) : NamesIndex (pool.loaded index) := by
  refine (namesIndex_get index).bind fun constant => ?_
  split
  · exact (namesIndex_utf8 _).map _
  · exact (namesIndex_utf8 _).map _
  · exact (namesIndex_utf8 _).map _
  · exact namesIndex_ok _
  · exact namesIndex_error index

theorem namesIndex_resolve {opcode : Nat} {ref : Reference} (h : reference? opcode = some ref) (index : Nat) :
    NamesIndex (ref.resolve pool index) := by
  unfold reference? at h
  split at h
  case h_18 => cases h
  case h_1 | h_2 | h_3 => cases h; exact (namesIndex_loaded index).map _
  case h_12 => cases h; exact (namesIndex_dynamicCall index).map _
  case h_13 | h_14 | h_15 | h_16 | h_17 => cases h; exact (namesIndex_className index).map _
  all_goals
    cases h
    exact (namesIndex_memberRef index).map _

end

/-- What becomes of bytes at `offset`: they end too soon, a constant is not found, no instruction starts with them, or
they begin with one. -/
inductive Decoded (offset : Nat) (bytes : Bytes) : Except Failure (Unit × Bytes) → Prop
  | cut : Decoded offset bytes (.error .unexpectedEnd)
  | unresolved (index : Nat) : Decoded offset bytes (.error (.badConstant index))
  | bad {opcode place : Nat} (h : BadCode offset bytes opcode place) :
      Decoded offset bytes (.error (.badOpcode opcode place))
  | whole {part rest : Bytes} (h : IsInstruction offset part) (hbytes : bytes = part ++ rest) :
      Decoded offset bytes (.ok ((), rest))

section

variable {pool : ConstantPool} {offset : Nat}

theorem decoded_take {n : Nat} {next : Bytes → Scan Unit} {bytes whole : Bytes}
    (h : ∀ front rest, front.length = n → bytes = front ++ rest → Decoded offset whole (next front rest).result) :
    Decoded offset whole ((take n >>= next) bytes).result := by
  by_cases hlength : n ≤ bytes.length
  · have hfront := List.length_take_of_le hlength
    have hrun := (reads_take (bytes.take n)).run next (bytes.drop n)
    rw [hfront, List.take_append_drop] at hrun
    rw [hrun]
    exact h _ _ hfront (List.take_append_drop n bytes).symm
  · have hshort : (bytes.take n).length ≠ n := by
      rw [List.length_take]
      omega
    rw [bind_apply, take, if_neg hshort]
    exact .cut

theorem decoded_skip_bind {n : Nat} {next : Unit → Scan Unit} {bytes whole : Bytes}
    (h : ∀ front rest, front.length = n → bytes = front ++ rest → Decoded offset whole (next () rest).result) :
    Decoded offset whole ((skip n >>= next) bytes).result := by
  rw [skip_bind]
  exact decoded_take h

theorem decoded_skip {n : Nat} {bytes whole : Bytes}
    (h : ∀ front rest, front.length = n → bytes = front ++ rest → Decoded offset whole (.ok ((), rest))) :
    Decoded offset whole (skip n bytes).result :=
  decoded_take h

theorem exists_ofU4 {bytes : Bytes} (h : bytes.length = 4) : ∃ value : Int32, bytes = ofU4 value.toUInt32 := by
  have hvalue := bigEndian_lt bytes
  have hbytes := big_bigEndian bytes
  rw [h] at hvalue hbytes
  refine ⟨(UInt32.ofNat bytes.bigEndian).toInt32, ?_⟩
  have hsmall : bytes.bigEndian < 0x100000000 := hvalue
  have hnumber : (UInt32.ofNat bytes.bigEndian).toInt32.toUInt32.toNat = bytes.bigEndian := by
    rw [UInt32.toUInt32_toInt32, UInt32.toNat_ofNat']
    omega
  rw [ofU4, hnumber, hbytes]

theorem decoded_i4 {next : Int → Scan Unit} {bytes whole : Bytes}
    (h : ∀ (value : Int32) rest, bytes = ofU4 value.toUInt32 ++ rest →
      Decoded offset whole (next value.toInt rest).result) :
    Decoded offset whole ((i4 >>= next) bytes).result := by
  by_cases hlength : 4 ≤ bytes.length
  · obtain ⟨value, hvalue⟩ := exists_ofU4 (List.length_take_of_le hlength)
    have hbytes : bytes = ofU4 value.toUInt32 ++ bytes.drop 4 := by rw [← hvalue, List.take_append_drop]
    rw [hbytes, (reads_i4 value).run]
    exact h value _ hbytes
  · have hshort : (bytes.take 4).length ≠ 4 := by
      rw [List.length_take]
      omega
    simp only [bind_apply, i4, u4, number, take, if_neg hshort]
    exact .cut

theorem decoded_reference {opcode : UInt8} {ref : Reference} (href : reference? opcode.toNat = some ref)
    (hlength : operandsIn fixedOpcodes opcode.toNat = some (ref.width + ref.extra)) (bytes : Bytes) :
    Decoded offset (opcode :: bytes) (ref.scan pool bytes).result := by
  rw [Reference.scan, number_bind]
  refine decoded_take fun index middle hindex hbytes => ?_
  rw [bind_apply]
  cases hanswer : ref.resolve pool index.bigEndian with
  | error failure =>
    obtain ⟨constant, rfl⟩ := namesIndex_resolve href _ hanswer
    exact .unresolved constant
  | ok event =>
    refine decoded_take fun more rest hmore hmiddle => ?_
    have hpart : IsInstruction offset (opcode :: (index ++ more)) := by
      refine .fixed ?_
      rw [hlength, List.length_append, hindex, hmore]
    exact .whole hpart (by rw [hbytes, hmiddle, List.cons_append, List.append_assoc])

theorem decoded_tableSwitch (bytes : Bytes) :
    Decoded offset (0xAA :: bytes) (Code.operands pool offset 0xAA bytes).result := by
  rw [operands_tableSwitch]
  refine decoded_skip_bind fun padding tail hpadding hbytes => decoded_skip_bind fun otherwise tail' one htail => ?_
  refine decoded_i4 fun low tail'' htail' => decoded_i4 fun high table htail'' => ?_
  subst hbytes htail htail' htail''
  have haligned : Aligned offset padding := aligned_iff.mpr hpadding
  split
  case isTrue order => exact .bad (.inverted haligned one order)
  case isFalse order =>
    refine decoded_skip fun entries rest hlength htable => ?_
    have hfull : (entries.length : Int) = (high.toInt - low.toInt + 1) * 4 := by omega
    exact .whole (.tableSwitch haligned one (Int.not_lt.mp order) hfull)
      (by simp only [htable, List.cons_append, List.append_assoc])

theorem decoded_lookupSwitch (bytes : Bytes) :
    Decoded offset (0xAB :: bytes) (Code.operands pool offset 0xAB bytes).result := by
  rw [operands_lookupSwitch]
  refine decoded_skip_bind fun padding tail hpadding hbytes => decoded_skip_bind fun otherwise tail' one htail => ?_
  refine decoded_i4 fun pairs table htail' => ?_
  subst hbytes htail htail'
  have haligned : Aligned offset padding := aligned_iff.mpr hpadding
  split
  case isTrue order => exact .bad (.negative haligned one order)
  case isFalse order =>
    refine decoded_skip fun entries rest hlength htable => ?_
    have hfull : (entries.length : Int) = pairs.toInt * 8 := by omega
    exact .whole (.lookupSwitch haligned one (Int.not_lt.mp order) hfull)
      (by simp only [htable, List.cons_append, List.append_assoc])

theorem decoded_wide (bytes : Bytes) :
    Decoded offset (0xC4 :: bytes) (Code.operands pool offset 0xC4 bytes).result := by
  rw [operands_wide]
  cases bytes with
  | nil => exact .cut
  | cons inner bytes =>
    rw [u1_bind_cons, afterWide_eq]
    cases hinner : operandsIn widenedOpcodes inner.toNat with
    | none => exact .bad (.widened hinner)
    | some count =>
      refine decoded_skip fun operands rest hlength hbytes => ?_
      exact .whole (.wide (hinner.trans (congrArg some hlength.symm))) (by rw [hbytes]; rfl)

theorem decoded_instructionAt (bytes : Bytes) : Decoded offset bytes (instructionAt pool offset bytes).result := by
  cases bytes with
  | nil => exact .cut
  | cons opcode bytes =>
    rw [instructionAt, u1_bind_cons]
    obtain ⟨ref, href, hlength⟩ | rfl | rfl | rfl | ⟨hmarked, hnone, hfixed⟩ := opcode_cases opcode
    · rw [operands_of_reference href]
      exact decoded_reference href hlength bytes
    · exact decoded_tableSwitch bytes
    · exact decoded_lookupSwitch bytes
    · exact decoded_wide bytes
    · rw [operands_of_unmarked hmarked]
      cases hplain : plainOperands opcode.toNat with
      | none =>
        exact .bad (.undefined ((undefined_table opcode.toNat opcode.toNat_lt).mp ⟨hmarked, hplain⟩))
      | some count =>
        refine decoded_skip fun operands rest hlength hbytes => ?_
        have hpart : operandsIn fixedOpcodes opcode.toNat = some operands.length := by rw [hfixed, hplain, hlength]
        exact .whole (.fixed hpart) (by rw [hbytes, List.cons_append])

/-- An event is the last thing that an instruction gives. -/
theorem failsSilently_instructionAt : FailsSilently (instructionAt pool offset) := by
  refine (silent_number 1).bind_failsSilently fun opcode => ?_
  by_cases hmarked : opcode ∈ markedOpcodes
  · obtain href | rfl | rfl | rfl := marked_cases opcode hmarked
    · obtain ⟨ref, href⟩ := Option.isSome_iff_exists.mp href
      have hreport : ∀ event : Event, FailsSilently (report event) := fun _ _ _ h => by cases h
      rw [operands_of_reference href]
      refine (silent_number _).bind_failsSilently fun index => (silent_answer _).bind_failsSilently fun event => ?_
      exact (silent_take _).bind_failsSilently fun more => hreport _
    · rw [operands_tableSwitch]
      refine ((silent_skip _).bind fun _ => (silent_skip 4).bind fun _ => silent_i4.bind fun low => ?_).failsSilently
      refine silent_i4.bind fun high => ?_
      split
      · exact silent_fail _
      · exact silent_skip _
    · rw [operands_lookupSwitch]
      refine ((silent_skip _).bind fun _ => (silent_skip 4).bind fun _ => silent_i4.bind fun pairs => ?_).failsSilently
      split
      · exact silent_fail _
      · exact silent_skip _
    · rw [operands_wide]
      refine ((silent_number 1).bind fun inner => ?_).failsSilently
      rw [afterWide]
      cases wideOperands inner with
      | none => exact silent_fail _
      | some count => exact silent_skip count
  · rw [operands_of_unmarked hmarked]
    cases plainOperands opcode with
    | none => exact (silent_fail _).failsSilently
    | some count => exact (silent_skip count).failsSilently

end

end ModuleAudit.ClassFile.Format
