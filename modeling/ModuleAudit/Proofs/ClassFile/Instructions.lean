import ModuleAudit.Proofs.ClassFile.Annotations
import ModuleAudit.Proofs.ClassFile.Constants

/-! Instructions as the format describes them, and that the scan of a method's instructions reads them back, one
after the other. The bytes of a switch depend on the offset where it stands; the scan finds that offset from the
number of bytes that are left. -/

namespace ModuleAudit.ClassFile.Format
set_option autoImplicit false

open Scan Code

/-- The opcodes whose operands name nothing, in ranges, by the number of operand bytes. -/
def plainOpcodes : List (Nat × List (Nat × Nat)) :=
  [(0, [(0x00, 0x0F), (0x1A, 0x35), (0x3B, 0x83), (0x85, 0x98), (0xAC, 0xB1), (0xBE, 0xBF), (0xC2, 0xC3)]),
   (1, [(0x10, 0x10), (0x15, 0x19), (0x36, 0x3A), (0xA9, 0xA9), (0xBC, 0xBC)]),
   (2, [(0x11, 0x11), (0x84, 0x84), (0x99, 0xA8), (0xC6, 0xC7)]),
   (4, [(0xC8, 0xC9)])]

def isPlain (opcode operands : Nat) : Bool :=
  plainOpcodes.any fun row => decide (row.1 = operands) && row.2.any fun range =>
    decide (range.1 ≤ opcode) && decide (opcode ≤ range.2)

/-- The instructions on a local variable, which may have a wide index. -/
def variableOpcodes : List UInt8 := [0x15, 0x16, 0x17, 0x18, 0x19, 0x36, 0x37, 0x38, 0x39, 0x3A, 0xA9]

inductive FieldAccess where
  | getStatic
  | putStatic
  | getField
  | putField

def FieldAccess.opcode : FieldAccess → UInt8
  | .getStatic => 0xB2
  | .putStatic => 0xB3
  | .getField => 0xB4
  | .putField => 0xB5

inductive Invocation where
  | virtual
  | special
  | static

def Invocation.opcode : Invocation → UInt8
  | .virtual => 0xB6
  | .special => 0xB7
  | .static => 0xB8

inductive TypeOperation where
  | create
  | createArray
  | checkCast
  | instanceOf

def TypeOperation.opcode : TypeOperation → UInt8
  | .create => 0xBB
  | .createArray => 0xBD
  | .checkCast => 0xC0
  | .instanceOf => 0xC1

inductive Instruction (pool : List Entry) where
  | plain (opcode : UInt8) (operands : Bytes) (isPlain : isPlain opcode.toNat operands.length)
  /-- Loads a constant whose index is one byte. -/
  | loadNear (constant : LoadableRef pool) (near : constant.index.toNat < 0x100)
  | load (constant : LoadableRef pool)
  | loadTwoSlots (constant : LoadableRef pool)
  /-- Switches by a table with an offset for each key from `low` to `high`. -/
  | tableSwitch (otherwise : UInt32) (low high : Int32) (offsets : List UInt32) (order : low.toInt ≤ high.toInt)
      (full : (offsets.length : Int) = high.toInt - low.toInt + 1)
  | lookupSwitch (otherwise : UInt32) (pairs : List (UInt32 × UInt32)) (few : pairs.length < 0x80000000)
  | fieldUse (access : FieldAccess) (ref : MemberRef pool)
  | invoke (kind : Invocation) (ref : MemberRef pool)
  | invokeInterface (ref : MemberRef pool) (arguments : UInt8)
  | invokeDynamic (ref : CallSiteRef pool)
  | typeUse (operation : TypeOperation) (ref : ClassRef pool)
  | wide (opcode : UInt8) (slot : UInt16) (isVariable : opcode ∈ variableOpcodes)
  | wideIncrement (slot amount : UInt16)
  | createArrays (ref : ClassRef pool) (dimensions : UInt8)

namespace Instruction

variable {pool : List Entry}

def opcode : Instruction pool → UInt8
  | .plain opcode _ _ => opcode
  | .loadNear _ _ => 0x12
  | .load _ => 0x13
  | .loadTwoSlots _ => 0x14
  | .tableSwitch _ _ _ _ _ _ => 0xAA
  | .lookupSwitch _ _ _ => 0xAB
  | .fieldUse access _ => access.opcode
  | .invoke kind _ => kind.opcode
  | .invokeInterface _ _ => 0xB9
  | .invokeDynamic _ => 0xBA
  | .typeUse operation _ => operation.opcode
  | .wide _ _ _ | .wideIncrement _ _ => 0xC4
  | .createArrays _ _ => 0xC5

/-- The zeros after the opcode of a switch at `offset`, up to the next multiple of four. -/
def padding (offset : Nat) : Bytes := List.replicate (3 - offset % 4) 0

/-- What follows the opcode of an instruction at `offset`. -/
def operands (offset : Nat) : Instruction pool → Bytes
  | .plain _ operands _ => operands
  | .loadNear constant _ => [UInt8.ofNat constant.index.toNat]
  | .load constant | .loadTwoSlots constant => ofU2 constant.index
  | .tableSwitch otherwise low high offsets _ _ =>
    padding offset ++ (ofU4 otherwise ++ (ofU4 low.toUInt32 ++ (ofU4 high.toUInt32 ++ offsets.flatMap ofU4)))
  | .lookupSwitch otherwise pairs _ =>
    padding offset ++ (ofU4 otherwise ++ counted 4 (fun pair => ofU4 pair.1 ++ ofU4 pair.2) pairs)
  | .fieldUse _ ref | .invoke _ ref => ofU2 ref.index
  | .invokeInterface ref arguments => ofU2 ref.index ++ [arguments, 0]
  | .invokeDynamic ref => ofU2 ref.index ++ [0, 0]
  | .typeUse _ ref => ofU2 ref.index
  | .wide opcode slot _ => opcode :: ofU2 slot
  | .wideIncrement slot amount => 0x84 :: (ofU2 slot ++ ofU2 amount)
  | .createArrays ref dimensions => ofU2 ref.index ++ [dimensions]

def events : Instruction pool → List Event
  | .loadNear constant _ | .load constant | .loadTwoSlots constant => [.load constant.loaded]
  | .fieldUse access ref =>
    [.fieldUse access.opcode.toNat ref.owner.name.text ref.member.name.text ref.member.descriptor.text]
  | .invoke kind ref =>
    [.methodUse kind.opcode.toNat ref.owner.name.text ref.member.name.text ref.member.descriptor.text]
  | .invokeInterface ref _ =>
    [.methodUse 0xB9 ref.owner.name.text ref.member.name.text ref.member.descriptor.text]
  | .invokeDynamic ref => [.dynamicCall ref.call.name.text ref.call.descriptor.text]
  | .typeUse operation ref => [.typeUse operation.opcode.toNat ref.name.text]
  | .createArrays ref dimensions => [.arrayCreation ref.name.text dimensions.toNat]
  | _ => []

/-- Instructions of which the first starts at `offset`. -/
def encodeFrom : Nat → List (Instruction pool) → Bytes
  | _, [] => []
  | offset, instruction :: rest =>
    instruction.opcode :: (instruction.operands offset ++
      encodeFrom (offset + 1 + (instruction.operands offset).length) rest)

end Instruction

/-! ## Operands -/

/-- The opcodes of instructions that use a constant, switch or widen another instruction. -/
def markedOpcodes : List Nat :=
  [0x12, 0x13, 0x14, 0xAA, 0xAB, 0xB2, 0xB3, 0xB4, 0xB5, 0xB6, 0xB7, 0xB8, 0xB9, 0xBA, 0xBB, 0xBD, 0xC0, 0xC1, 0xC4,
    0xC5]

theorem plainOpcodes_table : ∀ row ∈ plainOpcodes, ∀ range ∈ row.2,
    ∀ opcode ∈ List.range' range.1 (range.2 + 1 - range.1),
      plainOperands opcode = some row.1 ∧ opcode ∉ markedOpcodes := by
  decide +kernel

theorem operands_of_isPlain {pool : ConstantPool} {offset opcode count : Nat} (h : isPlain opcode count) :
    Code.operands pool offset opcode = skip count := by
  obtain ⟨row, hrow, hcell⟩ := List.any_eq_true.mp h
  rw [Bool.and_eq_true, decide_eq_true_eq] at hcell
  obtain ⟨range, hrange, hbounds⟩ := List.any_eq_true.mp hcell.2
  rw [Bool.and_eq_true, decide_eq_true_eq, decide_eq_true_eq] at hbounds
  have hmem : opcode ∈ List.range' range.1 (range.2 + 1 - range.1) := by
    rw [List.mem_range'_1]
    omega
  obtain ⟨hplain, hmarked⟩ := plainOpcodes_table row hrow range hrange opcode hmem
  rw [hcell.1] at hplain
  unfold Code.operands
  split
  case h_21 => rw [hplain]
  all_goals exact absurd (by decide) hmarked

theorem switchPadding_eq (offset : Nat) : switchPadding offset = (Instruction.padding offset).length := by
  rw [Instruction.padding, List.length_replicate, switchPadding]
  omega

theorem reads_i4 (value : Int32) : Reads i4 (ofU4 value.toUInt32) [] value.toInt := by
  have hsign : (if value.toUInt32.toNat < 0x80000000 then (value.toUInt32.toNat : Int)
      else (value.toUInt32.toNat : Int) - 0x100000000) = value.toInt := by
    have hnat : value.toUInt32.toNat = value.toBitVec.toNat := rfl
    have hint : value.toInt = value.toBitVec.toInt := rfl
    rw [hnat, hint, BitVec.toInt_eq_toNat_cond]
    split <;> split <;> omega
  have hpure : Reads (pure (if value.toUInt32.toNat < 0x80000000 then (value.toUInt32.toNat : Int)
      else (value.toUInt32.toNat : Int) - 0x100000000)) [] [] value.toInt := by
    rw [hsign]
    exact reads_pure _
  exact (reads_u4 value.toUInt32).returns hpure

theorem reads_i4_count {count : Nat} (h : count < 0x80000000) : Reads i4 (big 4 count) [] (count : Int) := by
  have hlimit : count < limit 4 := Nat.lt_trans h (by decide)
  have hpure : Reads (pure (if count < 0x80000000 then (count : Int) else (count : Int) - 0x100000000)) [] []
      (count : Int) := by
    rw [if_pos h]
    exact reads_pure _
  exact (reads_number hlimit).returns hpure

theorem wideOperands_of_variable : ∀ opcode ∈ variableOpcodes, wideOperands opcode.toNat = some 2 := by
  decide +kernel

theorem reads_operands {pool : List Entry} (offset : Nat) (instruction : Instruction pool) :
    Reads (Code.operands (poolOf pool) offset instruction.opcode.toNat) (instruction.operands offset)
      instruction.events () := by
  have hpadding : Reads (skip (switchPadding offset)) (Instruction.padding offset) [] () :=
    reads_skip (switchPadding_eq offset).symm
  have hword : ∀ bits : UInt32, Reads (skip 4) (ofU4 bits) [] () := fun bits => reads_skip (length_ofU4 bits)
  cases instruction with
  | plain opcode operands isPlain =>
    rw [Instruction.opcode, operands_of_isPlain isPlain]
    exact reads_skip rfl
  | loadNear constant near =>
    have hindex : (UInt8.ofNat constant.index.toNat).toNat = constant.index.toNat := by
      rw [UInt8.toNat_ofNat']
      exact Nat.mod_eq_of_lt near
    have hloaded : (poolOf pool).loaded (UInt8.ofNat constant.index.toNat).toNat = .ok constant.loaded := by
      rw [hindex]
      exact loaded_poolOf constant
    exact reads_byte _ ((reads_answer hloaded).after (reads_report _))
  | load constant => exact reads_last_index (loaded_poolOf constant) (reads_report _)
  | loadTwoSlots constant => exact reads_last_index (loaded_poolOf constant) (reads_report _)
  | tableSwitch otherwise low high offsets order full =>
    have hlength : (offsets.flatMap ofU4).length = (high.toInt - low.toInt + 1).toNat * 4 := by
      rw [length_flatMap_of length_ofU4]
      omega
    have htable : Reads (if high.toInt < low.toInt then fail (.badOpcode 0xAA offset)
        else skip ((high.toInt - low.toInt + 1).toNat * 4)) (offsets.flatMap ofU4) [] () := by
      rw [if_neg (by omega)]
      exact reads_skip hlength
    exact hpadding.then ((hword otherwise).then ((reads_i4 low).then ((reads_i4 high).then htable)))
  | lookupSwitch otherwise pairs few =>
    have hpair : ∀ pair : UInt32 × UInt32, (ofU4 pair.1 ++ ofU4 pair.2).length = 8 := by
      intro pair
      rw [List.length_append, length_ofU4, length_ofU4]
    have hpairs : Reads (if (pairs.length : Int) < 0 then fail (.badOpcode 0xAB offset)
        else skip ((pairs.length : Int).toNat * 8)) (pairs.flatMap fun pair => ofU4 pair.1 ++ ofU4 pair.2) [] () := by
      rw [if_neg (by omega)]
      exact reads_skip (length_flatMap_of hpair pairs)
    exact hpadding.then ((hword otherwise).then ((reads_i4_count few).then hpairs))
  | fieldUse access ref =>
    cases access with
    | _ => exact reads_last_index (memberRef_poolOf ref) (reads_report _)
  | invoke kind ref =>
    cases kind with
    | _ => exact reads_last_index (memberRef_poolOf ref) (reads_report _)
  | invokeInterface ref arguments =>
    have hrest : Reads (skip 2) [arguments, 0] [] () := reads_skip rfl
    exact reads_index (memberRef_poolOf ref) (hrest.then (reads_report _))
  | invokeDynamic ref =>
    have hrest : Reads (skip 2) [0, 0] [] () := reads_skip rfl
    exact reads_index (dynamicCall_poolOf ref) (hrest.then (reads_report _))
  | typeUse operation ref =>
    cases operation with
    | _ => exact reads_last_index (className_poolOf ref) (reads_report _)
  | wide opcode slot isVariable =>
    have hoperands := wideOperands_of_variable opcode isVariable
    refine reads_byte opcode ?_
    rw [hoperands]
    exact reads_skip (length_ofU2 slot)
  | wideIncrement slot amount =>
    have hlength : (ofU2 slot ++ ofU2 amount).length = 4 := by
      rw [List.length_append, length_ofU2, length_ofU2]
    exact reads_byte 0x84 (reads_skip hlength)
  | createArrays ref dimensions =>
    exact reads_index (className_poolOf ref) (reads_byte dimensions (reads_report _))

/-! ## Sequences of instructions -/

theorem instructionsIn_of_unread {pool : ConstantPool} {size room : Nat} {bytes : Bytes} (h : bytes.length ≠ 0) :
    instructionsIn pool size (room + 1) bytes = (u1 >>= fun opcode =>
      Code.operands pool (size - bytes.length) opcode >>= fun _ => instructionsIn pool size room) bytes := by
  have hunread : ∀ next : Nat → Scan Unit, (unread >>= next) bytes = next bytes.length bytes := fun _ => rfl
  rw [instructionsIn, hunread, if_neg h]

theorem instructionsIn_encodeFrom {pool : List Entry} {size room offset : Nat}
    (instructions : List (Instruction pool))
    (hsize : offset + (Instruction.encodeFrom offset instructions).length = size)
    (hroom : (Instruction.encodeFrom offset instructions).length ≤ room) :
    instructionsIn (poolOf pool) size room (Instruction.encodeFrom offset instructions) =
      ⟨instructions.flatMap Instruction.events, .ok ((), [])⟩ := by
  induction instructions generalizing offset room with
  | nil =>
    cases room with
    | zero => rfl
    | succ room => rfl
  | cons instruction rest ih =>
    rw [Instruction.encodeFrom] at hsize hroom ⊢
    have hrest := @ih (room - 1) (offset + 1 + (instruction.operands offset).length)
    generalize Instruction.encodeFrom (offset + 1 + (instruction.operands offset).length) rest = after at *
    have hlength : (instruction.opcode :: (instruction.operands offset ++ after)).length =
        1 + (instruction.operands offset).length + after.length := by
      rw [List.length_cons, List.length_append]
      omega
    obtain ⟨less, rfl⟩ : ∃ less, room = less + 1 := ⟨room - 1, by omega⟩
    rw [Nat.add_sub_cancel] at hrest
    -- the number of bytes that are left tells the offset
    have hoffset : size - (instruction.opcode :: (instruction.operands offset ++ after)).length = offset := by
      omega
    have hcons : instruction.opcode :: (instruction.operands offset ++ after) =
        [instruction.opcode] ++ (instruction.operands offset ++ after) := rfl
    rw [instructionsIn_of_unread (by omega), hoffset, hcons, (reads_u1 instruction.opcode).run,
      (reads_operands offset instruction).run, hrest (by omega) (by omega), List.flatMap_cons]
    rfl

theorem reads_instructions {pool : List Entry} (instructions : List (Instruction pool)) :
    Reads (within (Instruction.encodeFrom 0 instructions) (Code.instructions (poolOf pool))) []
      (instructions.flatMap Instruction.events) () :=
  reads_within (instructionsIn_encodeFrom instructions (Nat.zero_add _) (Nat.le_refl _))

end ModuleAudit.ClassFile.Format
