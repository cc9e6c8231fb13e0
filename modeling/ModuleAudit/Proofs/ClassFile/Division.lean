import ModuleAudit.Proofs.ClassFile.Decoding

/-! Code in any bytes, divided into instructions one after the other. The scan of a method's code finds the only
division if there is one and every constant is found, and else the longest beginning that divides in this way
(`instructions_exact`). -/

namespace ModuleAudit.ClassFile.Format
set_option autoImplicit false

open Scan Code

/-- Complete instructions, the first at `offset`. -/
def Divided : Nat → List Bytes → Prop
  | _, [] => True
  | offset, part :: rest => IsInstruction offset part ∧ Divided (offset + part.length) rest

section

variable {pool : ConstantPool} {offset : Nat}

theorem IsInstruction.ne_nil {part : Bytes} (h : IsInstruction offset part) : part ≠ [] := by
  cases h <;> exact List.cons_ne_nil _ _

theorem Divided.ne_nil {parts : List Bytes} (h : Divided offset parts) : ∀ part ∈ parts, part ≠ [] := by
  induction parts generalizing offset with
  | nil => exact fun _ hmem => absurd hmem List.not_mem_nil
  | cons part rest ih => exact List.forall_mem_cons.mpr ⟨h.1.ne_nil, ih h.2⟩

theorem instructionAt_cases (bytes : Bytes) :
    (∃ failure, instructionAt pool offset bytes = ⟨[], .error failure⟩) ∨
      ∃ part rest events, IsInstruction offset part ∧ bytes = part ++ rest ∧ events.map .ok = callsOf pool part ∧
        instructionAt pool offset bytes = ⟨events, .ok ((), rest)⟩ := by
  cases hstep : instructionAt pool offset bytes with
  | mk events result =>
    have hdecoded : Decoded offset bytes (instructionAt pool offset bytes).result := decoded_instructionAt bytes
    cases result with
    | error failure =>
      have hsilent := failsSilently_instructionAt (congrArg Outcome.result hstep)
      rw [hstep] at hsilent
      exact .inl ⟨failure, congrArg (Outcome.mk · _) hsilent⟩
    | ok pair =>
      rw [hstep] at hdecoded
      cases hdecoded with
      | @whole part rest h hbytes =>
        refine .inr ⟨part, rest, events, h, hbytes, ?_, rfl⟩
        rw [hbytes, plays_instructionAt h rest, Outcome.mk.injEq] at hstep
        obtain ⟨rfl, hresult⟩ := hstep
        cases hbroken : broken (callsOf pool part) with
        | none => exact (eq_map_made hbroken).symm
        | some failure =>
          rw [hbroken] at hresult
          cases hresult

theorem instructionsIn_step {size room : Nat} {bytes : Bytes} (h : bytes ≠ []) :
    instructionsIn pool size (room + 1) bytes =
      (instructionAt pool (size - bytes.length) >>= fun _ => instructionsIn pool size room) bytes := by
  rw [instructionsIn_of_unread (fun hlength => h (List.length_eq_zero_iff.mp hlength)), instructionAt, bind_assoc]

/-- The scan divides the code up to an instruction that fails. -/
theorem instructionsIn_cases {size room : Nat} {bytes : Bytes} (hsize : offset + bytes.length = size)
    (hroom : bytes.length ≤ room) :
    ∃ parts rest, bytes = parts.flatten ++ rest ∧ Divided offset parts ∧
      (instructionsIn pool size room bytes).events.map .ok = parts.flatMap (callsOf pool) ∧
      (rest = [] ∧ (instructionsIn pool size room bytes).result = .ok ((), []) ∨
        ∃ failure, rest ≠ [] ∧ (instructionsIn pool size room bytes).result = .error failure ∧
          (instructionAt pool (offset + parts.flatten.length) rest).result = .error failure) := by
  induction room generalizing offset bytes with
  | zero =>
    obtain rfl := List.length_eq_zero_iff.mp (Nat.le_zero.mp hroom)
    exact ⟨[], [], rfl, trivial, rfl, .inl ⟨rfl, rfl⟩⟩
  | succ room ih =>
    by_cases hbytes : bytes = []
    · subst hbytes
      exact ⟨[], [], rfl, trivial, rfl, .inl ⟨rfl, rfl⟩⟩
    have hoffset : size - bytes.length = offset := by omega
    rw [instructionsIn_step hbytes, hoffset, bind_apply]
    obtain ⟨failure, hstep⟩ | ⟨part, tail, events, hpart, rfl, hevents, hstep⟩ := instructionAt_cases bytes
    · rw [hstep]
      exact ⟨[], bytes, rfl, trivial, rfl, .inr ⟨failure, hbytes, rfl, congrArg Outcome.result hstep⟩⟩
    · have hpos := List.length_pos_iff.mpr hpart.ne_nil
      rw [List.length_append] at hsize hroom
      obtain ⟨parts, rest, rfl, hdivided, hcalls, hend⟩ :=
        ih (show offset + part.length + tail.length = size by omega) (by omega)
      rw [hstep]
      refine ⟨part :: parts, rest, (List.append_assoc _ _ _).symm, ⟨hpart, hdivided⟩, ?_, ?_⟩
      · rw [List.map_append, hevents, hcalls, List.flatMap_cons]
      · rwa [List.flatten_cons, List.length_append, ← Nat.add_assoc]

/-- The scan ends with what is left of an instruction whose constant is found, so no other part fits the bytes. -/
theorem eq_of_isInstruction {part other rest rest' : Bytes} (h : IsInstruction offset part)
    (hfound : broken (callsOf pool part) = none) (h' : IsInstruction offset other)
    (hbytes : part ++ rest = other ++ rest') : part = other ∧ rest = rest' := by
  have hpart : instructionAt pool offset (part ++ rest) = _ := plays_instructionAt h rest
  rw [hbytes, plays_instructionAt h' rest', hfound] at hpart
  have hresult := congrArg Outcome.result hpart
  cases hother : broken (callsOf pool other) with
  | some failure =>
    rw [hother] at hresult
    cases hresult
  | none =>
    rw [hother] at hresult
    cases hresult
    exact ⟨List.append_cancel_right hbytes, rfl⟩

/-- Two divisions of the same bytes are one up to where the first ends. -/
theorem prefix_or_next {parts others : List Bytes} {rest rest' : Bytes} (h : Divided offset parts)
    (hfound : broken (parts.flatMap (callsOf pool)) = none) (h' : Divided offset others)
    (hbytes : parts.flatten ++ rest = others.flatten ++ rest') :
    others <+: parts ∨ ∃ part more, others = parts ++ part :: more ∧
      IsInstruction (offset + parts.flatten.length) part ∧ part <+: rest := by
  induction parts generalizing offset others with
  | nil =>
    cases others with
    | nil => exact .inl List.prefix_rfl
    | cons part more =>
      refine .inr ⟨part, more, rfl, h'.1, more.flatten ++ rest', ?_⟩
      rw [← List.append_assoc, ← List.flatten_cons, ← hbytes]
      rfl
  | cons part parts ih =>
    cases others with
    | nil => exact .inl List.nil_prefix
    | cons other others =>
      rw [List.flatMap_cons, broken_append, Option.or_eq_none_iff] at hfound
      rw [List.flatten_cons, List.flatten_cons, List.append_assoc, List.append_assoc] at hbytes
      obtain ⟨rfl, htail⟩ := eq_of_isInstruction h.1 hfound.1 h'.1 hbytes
      obtain hprefix | ⟨next, more, rfl, hnext, hrest⟩ := ih h.2 hfound.2 h'.2 htail
      · exact .inl ((List.prefix_cons_inj part).mpr hprefix)
      · rw [Nat.add_assoc, ← List.length_append, ← List.flatten_cons] at hnext
        exact .inr ⟨next, more, rfl, hnext, hrest⟩

/-- No division of the same bytes has fewer parts or more. -/
theorem eq_of_flatten_eq {parts others : List Bytes} (h : Divided offset parts)
    (hfound : broken (parts.flatMap (callsOf pool)) = none) (h' : Divided offset others)
    (hbytes : others.flatten = parts.flatten) : others = parts := by
  obtain ⟨more, rfl⟩ | ⟨part, more, -, hpart, hnil⟩ := prefix_or_next h hfound h' (congrArg (· ++ []) hbytes.symm)
  · rw [List.flatten_append, List.self_eq_append_right, List.flatten_eq_nil_iff] at hbytes
    have hmore : more = [] := List.eq_nil_iff_forall_not_mem.mpr fun part hmem =>
      h.ne_nil part (List.mem_append_right others hmem) (hbytes part hmem)
    rw [hmore, List.append_nil]
  · exact absurd (List.prefix_nil.mp hnil) hpart.ne_nil

/-- Code that is scanned to its end has one division, and the events are those of its instructions in order. Where the
scan fails, the events are those of the longest beginning that divides into instructions whose constants are found; and
the failure names an opcode exactly where no instruction starts. -/
theorem instructions_exact (pool : ConstantPool) (code : Bytes) :
    (∀ events rest, instructions pool code = ⟨events, .ok ((), rest)⟩ →
      rest = [] ∧ ∃ parts, Divided 0 parts ∧ parts.flatten = code ∧
        events.map .ok = parts.flatMap (callsOf pool) ∧
        ∀ others, Divided 0 others → others.flatten = code → others = parts) ∧
    (∀ events failure, instructions pool code = ⟨events, .error failure⟩ →
      ∃ parts rest, Divided 0 parts ∧ code = parts.flatten ++ rest ∧ rest ≠ [] ∧
        events.map .ok = parts.flatMap (callsOf pool) ∧
        (∀ others, Divided 0 others → others.flatten <+: code → broken (others.flatMap (callsOf pool)) = none →
          others <+: parts) ∧
        ∀ opcode place, failure = .badOpcode opcode place ↔ BadCode parts.flatten.length rest opcode place) := by
  obtain ⟨parts, left, hcode, hdivided, hcalls, hend⟩ :
      ∃ parts rest, code = parts.flatten ++ rest ∧ Divided 0 parts ∧
        (instructions pool code).events.map .ok = parts.flatMap (callsOf pool) ∧
        (rest = [] ∧ (instructions pool code).result = .ok ((), []) ∨
          ∃ failure, rest ≠ [] ∧ (instructions pool code).result = .error failure ∧
            (instructionAt pool (0 + parts.flatten.length) rest).result = .error failure) :=
    instructionsIn_cases (Nat.zero_add code.length) (Nat.le_refl code.length)
  have hfound : broken (parts.flatMap (callsOf pool)) = none := by
    rw [← hcalls]
    exact broken_map_ok _
  constructor
  · intro events rest hscan
    rw [hscan] at hcalls hend
    obtain ⟨rfl, hresult⟩ | ⟨failure, -, hresult, -⟩ := hend
    · cases hresult
      rw [List.append_nil] at hcode
      refine ⟨rfl, parts, hdivided, hcode.symm, hcalls, fun others hothers hflatten => ?_⟩
      exact eq_of_flatten_eq hdivided hfound hothers (hflatten.trans hcode)
    · cases hresult
  · intro events failure hscan
    rw [hscan] at hcalls hend
    obtain ⟨-, hresult⟩ | ⟨failure', hleft, hresult, hstep⟩ := hend
    · cases hresult
    cases hresult
    rw [Nat.zero_add] at hstep
    refine ⟨parts, left, hdivided, hcode, hleft, hcalls, ?_, fun opcode place => ⟨?_, fun hbad => ?_⟩⟩
    · rintro others hothers ⟨rest', hrest⟩ hfound'
      obtain hprefix | ⟨part, more, rfl, hpart, tail, rfl⟩ :=
        prefix_or_next hdivided hfound hothers (hcode.symm.trans hrest.symm)
      · exact hprefix
      -- the constant of the part after the division would be found, but the scan fails there
      rw [List.flatMap_append, List.flatMap_cons, broken_append, broken_append, Option.or_eq_none_iff,
        Option.or_eq_none_iff] at hfound'
      rw [Nat.zero_add] at hpart
      rw [plays_instructionAt hpart tail, hfound'.2.1] at hstep
      cases hstep
    · rintro rfl
      have hdecoded : Decoded parts.flatten.length left (instructionAt pool parts.flatten.length left).result :=
        decoded_instructionAt left
      rw [hstep] at hdecoded
      cases hdecoded with
      | bad h => exact h
    · exact Except.error.inj (hstep.symm.trans (result_of_badCode hbad))

end

end ModuleAudit.ClassFile.Format
