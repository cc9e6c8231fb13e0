import ModuleAudit.Proofs.ClassFile.Reads

/-! Class files that are cut short. A scan is exact when the bytes it reads alone decide what it makes of an
input; exactness passes from the steps of a scan to the scan. What is scanned inside a body does not matter for
this, since a body is taken as a whole first. So a class file that reads well does so before any other bytes, and
any proper part of it ends unexpectedly (`read_of_cut`). -/

namespace ModuleAudit.ClassFile
set_option autoImplicit false

open Scan

variable {α β : Type}

/-- On an input where the scan succeeds, the bytes it reads give the same before any other bytes, and a proper
part of them is an unexpected end, reached with no other events. -/
def Exact (scan : Scan α) : Prop :=
  ∀ ⦃bytes rest : Bytes⦄ ⦃events : List Event⦄ ⦃value : α⦄, scan bytes = ⟨events, .ok (value, rest)⟩ →
    ∃ used, bytes = used ++ rest ∧ Reads scan used events value ∧
      ∀ part, part <+: used → part ≠ used →
        ∃ early, early <+: events ∧ scan part = ⟨early, .error .unexpectedEnd⟩

/-! ## Single steps -/

/-- A scan that reads nothing is exact if its events and its answer are the same on all inputs. -/
theorem exact_of_answer {scan : Scan α} {events : List Event} {value : Except Failure α}
    (h : ∀ bytes, scan bytes = ⟨events, value.map (·, bytes)⟩) : Exact scan := by
  intro bytes rest events' a hs
  rw [h bytes, Outcome.mk.injEq] at hs
  obtain ⟨rfl, hvalue⟩ := hs
  cases value with
  | error failure => cases hvalue
  | ok b =>
    cases hvalue
    refine ⟨[], rfl, fun rest => h rest, fun part hpart hne => ?_⟩
    exact absurd (List.prefix_nil.mp hpart) hne

theorem exact_answer (value : Except Failure α) : Exact (answer value) := exact_of_answer fun _ => rfl

theorem exact_pure (a : α) : Exact (pure a : Scan α) := exact_answer (.ok a)

theorem exact_fail (failure : Failure) : Exact (fail failure : Scan α) := exact_answer (.error failure)

theorem exact_report (event : Event) : Exact (report event) := by
  have h : ∀ bytes, report event bytes = ⟨[event], (Except.ok ()).map (·, bytes)⟩ := fun _ => rfl
  exact exact_of_answer h

/-- The body is scanned on its own, whatever the scan of it does. -/
theorem exact_within (body : Bytes) (scan : Scan Unit) : Exact (within body scan) := by
  have h : ∀ bytes, within body scan bytes =
      ⟨(scan body).events, ((scan body).result.map fun _ => ()).map (·, bytes)⟩ := by
    intro bytes
    rw [within]
    cases (scan body).result <;> rfl
  exact exact_of_answer h

theorem exact_take (n : Nat) : Exact (take n) := by
  intro bytes rest events value hs
  rw [take] at hs
  by_cases hn : (bytes.take n).length = n
  · rw [if_pos hn, Outcome.mk.injEq] at hs
    obtain ⟨rfl, hvalue⟩ := hs
    cases hvalue
    refine ⟨bytes.take n, (List.take_append_drop n bytes).symm, ?_, fun part hpart hne => ?_⟩
    · have hread := reads_take (bytes.take n)
      rwa [hn] at hread
    · have hshort : part.length < n := by
        have hle := hpart.length_le
        have hlt : part.length ≠ n := fun e => hne (hpart.eq_of_length (e.trans hn.symm))
        omega
      refine ⟨[], List.prefix_rfl, ?_⟩
      rw [take, List.take_of_length_le (Nat.le_of_lt hshort), if_neg (Nat.ne_of_lt hshort)]
  · rw [if_neg hn] at hs
    cases hs

/-! ## Steps in a row -/

theorem Exact.bind {scan : Scan α} {next : α → Scan β} (h : Exact scan) (h' : ∀ a, Exact (next a)) :
    Exact (scan >>= next) := by
  intro bytes rest events value hs
  rw [bind_apply] at hs
  cases ho : scan bytes with
  | mk first result =>
    rw [ho] at hs
    cases result with
    | error failure => cases hs
    | ok pair =>
      obtain ⟨a, middle⟩ := pair
      obtain ⟨used, rfl, hreads, hcut⟩ := h ho
      cases ho' : next a middle with
      | mk second result' =>
        simp only [ho', Outcome.mk.injEq] at hs
        obtain ⟨rfl, rfl⟩ := hs
        obtain ⟨used', rfl, hreads', hcut'⟩ := h' a ho'
        refine ⟨used ++ used', (List.append_assoc _ _ _).symm, hreads.bind hreads', ?_⟩
        intro part hpart hne
        by_cases hfirst : used <+: part
        · -- the cut falls into what the second step reads
          obtain ⟨part', rfl⟩ := hfirst
          have hsecond : part' <+: used' := (List.prefix_append_right_inj used).mp hpart
          have hne' : part' ≠ used' := fun e => hne (by rw [e])
          obtain ⟨early, hearly, hfail⟩ := hcut' part' hsecond hne'
          refine ⟨first ++ early, (List.prefix_append_right_inj first).mpr hearly, ?_⟩
          rw [bind_apply, hreads part']
          simp only [hfail]
        · have hinside := (List.prefix_or_prefix_of_prefix hpart (List.prefix_append _ _)).resolve_right hfirst
          have hne' : part ≠ used := fun e => hfirst (e ▸ List.prefix_rfl)
          obtain ⟨early, hearly, hfail⟩ := hcut part hinside hne'
          refine ⟨early, hearly.trans (List.prefix_append _ _), ?_⟩
          rw [bind_apply, hfail]

theorem exact_skip (n : Nat) : Exact (skip n) := (exact_take n).bind fun _ => exact_pure ()

theorem exact_number (n : Nat) : Exact (number n) := (exact_take n).bind fun _ => exact_pure _

theorem exact_u1 : Exact u1 := exact_number 1

theorem exact_u2 : Exact u2 := exact_number 2

theorem exact_u4 : Exact u4 := exact_number 4

theorem exact_times (n : Nat) {scan : Scan Unit} (h : Exact scan) : Exact (times n scan) := by
  induction n with
  | zero => exact exact_pure ()
  | succ n ih => exact h.bind fun _ => ih

theorem exact_collect (n : Nat) {scan : Scan α} (h : Exact scan) : Exact (collect n scan) := by
  induction n with
  | zero => exact exact_pure []
  | succ n ih => exact h.bind fun _ => ih.bind fun _ => exact_pure _

/-- An index is read, and answered without reading on. -/
theorem exact_index {resolve : Nat → Except Failure α} {next : α → Scan β} (h : ∀ a, Exact (next a)) :
    Exact (u2 >>= fun index => answer (resolve index) >>= next) :=
  exact_u2.bind fun _ => (exact_answer _).bind h

/-! ## The parts of a class file -/

namespace ConstantPool

theorem exact_slot : Exact slot := by
  unfold slot
  refine exact_u1.bind fun tag => ?_
  split
  · exact exact_u2.bind fun length => (exact_take length).bind fun _ => exact_pure _
  · exact (exact_skip 4).bind fun _ => exact_pure _
  · exact (exact_skip 4).bind fun _ => exact_pure _
  · exact (exact_skip 8).bind fun _ => exact_pure _
  · exact (exact_skip 8).bind fun _ => exact_pure _
  · exact exact_u2.bind fun _ => exact_pure _
  · exact exact_u2.bind fun _ => exact_pure _
  · exact exact_u2.bind fun _ => exact_u2.bind fun _ => exact_pure _
  · exact exact_u2.bind fun _ => exact_u2.bind fun _ => exact_pure _
  · exact exact_u2.bind fun _ => exact_u2.bind fun _ => exact_pure _
  · exact exact_u2.bind fun _ => exact_u2.bind fun _ => exact_pure _
  · exact (exact_skip 3).bind fun _ => exact_pure _
  · exact exact_u2.bind fun _ => exact_pure _
  · exact (exact_skip 4).bind fun _ => exact_pure _
  · exact (exact_skip 2).bind fun _ => exact_u2.bind fun _ => exact_pure _
  · exact (exact_skip 2).bind fun _ => exact_pure _
  · exact (exact_skip 2).bind fun _ => exact_pure _
  · exact exact_fail _

theorem exact_slots (missing : Nat) : Exact (slots missing) := by
  induction missing using Nat.strongRecOn with
  | ind missing ih =>
    cases missing with
    | zero => exact exact_pure []
    | succ missing =>
      -- a constant may take two indices, so the recursion goes back by one or by two
      have hone : Exact (slots missing) := ih missing (by omega)
      cases missing with
      | zero =>
        rw [slots]
        refine exact_slot.bind fun slot => ?_
        cases slot with
        | one constant => exact hone.bind fun _ => exact_pure _
        | two => exact exact_pure _
      | succ missing =>
        rw [slots]
        refine exact_slot.bind fun slot => ?_
        cases slot with
        | one constant => exact hone.bind fun _ => exact_pure _
        | two => exact (ih missing (by omega)).bind fun _ => exact_pure _

theorem exact_scan : Exact ConstantPool.scan :=
  exact_u2.bind fun _ => (exact_slots _).bind fun _ => exact_pure _

end ConstantPool

/-- An attribute is taken as a whole, and its body is scanned on its own. -/
theorem exact_attributes (pool : ConstantPool) {scan : String × Bytes → Scan Unit} (h : ∀ entry, Exact (scan entry)) :
    Exact (u2 >>= fun count => times count (attributeEntry pool >>= scan)) := by
  have hentry : Exact (attributeEntry pool) :=
    exact_index fun _ => exact_u4.bind fun length => (exact_take length).bind fun _ => exact_pure _
  exact exact_u2.bind fun count => exact_times count (hentry.bind h)

theorem exact_annotationAttribute (pool : ConstantPool) (site : AnnotationSite) (name : String) (body : Bytes) :
    Exact (annotationAttribute pool site name body) := by
  unfold annotationAttribute
  split
  · exact exact_within body _
  · split
    · exact exact_within body _
    · exact exact_pure ()

theorem exact_field (pool : ConstantPool) : Exact (field pool) := by
  unfold field
  refine exact_u2.bind fun access => exact_index fun name => exact_index fun descriptor => ?_
  refine (exact_report _).bind fun _ => ?_
  exact exact_attributes pool fun entry => exact_annotationAttribute pool .ofField entry.1 entry.2

theorem exact_method (pool : ConstantPool) : Exact (method pool) := by
  unfold method
  refine exact_u2.bind fun access => exact_index fun name => exact_index fun descriptor => ?_
  refine (exact_report _).bind fun _ => ?_
  refine exact_attributes pool fun ⟨name, body⟩ => ?_
  dsimp only
  split
  · exact exact_within body _
  · split
    · exact exact_within body _
    · split
      · exact exact_within body _
      · exact exact_annotationAttribute pool .ofMethod name body

theorem exact_header (pool : ConstantPool) : Exact (header pool) := by
  unfold header
  refine exact_u2.bind fun access => exact_u2.bind fun this => exact_u2.bind fun super => ?_
  refine exact_u2.bind fun count => ?_
  have hname : Exact (u2 >>= fun index => answer (pool.className index)) :=
    exact_u2.bind fun _ => exact_answer _
  refine (exact_collect count hname).bind fun interfaces => ?_
  exact (exact_answer _).bind fun _ => (exact_answer _).bind fun _ => exact_report _

theorem exact_classFile : Exact classFile := by
  unfold classFile
  have hguard : ∀ (c : Prop) [Decidable c] (body : Unit → Scan Unit), Exact (body ()) →
      Exact (if c then fail .badMagic >>= body else body ()) := by
    intro c _ body hbody
    split
    · exact (exact_fail _).bind fun _ => hbody
    · exact hbody
  refine exact_u4.bind fun magic => hguard _ _ ((exact_skip 4).bind fun _ => ?_)
  refine ConstantPool.exact_scan.bind fun pool => (exact_header pool).bind fun _ => ?_
  refine exact_u2.bind fun fields => (exact_times fields (exact_field pool)).bind fun _ => ?_
  refine exact_u2.bind fun methods => (exact_times methods (exact_method pool)).bind fun _ => ?_
  exact exact_attributes pool fun entry => exact_annotationAttribute pool .ofClass entry.1 entry.2

/-! ## Cuts -/

/-- The number of bytes that reading a class file takes. -/
def consumed (bytes : Bytes) : Nat :=
  match (classFile bytes).result with
  | .ok (_, rest) => bytes.length - rest.length
  | .error _ => 0

/-- A class file that reads well leaves the bytes from `consumed` on unread. Cut before that, it ends
unexpectedly, with no other events; and what follows instead of those bytes makes no difference. -/
theorem read_of_cut (bytes : Bytes) (h : (read bytes).failure = none) :
    (classFile bytes).result = .ok ((), bytes.drop (consumed bytes)) ∧
    (∀ k < consumed bytes, (read (bytes.take k)).failure = some .unexpectedEnd ∧
      (read (bytes.take k)).events <+: (read bytes).events) ∧
    ∀ suffix, read (bytes.take (consumed bytes) ++ suffix) = ⟨(read bytes).events, none⟩ := by
  cases hscan : classFile bytes with
  | mk events result =>
    cases result with
    | error failure => simp [read, hscan] at h
    | ok pair =>
      obtain ⟨⟨⟩, rest⟩ := pair
      obtain ⟨used, rfl, hreads, hcut⟩ := exact_classFile hscan
      have hconsumed : consumed (used ++ rest) = used.length := by
        simp only [consumed, hscan, List.length_append, Nat.add_sub_cancel]
      have hread : read (used ++ rest) = ⟨events, none⟩ := by rw [read, hscan]
      rw [hconsumed, hread]
      refine ⟨by rw [List.drop_left], fun k hk => ?_, fun suffix => ?_⟩
      · have hpart : (used ++ rest).take k = used.take k := List.take_append_of_le_length (Nat.le_of_lt hk)
        have hne : used.take k ≠ used := by
          intro e
          have hlength := congrArg List.length e
          rw [List.length_take] at hlength
          omega
        obtain ⟨early, hearly, hfail⟩ := hcut (used.take k) (List.take_prefix k used) hne
        rw [hpart, read, hfail]
        exact ⟨rfl, hearly⟩
      · rw [List.take_left, read, hreads suffix]

/-- A class with an annotated field, and one byte after it. -/
def annotatedField : Bytes :=
  [0xCA, 0xFE, 0xBA, 0xBE, 0, 0, 0, 52, 0, 7,
    1, 0, 3] ++ Utf8.bytesOf "p/A" ++ [7, 0, 1, 1, 0, 1] ++ Utf8.bytesOf "f" ++ [1, 0, 1] ++ Utf8.bytesOf "I" ++
    [1, 0, 25] ++ Utf8.bytesOf "RuntimeVisibleAnnotations" ++ [1, 0, 5] ++ Utf8.bytesOf "Lq/B;" ++
    [0, 1, 0, 2, 0, 0, 0, 0, 0, 1, 0, 2, 0, 3, 0, 4, 0, 1, 0, 5, 0, 0, 0, 6, 0, 1, 0, 6, 0, 0, 0, 0, 0, 0, 9]

/-- The cut falls into the body of the field's attribute: the field is reported, its annotation is not. -/
theorem read_of_cut_annotatedField :
    (read annotatedField).failure = none ∧ 92 < consumed annotatedField ∧
      (read (annotatedField.take 92)).failure = some .unexpectedEnd ∧
      (read (annotatedField.take 92)).events = [.header 1 "p/A" none [], .field 2 "f" "I"] ∧
      (read annotatedField).events =
        [.header 1 "p/A" none [], .field 2 "f" "I", .annotated .ofField "Lq/B;"] := by
  have h : (read annotatedField).failure = none := by decide +kernel
  have hk : 92 < consumed annotatedField := by decide +kernel
  refine ⟨h, hk, ((read_of_cut annotatedField h).2.1 92 hk).1, ?_, ?_⟩
  · decide +kernel
  · decide +kernel

end ModuleAudit.ClassFile
