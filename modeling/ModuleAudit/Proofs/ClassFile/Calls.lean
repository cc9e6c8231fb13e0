import Mathlib.Data.List.Induction
import ModuleAudit.Proofs.ClassFile.Constants
import ModuleAudit.Proofs.ClassFile.Truncation

/-! Scans of any bytes, with any pool. A scan calls for events by indices, and a call fails when the pool does not
hold what it needs. `Plays scan bytes calls value` says what the scan makes of `bytes` before any others: it reports
up to the first call that fails. The other way round, the result of a scan tells the bytes that its steps read; and
on more bytes a scan reports no less (`Growing`). -/

namespace ModuleAudit.ClassFile
set_option autoImplicit false

open Scan

variable {α β : Type}

/-! ## Steps -/

instance : LawfulMonad Scan := by
  refine LawfulMonad.mk' _ (fun scan => ?_) (fun a next => ?_) fun scan next last => ?_
  · funext bytes
    have hmap : (id <$> scan) bytes = (scan >>= pure) bytes := rfl
    rw [hmap, bind_apply]
    cases scan bytes with
    | mk events result => cases result <;> simp
  · funext bytes
    rfl
  · funext bytes
    simp only [bind_apply]
    cases scan bytes with
    | mk events result =>
      cases result with
      | error failure => rfl
      | ok pair =>
        dsimp only
        cases next pair.1 pair.2 with
        | mk events' result' => cases result' <;> simp

/-! ## Calls -/

/-- A call for an event, or the failure of the constant that it names. -/
abbrev Call := Except Failure Event

/-- The events that are reported before a call fails. -/
def made : List Call → List Event
  | .ok event :: rest => event :: made rest
  | _ => []

/-- The failure of the first call that fails. -/
def broken : List Call → Option Failure
  | [] => none
  | .ok _ :: rest => broken rest
  | .error failure :: _ => some failure

theorem made_prefix_calls (calls : List Call) : (made calls).map .ok <+: calls := by
  induction calls with
  | nil => exact List.prefix_rfl
  | cons call rest ih =>
    cases call with
    | ok event => exact (List.prefix_cons_inj _).mpr ih
    | error failure => exact List.nil_prefix

theorem eq_map_made {calls : List Call} (h : broken calls = none) : calls = (made calls).map .ok := by
  induction calls with
  | nil => rfl
  | cons call rest ih =>
    cases call with
    | ok event => exact congrArg (.ok event :: ·) (ih h)
    | error failure => cases h

theorem broken_map_ok (events : List Event) : broken (events.map .ok) = none := by
  induction events with
  | nil => rfl
  | cons event rest ih => exact ih

theorem broken_append (calls others : List Call) :
    broken (calls ++ others) = (broken calls).or (broken others) := by
  induction calls with
  | nil => rfl
  | cons call rest ih =>
    cases call with
    | ok event => exact ih
    | error failure => rfl

theorem made_append_of_none {calls : List Call} (h : broken calls = none) (others : List Call) :
    made (calls ++ others) = made calls ++ made others := by
  induction calls with
  | nil => rfl
  | cons call rest ih =>
    cases call with
    | ok event => exact congrArg (event :: ·) (ih h)
    | error failure => cases h

theorem made_append_of_some {calls : List Call} {failure : Failure} (h : broken calls = some failure)
    (others : List Call) : made (calls ++ others) = made calls := by
  induction calls with
  | nil => cases h
  | cons call rest ih =>
    cases call with
    | ok event => exact congrArg (event :: ·) (ih h)
    | error failure => rfl

/-- The scan reads `bytes`, whatever follows them, unless a call fails. -/
def Plays (scan : Scan α) (bytes : Bytes) (calls : List Call) (value : α) : Prop :=
  ∀ rest, scan (bytes ++ rest) = ⟨made calls, (broken calls).elim (.ok (value, rest)) .error⟩

theorem Reads.plays {scan : Scan α} {bytes : Bytes} {a : α} (h : Reads scan bytes [] a) : Plays scan bytes [] a := h

theorem Plays.bind {scan : Scan α} {next : α → Scan β} {bytes bytes' : Bytes} {calls calls' : List Call} {a : α}
    {b : β} (h : Plays scan bytes calls a) (h' : Plays (next a) bytes' calls' b) :
    Plays (scan >>= next) (bytes ++ bytes') (calls ++ calls') b := by
  intro rest
  rw [List.append_assoc, bind_apply, h (bytes' ++ rest), broken_append]
  cases hbroken : broken calls with
  | some failure =>
    rw [made_append_of_some hbroken]
    rfl
  | none =>
    rw [made_append_of_none hbroken]
    simp only [Option.elim_none, h' rest, Option.none_or]

/-- The first step makes no call. -/
theorem Plays.after {scan : Scan α} {next : α → Scan β} {bytes bytes' : Bytes} {calls : List Call} {a : α} {b : β}
    (h : Reads scan bytes [] a) (h' : Plays (next a) bytes' calls b) :
    Plays (scan >>= next) (bytes ++ bytes') calls b :=
  h.plays.bind h'

/-- The first step looks a constant up, and the first call needs it. -/
theorem plays_answer {value : Except Failure α} {event : α → Event} {next : α → Scan β} {bytes : Bytes}
    {calls : List Call} {b : β} (h : ∀ a, Plays (next a) bytes (.ok (event a) :: calls) b) :
    Plays (answer value >>= next) bytes (value.map event :: calls) b := by
  cases value with
  | error failure => exact fun _ => rfl
  | ok a => exact (reads_answer rfl).plays.bind (h a)

theorem plays_report {event : Event} {next : Unit → Scan β} {bytes : Bytes} {calls : List Call} {b : β}
    (h : Plays (next ()) bytes calls b) : Plays (report event >>= next) bytes (.ok event :: calls) b := by
  have hevent : Plays (report event) [] [.ok event] () := fun _ => rfl
  exact hevent.bind h

theorem plays_times {ι : Type} {scan : Scan Unit} {bytes : ι → Bytes} {calls : ι → List Call} (items : List ι)
    (h : ∀ item ∈ items, Plays scan (bytes item) (calls item) ()) :
    Plays (times items.length scan) (items.flatMap bytes) (items.flatMap calls) () := by
  induction items with
  | nil => exact (reads_pure ()).plays
  | cons item rest ih =>
    have hfirst := h item List.mem_cons_self
    have hrest := ih fun other hother => h other (List.mem_cons_of_mem item hother)
    rw [List.length_cons, times, List.flatMap_cons, List.flatMap_cons]
    exact hfirst.bind hrest

/-! ## Results -/

theorem result_bind_eq_ok {scan : Scan α} {next : α → Scan β} {bytes rest : Bytes} {b : β} :
    ((scan >>= next) bytes).result = .ok (b, rest) ↔
      ∃ a middle, (scan bytes).result = .ok (a, middle) ∧ (next a middle).result = .ok (b, rest) := by
  rw [bind_apply]
  cases scan bytes with
  | mk events result =>
    cases result with
    | error failure => exact iff_of_false (fun h => by cases h) (by rintro ⟨_, _, h, _⟩; cases h)
    | ok pair =>
      constructor
      · intro h
        exact ⟨pair.1, pair.2, rfl, h⟩
      · rintro ⟨a, middle, h, h'⟩
        cases h
        exact h'

theorem result_take_eq_ok {n : Nat} {bytes front rest : Bytes} :
    (take n bytes).result = .ok (front, rest) ↔ front.length = n ∧ bytes = front ++ rest := by
  constructor
  · intro h
    rw [take] at h
    split at h
    case isTrue hlength =>
      obtain ⟨rfl, rfl⟩ := Prod.mk.inj (Except.ok.inj h)
      exact ⟨hlength, (List.take_append_drop n bytes).symm⟩
    case isFalse => cases h
  · rintro ⟨rfl, rfl⟩
    rw [reads_take front rest]

theorem result_skip_eq_ok {n : Nat} {bytes rest : Bytes} :
    (skip n bytes).result = .ok ((), rest) ↔ ∃ front, front.length = n ∧ bytes = front ++ rest := by
  rw [skip, result_bind_eq_ok]
  constructor
  · rintro ⟨front, middle, h, hpure⟩
    obtain ⟨hlength, hbytes⟩ := result_take_eq_ok.mp h
    cases hpure
    exact ⟨front, hlength, hbytes⟩
  · rintro ⟨front, hlength, hbytes⟩
    exact ⟨front, rest, result_take_eq_ok.mpr ⟨hlength, hbytes⟩, rfl⟩

theorem result_answer_eq_ok {value : Except Failure α} {bytes rest : Bytes} {a : α} :
    (answer value bytes).result = .ok (a, rest) ↔ value = .ok a ∧ bytes = rest := by
  cases value with
  | error failure => exact iff_of_false (fun h => by cases h) (by rintro ⟨h, _⟩; cases h)
  | ok b =>
    constructor
    · intro h
      cases h
      exact ⟨rfl, rfl⟩
    · rintro ⟨h, rfl⟩
      cases h
      rfl

namespace Format

theorem bigEndian_append (front : Bytes) (last : UInt8) :
    Bytes.bigEndian (front ++ [last]) = Bytes.bigEndian front * 256 + last.toNat := by
  rw [Bytes.bigEndian, List.foldl_append]
  rfl

theorem big_bigEndian (bytes : Bytes) : big bytes.length bytes.bigEndian = bytes := by
  induction bytes using List.reverseRecOn with
  | nil => rfl
  | append_singleton front last ih =>
    have hlast : last.toNat < 256 := last.toNat_lt
    have hfront : (Bytes.bigEndian front * 256 + last.toNat) / 256 = Bytes.bigEndian front := by omega
    have hbyte : UInt8.ofNat (Bytes.bigEndian front * 256 + last.toNat) = last := by
      apply UInt8.toNat_inj.mp
      rw [UInt8.toNat_ofNat']
      omega
    rw [List.length_append, List.length_singleton, big, bigEndian_append, hfront, hbyte, ih]

theorem bigEndian_lt (bytes : Bytes) : bytes.bigEndian < limit bytes.length := by
  induction bytes using List.reverseRecOn with
  | nil => exact Nat.one_pos
  | append_singleton front last ih =>
    have hlast : last.toNat < 256 := last.toNat_lt
    rw [List.length_append, List.length_singleton, limit_succ, bigEndian_append]
    omega

theorem reads_number_of_length {width : Nat} {bytes : Bytes} (h : bytes.length = width) :
    Reads (number width) bytes [] bytes.bigEndian := by
  subst h
  have hreads := reads_number (bigEndian_lt bytes)
  rwa [big_bigEndian] at hreads

theorem result_number_eq_ok {width value : Nat} {bytes rest : Bytes} :
    (number width bytes).result = .ok (value, rest) ↔ value < limit width ∧ bytes = big width value ++ rest := by
  rw [number, result_bind_eq_ok]
  constructor
  · rintro ⟨front, middle, h, hpure⟩
    obtain ⟨rfl, rfl⟩ := result_take_eq_ok.mp h
    cases hpure
    exact ⟨bigEndian_lt front, by rw [big_bigEndian]⟩
  · rintro ⟨hvalue, rfl⟩
    refine ⟨big width value, rest, result_take_eq_ok.mpr ⟨length_big width value, rfl⟩, ?_⟩
    rw [bigEndian_big hvalue]
    rfl

theorem result_u1_eq_ok {value : Nat} {bytes rest : Bytes} (h : (u1 bytes).result = .ok (value, rest)) :
    ∃ byte : UInt8, value = byte.toNat ∧ bytes = byte :: rest := by
  obtain ⟨hvalue, rfl⟩ := result_number_eq_ok.mp h
  have hsmall : value < 256 := hvalue
  have hbyte : (UInt8.ofNat value).toNat = value := by
    rw [UInt8.toNat_ofNat']
    omega
  exact ⟨UInt8.ofNat value, hbyte.symm, rfl⟩

theorem result_u2_eq_ok {value : Nat} {bytes rest : Bytes} (h : (u2 bytes).result = .ok (value, rest)) :
    ∃ index : UInt16, value = index.toNat ∧ bytes = ofU2 index ++ rest := by
  obtain ⟨hvalue, rfl⟩ := result_number_eq_ok.mp h
  have hsmall : value < 65536 := hvalue
  have hindex : (UInt16.ofNat value).toNat = value := by
    rw [UInt16.toNat_ofNat']
    omega
  exact ⟨UInt16.ofNat value, hindex.symm, by rw [ofU2, hindex]⟩

theorem u1_bind_cons {next : Nat → Scan β} (byte : UInt8) (rest : Bytes) :
    (u1 >>= next) (byte :: rest) = next byte.toNat rest :=
  (reads_u1 byte).run next rest

/-- Two bytes that are passed over are an index that is not followed. -/
theorem result_skip_two_eq_ok {bytes rest : Bytes} (h : (skip 2 bytes).result = .ok ((), rest)) :
    ∃ index : UInt16, bytes = ofU2 index ++ rest := by
  obtain ⟨front, hlength, rfl⟩ := result_skip_eq_ok.mp h
  have hnumber : u2 (front ++ rest) = ⟨[], .ok (front.bigEndian, rest)⟩ := reads_number_of_length hlength rest
  obtain ⟨index, -, hindex⟩ := result_u2_eq_ok (congrArg Outcome.result hnumber)
  exact ⟨index, hindex⟩

theorem result_skip_four_eq_ok {bytes rest : Bytes} (h : (skip 4 bytes).result = .ok ((), rest)) :
    ∃ first second : UInt16, bytes = ofU2 first ++ (ofU2 second ++ rest) := by
  obtain ⟨front, hlength, rfl⟩ := result_skip_eq_ok.mp h
  have hfirst : (skip 2 (front ++ rest)).result = .ok ((), front.drop 2 ++ rest) := by
    refine result_skip_eq_ok.mpr ⟨front.take 2, List.length_take_of_le (by omega), ?_⟩
    rw [← List.append_assoc, List.take_append_drop]
  have hsecond : (skip 2 (front.drop 2 ++ rest)).result = .ok ((), rest) := by
    exact result_skip_eq_ok.mpr ⟨front.drop 2, by rw [List.length_drop, hlength], rfl⟩
  obtain ⟨first, hbytes⟩ := result_skip_two_eq_ok hfirst
  obtain ⟨second, hmiddle⟩ := result_skip_two_eq_ok hsecond
  exact ⟨first, second, by rw [hbytes, hmiddle]⟩

end Format

/-- Items that are scanned one after the other. -/
theorem exists_items_of_times {ι : Type} {scan : Scan Unit} {encode : ι → Bytes} {P : ι → Prop}
    (h : ∀ {bytes rest}, (scan bytes).result = .ok ((), rest) → ∃ item, P item ∧ bytes = encode item ++ rest)
    {n : Nat} {bytes rest : Bytes} (htimes : (times n scan bytes).result = .ok ((), rest)) :
    ∃ items : List ι, items.length = n ∧ (∀ item ∈ items, P item) ∧ bytes = items.flatMap encode ++ rest := by
  induction n generalizing bytes with
  | zero =>
    cases htimes
    exact ⟨[], rfl, fun _ hmem => absurd hmem List.not_mem_nil, rfl⟩
  | succ n ih =>
    obtain ⟨⟨⟩, middle, hfirst, hrest⟩ := result_bind_eq_ok.mp htimes
    obtain ⟨item, hitem, rfl⟩ := h hfirst
    obtain ⟨items, hlength, hitems, rfl⟩ := ih hrest
    refine ⟨item :: items, congrArg (· + 1) hlength, ?_, by rw [List.flatMap_cons, List.append_assoc]⟩
    rintro other (_ | ⟨_, hmem⟩)
    · exact hitem
    · exact hitems other hmem

/-! ## Failures -/

/-- The scan reports nothing. -/
def Silent (scan : Scan α) : Prop := ∀ bytes, (scan bytes).events = []

theorem silent_take (n : Nat) : Silent (take n) := by
  intro bytes
  rw [take]
  split <;> rfl

theorem silent_pure (a : α) : Silent (pure a : Scan α) := fun _ => rfl

theorem silent_fail (failure : Failure) : Silent (fail failure : Scan α) := fun _ => rfl

theorem silent_answer (value : Except Failure α) : Silent (answer value) := fun _ => rfl

theorem Silent.bind {scan : Scan α} {next : α → Scan β} (h : Silent scan) (h' : ∀ a, Silent (next a)) :
    Silent (scan >>= next) := by
  intro bytes
  have hevents := h bytes
  rw [bind_apply]
  cases hscan : scan bytes with
  | mk events result =>
    rw [hscan] at hevents
    obtain rfl : events = [] := hevents
    cases result with
    | error failure => rfl
    | ok pair => exact h' pair.1 pair.2

theorem silent_skip (n : Nat) : Silent (skip n) := (silent_take n).bind fun _ => silent_pure ()

theorem silent_number (n : Nat) : Silent (number n) := (silent_take n).bind fun _ => silent_pure _

theorem silent_i4 : Silent i4 := (silent_number 4).bind fun _ => silent_pure _

/-- The scan reports nothing unless it succeeds. -/
def FailsSilently (scan : Scan α) : Prop :=
  ∀ ⦃bytes failure⦄, (scan bytes).result = .error failure → (scan bytes).events = []

theorem Silent.failsSilently {scan : Scan α} (h : Silent scan) : FailsSilently scan := fun bytes _ _ => h bytes

theorem Silent.bind_failsSilently {scan : Scan α} {next : α → Scan β} (h : Silent scan)
    (h' : ∀ a, FailsSilently (next a)) : FailsSilently (scan >>= next) := by
  intro bytes failure hresult
  have hevents := h bytes
  rw [bind_apply] at hresult ⊢
  cases hscan : scan bytes with
  | mk events result =>
    rw [hscan] at hevents hresult
    obtain rfl : events = [] := hevents
    cases result with
    | error failure => rfl
    | ok pair => exact h' pair.1 hresult

/-! ## More bytes -/

/-- On more bytes the scan reports no less. -/
def Growing (scan : Scan α) : Prop := ∀ part more, (scan part).events <+: (scan (part ++ more)).events

theorem growing_of_answer {scan : Scan α} {events : List Event} (h : ∀ bytes, (scan bytes).events = events) :
    Growing scan := by
  intro part more
  have hsame : (scan (part ++ more)).events = (scan part).events := (h _).trans (h _).symm
  exact hsame ▸ List.prefix_rfl

/-- What the scan makes of an input is decided by the bytes it reads, and on more bytes it goes as far at least. -/
structure Steady (scan : Scan α) : Prop where
  decided : Exact scan
  growing : Growing scan

theorem Silent.steady {scan : Scan α} (h : Silent scan) (hexact : Exact scan) : Steady scan :=
  ⟨hexact, growing_of_answer h⟩

theorem Steady.bind {scan : Scan α} {next : α → Scan β} (h : Steady scan) (h' : ∀ a, Steady (next a)) :
    Steady (scan >>= next) := by
  refine ⟨h.decided.bind fun a => (h' a).decided, fun part more => ?_⟩
  have hscan := h.growing part more
  rw [bind_apply, bind_apply]
  cases hpart : scan part with
  | mk events result =>
    cases result with
    | error failure =>
      rw [hpart] at hscan
      dsimp only
      split
      case h_1 hmore =>
        rw [hmore] at hscan
        exact hscan.trans (List.prefix_append _ _)
      case h_2 hmore =>
        rw [hmore] at hscan
        exact hscan
    | ok pair =>
      -- what the scan read is the same, so the next step sees the same bytes and more
      obtain ⟨a, rest⟩ := pair
      obtain ⟨used, rfl, hreads, -⟩ := h.decided hpart
      rw [List.append_assoc, hreads (rest ++ more)]
      exact (List.prefix_append_right_inj events).mpr ((h' a).growing rest more)

theorem steady_fail (failure : Failure) : Steady (fail failure : Scan α) :=
  (silent_fail failure).steady (exact_fail failure)

theorem steady_skip (n : Nat) : Steady (skip n) := (silent_skip n).steady (exact_skip n)

theorem steady_number (n : Nat) : Steady (number n) := (silent_number n).steady (exact_number n)

theorem steady_report (event : Event) : Steady (report event) :=
  ⟨exact_report event, growing_of_answer fun _ => rfl⟩

theorem steady_index {resolve : Nat → Except Failure α} {next : α → Scan β} (h : ∀ a, Steady (next a)) :
    Steady (u2 >>= fun index => answer (resolve index) >>= next) :=
  (steady_number 2).bind fun _ => ((silent_answer _).steady (exact_answer _)).bind h

theorem steady_times (n : Nat) {scan : Scan Unit} (h : Steady scan) : Steady (times n scan) := by
  induction n with
  | zero => exact (silent_pure ()).steady (exact_pure ())
  | succ n ih => exact h.bind fun _ => ih

/-! ## Short inputs -/

/-- The scans are the same on inputs of at most `n` bytes. -/
def Agree (n : Nat) (scan other : Scan α) : Prop := ∀ bytes : Bytes, bytes.length ≤ n → scan bytes = other bytes

theorem agree_refl (n : Nat) (scan : Scan α) : Agree n scan scan := fun _ _ => rfl

/-- The first step leaves no more bytes than it was given. -/
theorem Agree.bind {n : Nat} {scan other : Scan α} {next next' : α → Scan β} (hexact : Exact scan)
    (h : Agree n scan other) (h' : ∀ a, Agree n (next a) (next' a)) : Agree n (scan >>= next) (other >>= next') := by
  intro bytes hbytes
  rw [bind_apply, bind_apply, ← h bytes hbytes]
  cases hscan : scan bytes with
  | mk events result =>
    cases result with
    | error failure => rfl
    | ok pair =>
      obtain ⟨a, rest⟩ := pair
      obtain ⟨used, rfl, -, -⟩ := hexact hscan
      have hrest : rest.length ≤ n := by
        rw [List.length_append] at hbytes
        omega
      simp only [h' a rest hrest]

theorem agree_times {n : Nat} {scan other : Scan Unit} (hexact : Exact scan) (h : Agree n scan other) (count : Nat) :
    Agree n (times count scan) (times count other) := by
  induction count with
  | zero => exact agree_refl n _
  | succ count ih => exact h.bind hexact fun _ => ih

theorem growing_of_agree {scan : Scan α} {bound : Nat → Scan α} (h : ∀ n, Agree n (bound n) scan)
    (hgrowing : ∀ n, Growing (bound n)) : Growing scan := by
  intro part more
  have hpart : part.length ≤ (part ++ more).length := (List.prefix_append part more).length_le
  rw [← h (part ++ more).length part hpart, ← h (part ++ more).length (part ++ more) (Nat.le_refl _)]
  exact hgrowing _ part more

end ModuleAudit.ClassFile
