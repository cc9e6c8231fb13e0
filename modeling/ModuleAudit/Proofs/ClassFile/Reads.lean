import ModuleAudit.ClassFile.Reader

/-! Scans and the bytes they read. `Reads scan bytes events value` says that a scan takes exactly `bytes` off the
front of any input, reports `events` on the way and ends with `value`; it composes along the steps of a scan. -/

namespace ModuleAudit.ClassFile
set_option autoImplicit false

/-- The scan reads `bytes`, whatever follows them. -/
def Reads {α : Type} (scan : Scan α) (bytes : Bytes) (events : List Event) (value : α) : Prop :=
  ∀ rest, scan (bytes ++ rest) = ⟨events, .ok (value, rest)⟩

open Scan

variable {α β : Type}

theorem reads_pure (a : α) : Reads (pure a : Scan α) [] [] a := fun _ => rfl

/-- The steps after a scan run on what it left. -/
theorem Reads.run {scan : Scan α} {bytes : Bytes} {events : List Event} {a : α} (h : Reads scan bytes events a)
    (next : α → Scan β) (rest : Bytes) :
    (scan >>= next) (bytes ++ rest) = ⟨events ++ (next a rest).events, (next a rest).result⟩ := by
  rw [bind_apply, h rest]

theorem Reads.bind {scan : Scan α} {next : α → Scan β} {bytes bytes' : Bytes} {events events' : List Event}
    {a : α} {b : β} (h : Reads scan bytes events a) (h' : Reads (next a) bytes' events' b) :
    Reads (scan >>= next) (bytes ++ bytes') (events ++ events') b := by
  intro rest
  rw [List.append_assoc, h.run, h' rest]

/-- The first step reports nothing. -/
theorem Reads.then {scan : Scan α} {next : α → Scan β} {bytes bytes' : Bytes} {events : List Event}
    {a : α} {b : β} (h : Reads scan bytes [] a) (h' : Reads (next a) bytes' events b) :
    Reads (scan >>= next) (bytes ++ bytes') events b :=
  h.bind h'

/-- The first step reads nothing and reports nothing. -/
theorem Reads.after {scan : Scan α} {next : α → Scan β} {bytes : Bytes} {events : List Event}
    {a : α} {b : β} (h : Reads scan [] [] a) (h' : Reads (next a) bytes events b) :
    Reads (scan >>= next) bytes events b :=
  h.bind h'

/-- The first step reports one event. -/
theorem Reads.reporting {event : Event} {next : Unit → Scan β} {bytes : Bytes} {events : List Event} {b : β}
    (h : Reads (next ()) bytes events b) : Reads (report event >>= next) bytes (event :: events) b := by
  have hevent : Reads (report event) [] [event] () := fun _ => rfl
  exact hevent.bind h

/-- The last step reports nothing and reads nothing. -/
theorem Reads.returns {scan : Scan α} {next : α → Scan β} {bytes : Bytes} {events : List Event}
    {a : α} {b : β} (h : Reads scan bytes events a) (h' : Reads (next a) [] [] b) :
    Reads (scan >>= next) bytes events b := by
  have e := h.bind h'
  rwa [List.append_nil, List.append_nil] at e

/-- The first step reports nothing, and the steps after it read nothing. -/
theorem Reads.ends {scan : Scan α} {next : α → Scan β} {bytes : Bytes} {events : List Event}
    {a : α} {b : β} (h : Reads scan bytes [] a) (h' : Reads (next a) [] events b) :
    Reads (scan >>= next) bytes events b := by
  have e := h.then h'
  rwa [List.append_nil] at e

theorem reads_report (event : Event) : Reads (report event) [] [event] () := fun _ => rfl

theorem reads_answer {value : Except Failure α} {a : α} (h : value = .ok a) :
    Reads (answer value) [] [] a := by
  intro rest
  rw [h]
  rfl

theorem reads_take (bytes : Bytes) : Reads (take bytes.length) bytes [] bytes := by
  intro rest
  simp only [take, List.take_left', List.drop_left', if_true]

theorem reads_skip {n : Nat} {bytes : Bytes} (h : bytes.length = n) : Reads (skip n) bytes [] () := by
  subst h
  exact (reads_take bytes).returns (reads_pure ())

theorem reads_within {scan : Scan Unit} {body rest : Bytes} {events : List Event}
    (h : scan body = ⟨events, .ok ((), rest)⟩) : Reads (within body scan) [] events () := by
  intro after
  simp only [within, h, List.nil_append]
  rfl

/-- A body that the scan reads to its end. -/
theorem Reads.within {scan : Scan Unit} {body : Bytes} {events : List Event} (h : Reads scan body events ()) :
    Reads (within body scan) [] events () := by
  have e := h []
  rw [List.append_nil] at e
  exact reads_within e

theorem reads_bounded {scan : Nat → Scan α} {bytes : Bytes} {events : List Event} {a : α}
    (h : ∀ room, bytes.length ≤ room → Reads (scan room) bytes events a) :
    Reads (bounded scan) bytes events a := by
  intro rest
  refine h (bytes ++ rest).length ?_ rest
  rw [List.length_append]
  exact Nat.le_add_right _ _

/-! ## Lists of things -/

theorem reads_times {ι : Type} {scan : Scan Unit} {bytes : ι → Bytes} {events : ι → List Event}
    (items : List ι) (h : ∀ item ∈ items, Reads scan (bytes item) (events item) ()) :
    Reads (times items.length scan) (items.flatMap bytes) (items.flatMap events) () := by
  induction items with
  | nil => exact reads_pure ()
  | cons item rest ih =>
    have hfirst := h item List.mem_cons_self
    have hrest := ih fun other hother => h other (List.mem_cons_of_mem item hother)
    rw [List.length_cons, times, List.flatMap_cons, List.flatMap_cons]
    exact hfirst.bind hrest

theorem reads_collect {ι : Type} {scan : Scan α} {bytes : ι → Bytes} {value : ι → α} (items : List ι)
    (h : ∀ item ∈ items, Reads scan (bytes item) [] (value item)) :
    Reads (collect items.length scan) (items.flatMap bytes) [] (items.map value) := by
  induction items with
  | nil => exact reads_pure []
  | cons item rest ih =>
    have hfirst := h item List.mem_cons_self
    have hrest := ih fun other hother => h other (List.mem_cons_of_mem item hother)
    rw [List.length_cons, collect, List.flatMap_cons, List.map_cons]
    exact hfirst.then (hrest.returns (reads_pure _))

end ModuleAudit.ClassFile
