/-! # Maps that keep the order of insertion

`OrderedMap κ υ` is a list of entries with distinct keys. A new key goes to the end and a known key keeps
its place, so the order of the entries is the order in which the keys first came.
-/

namespace ModuleAudit
set_option autoImplicit false

namespace OrderedMap

variable {κ υ : Type} [DecidableEq κ]

/-- The entries after the value of `key` has become `f` of what it was. -/
def alterEntries (key : κ) (f : Option υ → υ) : List (κ × υ) → List (κ × υ)
  | [] => [(key, f none)]
  | (k, v) :: rest => if k = key then (key, f (some v)) :: rest else (k, v) :: alterEntries key f rest

theorem keys_alterEntries (key : κ) (f : Option υ → υ) (entries : List (κ × υ)) :
    (alterEntries key f entries).map Prod.fst =
      if key ∈ entries.map Prod.fst then entries.map Prod.fst else entries.map Prod.fst ++ [key] := by
  induction entries with
  | nil => simp [alterEntries]
  | cons entry rest ih =>
    by_cases same : entry.1 = key
    · simp [alterEntries, same]
    · have other : key ≠ entry.1 := fun h => same h.symm
      simp only [alterEntries, same, if_false, List.map_cons, ih, List.mem_cons, other, false_or]
      split <;> simp

theorem nodup_alterEntries (key : κ) (f : Option υ → υ) {entries : List (κ × υ)}
    (distinct : (entries.map Prod.fst).Nodup) : ((alterEntries key f entries).map Prod.fst).Nodup := by
  rw [keys_alterEntries]
  split
  · exact distinct
  · rename_i fresh
    refine List.nodup_append.2 ⟨distinct, by simp, ?_⟩
    intro a ha b hb same
    have : b = key := by simpa using hb
    subst this
    exact fresh (same ▸ ha)

end OrderedMap

/-- A map whose entries stand in the order in which their keys were first given a value. -/
structure OrderedMap (κ υ : Type) where
  entries : List (κ × υ) := []
  distinct : (entries.map Prod.fst).Nodup := by exact List.nodup_nil
  deriving Repr

namespace OrderedMap

variable {κ υ : Type}

instance : Inhabited (OrderedMap κ υ) := ⟨{}⟩

instance [DecidableEq κ] [DecidableEq υ] : DecidableEq (OrderedMap κ υ) := fun a b =>
  if same : a.entries = b.entries then
    isTrue (by cases a; cases b; cases same; rfl)
  else isFalse fun h => same (h ▸ rfl)

def keys (m : OrderedMap κ υ) : List κ := m.entries.map Prod.fst

def size (m : OrderedMap κ υ) : Nat := m.entries.length

variable [DecidableEq κ]

def get? (m : OrderedMap κ υ) (key : κ) : Option υ :=
  (m.entries.find? fun entry => entry.1 = key).map Prod.snd

def contains (m : OrderedMap κ υ) (key : κ) : Bool := key ∈ m.keys

/-- Gives `key` the value `f` of the one it had. -/
def alter (m : OrderedMap κ υ) (key : κ) (f : Option υ → υ) : OrderedMap κ υ where
  entries := alterEntries key f m.entries
  distinct := nodup_alterEntries key f m.distinct

/-- Gives `key` a value; a known key keeps its place. -/
def insert (m : OrderedMap κ υ) (key : κ) (value : υ) : OrderedMap κ υ := m.alter key fun _ => value

/-- Takes `key` and its value out. -/
def erase (m : OrderedMap κ υ) (key : κ) : OrderedMap κ υ where
  entries := m.entries.filter fun entry => entry.1 ≠ key
  distinct := m.distinct.sublist (List.Sublist.map _ List.filter_sublist)

/-- The map that a list of pairs gives, later pairs winning over earlier ones. -/
def ofList (pairs : List (κ × υ)) : OrderedMap κ υ :=
  pairs.foldl (fun m pair => m.insert pair.1 pair.2) {}

@[simp] theorem keys_alter (m : OrderedMap κ υ) (key : κ) (f : Option υ → υ) :
    (m.alter key f).keys = if key ∈ m.keys then m.keys else m.keys ++ [key] :=
  keys_alterEntries key f m.entries

theorem get?_alter_self (m : OrderedMap κ υ) (key : κ) (f : Option υ → υ) :
    (m.alter key f).get? key = some (f (m.get? key)) := by
  obtain ⟨entries, distinct⟩ := m
  simp only [get?, alter]
  clear distinct
  induction entries with
  | nil => simp [alterEntries]
  | cons entry rest ih =>
    by_cases same : entry.1 = key
    · simp [alterEntries, same]
    · simp [alterEntries, same, ih]

theorem get?_alter_of_ne (m : OrderedMap κ υ) {key other : κ} (f : Option υ → υ) (h : other ≠ key) :
    (m.alter key f).get? other = m.get? other := by
  obtain ⟨entries, distinct⟩ := m
  simp only [get?, alter]
  clear distinct
  induction entries with
  | nil => simp [alterEntries, Ne.symm h]
  | cons entry rest ih =>
    by_cases same : entry.1 = key
    · have : entry.1 ≠ other := fun e => h (e.symm.trans same)
      simp [alterEntries, same, Ne.symm h]
    · by_cases here : entry.1 = other
      · simp [alterEntries, here, h]
      · simp [alterEntries, same, here, ih]

/-- Erasing a known key makes the map smaller. -/
theorem size_erase_lt (m : OrderedMap κ υ) {key : κ} {value : υ} (h : m.get? key = some value) :
    (m.erase key).size < m.size := by
  simp only [get?, Option.map_eq_some_iff] at h
  obtain ⟨entry, found, -⟩ := h
  have member := List.mem_of_find?_eq_some found
  have here := List.find?_some found
  simp only [size, erase]
  refine List.length_filter_lt_length_iff_exists.2 ⟨entry, member, ?_⟩
  simpa using here

end OrderedMap

/-- How often each name occurs, in the order of first occurrence. A counter has 32 bits and starts again after the
last number. -/
abbrev Counts := OrderedMap String UInt32

/-- Counts `n` more occurrences of `name`. -/
def Counts.add (counts : Counts) (name : String) (n : UInt32) : Counts :=
  OrderedMap.alter counts name fun count => count.getD 0 + n

end ModuleAudit
