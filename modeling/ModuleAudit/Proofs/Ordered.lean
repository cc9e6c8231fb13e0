import ModuleAudit.Ordered.Map
import ModuleAudit.Ordered.Set

/-! Look-ups in ordered maps and sets after a change, first occurrences in lists, and a left fold together with what
it has passed. -/

namespace ModuleAudit
set_option autoImplicit false

/-! ## First occurrences -/

section EraseDups

variable {α : Type} [DecidableEq α]

theorem eraseDups_filter (p : α → Bool) :
    ∀ l : List α, (l.filter p).eraseDups = l.eraseDups.filter p
  | [] => rfl
  | a :: l => by
    have ih := eraseDups_filter p (l.filter fun b => !b == a)
    rw [List.eraseDups_cons]
    cases hp : p a with
    | true =>
      rw [List.filter_cons_of_pos hp, List.filter_cons_of_pos hp, List.eraseDups_cons, ← ih,
        List.filter_filter, List.filter_filter]
      simp only [Bool.and_comm]
    | false =>
      have hne : ∀ b ∈ l, (p b && !b == a) = p b := by
        intro b _
        by_cases hb : b = a
        · simp [hb, hp]
        · simp [hb]
      rw [List.filter_cons_of_neg (by simp [hp]), List.filter_cons_of_neg (by simp [hp]), ← ih,
        List.filter_filter, List.filter_congr hne]
termination_by l => l.length
decreasing_by exact Nat.lt_succ_of_le (List.length_filter_le _ _)

theorem eraseDups_cons_eq (a : α) (l : List α) :
    (a :: l).eraseDups = a :: l.eraseDups.filter fun b => b ≠ a := by
  rw [List.eraseDups_cons, eraseDups_filter]
  congr 2
  funext b
  by_cases hb : b = a <;> simp [hb]

theorem nodup_eraseDups (l : List α) : l.eraseDups.Nodup := by
  induction l with
  | nil => exact List.nodup_nil
  | cons a l ih =>
    rw [eraseDups_cons_eq, List.nodup_cons]
    exact ⟨by simp, ih.filter _⟩

theorem eraseDups_append_of_subset {l added : List α} (h : ∀ a ∈ added, a ∈ l) :
    (l ++ added).eraseDups = l.eraseDups := by
  have hnone : added.removeAll l = [] := by
    simp only [List.removeAll, List.filter_eq_nil_iff]
    intro a ha
    simp [h a ha]
  rw [List.eraseDups_append, hnone]
  exact List.append_nil _

end EraseDups

/-! ## Maps and sets -/

namespace OrderedMap

variable {κ υ : Type} [DecidableEq κ]

theorem get?_alter (m : OrderedMap κ υ) (key other : κ) (f : Option υ → υ) :
    (m.alter key f).get? other = if other = key then some (f (m.get? key)) else m.get? other := by
  by_cases h : other = key
  · subst h
    rw [if_pos rfl, get?_alter_self]
  · rw [if_neg h, get?_alter_of_ne m f h]

theorem mem_keys_iff (m : OrderedMap κ υ) (key : κ) : key ∈ m.keys ↔ (m.get? key).isSome := by
  simp only [keys, get?, Option.isSome_map, List.find?_isSome, List.mem_map, decide_eq_true_eq]

theorem get?_of_mem_entries {m : OrderedMap κ υ} {key : κ} {value : υ}
    (h : (key, value) ∈ m.entries) : m.get? key = some value := by
  obtain ⟨entries, distinct⟩ := m
  rw [get?, Option.map_eq_some_iff]
  induction entries with
  | nil => cases h
  | cons entry rest ih =>
    rw [List.map_cons, List.nodup_cons] at distinct
    rcases List.mem_cons.mp h with rfl | hrest
    · exact ⟨_, List.find?_cons_of_pos (decide_eq_true rfl), rfl⟩
    · have hne : decide (entry.1 = key) = false := by
        refine decide_eq_false ?_
        rintro rfl
        exact distinct.1 (List.mem_map.mpr ⟨_, hrest, rfl⟩)
      obtain ⟨found, hfound, hvalue⟩ := ih distinct.2 hrest
      refine ⟨found, ?_, hvalue⟩
      rw [List.find?_cons, hne]
      exact hfound

theorem mem_entries_of_get? {m : OrderedMap κ υ} {key : κ} {value : υ} (h : m.get? key = some value) :
    (key, value) ∈ m.entries := by
  rw [get?, Option.map_eq_some_iff] at h
  obtain ⟨⟨own, _⟩, hfound, rfl⟩ := h
  have hown := List.find?_some hfound
  obtain rfl : own = key := of_decide_eq_true hown
  exact List.mem_of_find?_eq_some hfound

end OrderedMap

namespace OrderedSet

variable {α : Type}

theorem ext_toList {s t : OrderedSet α} (h : s.toList = t.toList) : s = t := by
  cases s
  cases t
  cases h
  rfl

variable [DecidableEq α]

theorem contains_iff (s : OrderedSet α) (a : α) : s.contains a = true ↔ a ∈ s.toList := by
  simp only [contains, decide_eq_true_eq]

theorem insert_of_mem (s : OrderedSet α) {a : α} (h : a ∈ s.toList) : s.insert a = s := by
  apply ext_toList
  rw [toList_insert, if_pos h]

theorem mem_insertAll (s : OrderedSet α) (elements : List α) (a : α) :
    a ∈ (s.insertAll elements).toList ↔ a ∈ s.toList ∨ a ∈ elements := by
  induction elements generalizing s with
  | nil => simp [insertAll]
  | cons b rest ih =>
    have h := ih (s.insert b)
    simp only [insertAll, List.foldl_cons] at h ⊢
    rw [h, mem_insert, List.mem_cons, or_assoc]

/-- What is new goes to the end, in the order of first occurrences. -/
theorem toList_insertAll (s : OrderedSet α) (elements : List α) :
    (s.insertAll elements).toList = s.toList ++ elements.eraseDups.filter (· ∉ s.toList) := by
  induction elements generalizing s with
  | nil => simp [insertAll]
  | cons b rest ih =>
    have hnext : (s.insertAll (b :: rest)).toList =
        (s.insert b).toList ++ rest.eraseDups.filter (· ∉ (s.insert b).toList) := ih (s.insert b)
    rw [hnext, eraseDups_cons_eq, toList_insert]
    by_cases hb : b ∈ s.toList
    · rw [if_pos hb, List.filter_cons_of_neg (by simpa using hb), List.filter_filter]
      refine congrArg _ (List.filter_congr fun a _ => ?_)
      by_cases ha : a = b
      · simp [ha, hb]
      · simp [ha]
    · rw [if_neg hb, List.filter_cons_of_pos (by simpa using hb), List.filter_filter, List.append_assoc]
      refine congrArg _ (congrArg _ (List.filter_congr fun a _ => ?_))
      simp [Bool.decide_and]

end OrderedSet

/-- What holds at the start and is kept by each step holds at the end, where a step may use which
elements came before it. -/
theorem foldl_passed {α β : Type} {f : β → α → β} {P : List α → β → Prop} {l : List α} {b : β}
    (start : P [] b)
    (step : ∀ done a rest b, l = done ++ a :: rest → P done b → P (done ++ [a]) (f b a)) :
    P l (l.foldl f b) := by
  have main : ∀ rest done b, l = done ++ rest → P done b → P l (rest.foldl f b) := by
    intro rest
    induction rest with
    | nil =>
      intro done b e h
      rw [List.append_nil] at e
      rw [e]
      exact h
    | cons a rest ih =>
      intro done b e h
      have e' : l = (done ++ [a]) ++ rest := by rw [e, List.append_assoc, List.singleton_append]
      exact ih (done ++ [a]) (f b a) e' (step done a rest b e h)
  exact main l [] b rfl start

/-- Steps that only fill in what is missing leave what the first of them has to fill in. -/
theorem foldl_or {α β σ : Type} (view : σ → Option β) {f : σ → α → σ} {g : α → Option β}
    (step : ∀ state a, view (f state a) = (view state).or (g a)) (l : List α) (state : σ) :
    view (l.foldl f state) = (view state).or (l.findSome? g) := by
  induction l generalizing state with
  | nil => exact Option.or_none.symm
  | cons a l ih =>
    rw [List.foldl_cons, ih, step, Option.or_assoc, List.findSome?_cons]
    cases g a <;> rfl

end ModuleAudit
