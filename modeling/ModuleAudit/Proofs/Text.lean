import Mathlib.Data.List.TakeWhile
import Mathlib.Tactic.Tauto
import ModuleAudit.Text.Blank
import ModuleAudit.Text.Split

/-! What cutting, splitting and trimming leave of a text. A text that is split is its parts with the separator between
them (`intercalate_splitOn`), and parts without the separator are split as they were joined (`splitOn_intercalate`). -/

namespace ModuleAudit.Text
set_option autoImplicit false

/-! ## Rows of characters with a property -/

/-- Where a row of characters with a property ends. -/
theorem span_append {p : Char → Bool} {front after : List Char} (hfront : ∀ c ∈ front, p c = true)
    (hafter : ∀ c ∈ after.head?, p c = false) :
    (front ++ after).takeWhile p = front ∧ (front ++ after).dropWhile p = after := by
  rw [List.takeWhile_append_of_pos hfront, List.dropWhile_append_of_pos hfront]
  cases after with
  | nil => exact ⟨List.append_nil front, rfl⟩
  | cons c rest =>
    have hc : p c = false := hafter c rfl
    simp [hc]

theorem span_append_cons {p : Char → Bool} {front rest : List Char} {c : Char} (hfront : ∀ d ∈ front, p d = true)
    (hc : p c = false) :
    (front ++ c :: rest).takeWhile p = front ∧ (front ++ c :: rest).dropWhile p = c :: rest := by
  refine span_append hfront fun d hd => ?_
  obtain rfl := Option.some.inj hd
  exact hc

theorem exists_span (p : Char → Bool) (chars : List Char) :
    ∃ front after, chars = front ++ after ∧ (∀ c ∈ front, p c = true) ∧ ∀ c ∈ after.head?, p c = false := by
  refine ⟨chars.takeWhile p, chars.dropWhile p, List.takeWhile_append_dropWhile.symm, ?_, ?_⟩
  · exact fun c hc => List.all_eq_true.mp List.all_takeWhile c hc
  · intro c hc
    have hhead := List.head?_dropWhile_not p chars
    rw [hc] at hhead
    exact hhead

/-! ## The first and the last separator -/

theorem cutFirst_eq_none {sep : Char} {chars : List Char} (h : cutFirst sep chars = none) : sep ∉ chars := by
  induction chars with
  | nil => exact List.not_mem_nil
  | cons c rest ih =>
    rw [cutFirst] at h
    split at h
    · cases h
    · rename_i hc
      rw [List.mem_cons, not_or]
      exact ⟨Ne.symm hc, ih (Option.map_eq_none_iff.mp h)⟩

theorem getD_cutFirst (sep : Char) (chars : List Char) :
    ((cutFirst sep chars).map Prod.fst).getD chars = chars.takeWhile (· ≠ sep) := by
  induction chars with
  | nil => rfl
  | cons c rest ih =>
    rw [cutFirst, List.takeWhile_cons]
    by_cases hc : c = sep
    · simp [hc]
    · simp only [if_neg hc, decide_eq_true hc, if_true, ← ih]
      cases cutFirst sep rest <;> rfl

theorem cutLast_eq_none_iff {sep : Char} {chars : List Char} : cutLast sep chars = none ↔ sep ∉ chars := by
  induction chars with
  | nil => simp [cutLast]
  | cons c rest ih =>
    rw [cutLast, List.mem_cons, not_or, ← ih]
    split
    · rename_i hfound
      simp [hfound]
    · rename_i hnone
      by_cases hc : c = sep
      · simp [hc]
      · simp [hc, hnone, Ne.symm hc]

theorem append_of_cutLast {sep : Char} {chars before after : List Char}
    (h : cutLast sep chars = some (before, after)) : chars = before ++ sep :: after ∧ sep ∉ after := by
  induction chars generalizing before with
  | nil => cases h
  | cons c rest ih =>
    rw [cutLast] at h
    split at h
    · rename_i front back hcut
      obtain ⟨rfl, rfl⟩ := Prod.mk.inj (Option.some.inj h)
      obtain ⟨hrest, hback⟩ := ih hcut
      exact ⟨congrArg (c :: ·) hrest, hback⟩
    · rename_i hnone
      split at h
      · rename_i hc
        obtain ⟨rfl, rfl⟩ := Prod.mk.inj (Option.some.inj h)
        exact ⟨congrArg (· :: rest) hc, cutLast_eq_none_iff.mp hnone⟩
      · cases h

theorem cutLast_append {sep : Char} {after : List Char} (h : sep ∉ after) (before : List Char) :
    cutLast sep (before ++ sep :: after) = some (before, after) := by
  induction before with
  | nil => rw [List.nil_append, cutLast, cutLast_eq_none_iff.mpr h, if_pos rfl]
  | cons c before ih => rw [List.cons_append, cutLast, ih]

/-! ## Marks -/

theorem afterMark?_append (mark other : List Char) : afterMark? mark (mark ++ other) = some other := by
  induction mark with
  | nil => rfl
  | cons m mark ih => rw [List.cons_append, afterMark?, if_pos rfl, ih]

/-- A mark that starts in front of another copy of it ends inside that copy. -/
theorem afterMark?_none_of_append {mark before after : List Char} {c : Char}
    (h : afterMark? mark (c :: before ++ (mark ++ after)) = none) (other : List Char) :
    afterMark? mark (c :: before ++ (mark ++ other)) = none := by
  rcases hfound : afterMark? mark (c :: before ++ (mark ++ other)) with _ | rest
  · rfl
  · -- a copy found there ends within the first copy of the mark, up to which the two texts are the same
    have hwhole := append_of_afterMark? hfound
    have hwithin : c :: before ++ mark <+: c :: before ++ (mark ++ other) := ⟨other, List.append_assoc ..⟩
    have hlength : mark.length ≤ (c :: before ++ mark).length := by
      rw [List.length_append]
      omega
    obtain ⟨tail, htail⟩ := List.prefix_of_prefix_length_le ⟨rest, hwhole.symm⟩ hwithin hlength
    rw [← List.append_assoc, ← htail, List.append_assoc, afterMark?_append] at h
    cases h

theorem cutAtMark_append {mark chars before after : List Char} (hmark : mark ≠ [])
    (h : cutAtMark mark chars = some (before, after)) (other : List Char) :
    cutAtMark mark (before ++ (mark ++ other)) = some (before, other) := by
  fun_induction cutAtMark mark chars generalizing before with
  | case1 hempty => exact absurd (List.isEmpty_iff.mp hempty) hmark
  | case2 => cases h
  | case3 c rest after found =>
    obtain ⟨rfl, rfl⟩ := Prod.mk.inj (Option.some.inj h)
    obtain ⟨m, mark, rfl⟩ := List.exists_cons_of_ne_nil hmark
    have hfound := afterMark?_append (m :: mark) other
    rw [List.nil_append, List.cons_append, cutAtMark]
    rw [List.cons_append] at hfound
    rw [hfound]
  | case4 c rest habsent ih =>
    obtain ⟨⟨before', after'⟩, hfound, hsame⟩ := Option.map_eq_some_iff.mp h
    obtain ⟨rfl, rfl⟩ := Prod.mk.inj hsame
    rw [append_of_cutAtMark hfound] at habsent
    have hother := afterMark?_none_of_append habsent other
    rw [List.cons_append] at hother ⊢
    rw [cutAtMark, hother, ih hfound]
    rfl

/-! ## Parts between separators -/

variable {sep : Char}

theorem splitOn_ne_nil (sep : Char) (chars : List Char) : splitOn sep chars ≠ [] := by
  cases chars with
  | nil => exact List.cons_ne_nil _ _
  | cons c rest =>
    rw [splitOn]
    split
    · exact List.cons_ne_nil _ _
    · split <;> exact List.cons_ne_nil _ _

theorem splitOn_append (sep : Char) (front back : List Char) :
    splitOn sep (front ++ sep :: back) = splitOn sep front ++ splitOn sep back := by
  induction front with
  | nil =>
    rw [List.nil_append]
    exact if_pos rfl
  | cons c rest ih =>
    rw [List.cons_append, splitOn, splitOn, ih]
    split
    · rfl
    · obtain ⟨part, parts, hparts⟩ := List.exists_cons_of_ne_nil (splitOn_ne_nil sep rest)
      rw [hparts]
      rfl

theorem splitOn_of_not_mem {sep : Char} {chars : List Char} (h : sep ∉ chars) : splitOn sep chars = [chars] := by
  induction chars with
  | nil => rfl
  | cons c rest ih =>
    rw [List.mem_cons, not_or] at h
    rw [splitOn, if_neg (Ne.symm h.1), ih h.2]

theorem of_mem_splitOn {sep : Char} {chars part : List Char} (h : part ∈ splitOn sep chars) :
    sep ∉ part ∧ ∀ c ∈ part, c ∈ chars := by
  induction chars generalizing part with
  | nil =>
    rw [List.mem_singleton.mp h]
    simp
  | cons c rest ih =>
    obtain ⟨first, parts, hparts⟩ := List.exists_cons_of_ne_nil (splitOn_ne_nil sep rest)
    rw [splitOn] at h
    split at h
    · rcases List.mem_cons.mp h with rfl | h
      · simp
      · obtain ⟨hsep, hfrom⟩ := ih h
        exact ⟨hsep, fun d hd => List.mem_cons_of_mem c (hfrom d hd)⟩
    · rename_i hc
      rw [hparts] at h ih
      rcases List.mem_cons.mp h with rfl | h
      · obtain ⟨hsep, hfrom⟩ := ih List.mem_cons_self
        refine ⟨?_, fun d hd => ?_⟩
        · rw [List.mem_cons, not_or]
          exact ⟨Ne.symm hc, hsep⟩
        · exact (List.mem_cons.mp hd).elim (fun e => e ▸ List.mem_cons_self)
            fun hd => List.mem_cons_of_mem c (hfrom d hd)
      · obtain ⟨hsep, hfrom⟩ := ih (List.mem_cons_of_mem first h)
        exact ⟨hsep, fun d hd => List.mem_cons_of_mem c (hfrom d hd)⟩

/-- What was split is the parts with the separator between them. -/
theorem intercalate_splitOn (sep : Char) (chars : List Char) : [sep].intercalate (splitOn sep chars) = chars := by
  induction chars with
  | nil => rfl
  | cons c rest ih =>
    obtain ⟨first, parts, hparts⟩ := List.exists_cons_of_ne_nil (splitOn_ne_nil sep rest)
    rw [hparts] at ih
    rw [splitOn, hparts]
    split
    · rename_i hc
      rw [hc, List.intercalate_cons_cons, ih]
      rfl
    · cases parts with
      | nil => simpa using ih
      | cons second others =>
        rw [List.intercalate_cons_cons] at ih ⊢
        rw [← ih]
        rfl

theorem splitOn_injective (sep : Char) {a b : List Char} (h : splitOn sep a = splitOn sep b) : a = b := by
  rw [← intercalate_splitOn sep a, h, intercalate_splitOn]

/-- There is nothing before the first separator, after the last one, or between two. -/
def HasEmptyPart (sep : Char) (chars : List Char) : Prop :=
  chars = [] ∨ [sep] <+: chars ∨ [sep] <:+ chars ∨ [sep, sep] <:+: chars

theorem head?_splitOn_eq_nil (sep : Char) (chars : List Char) :
    (splitOn sep chars).head? = some [] ↔ chars = [] ∨ [sep] <+: chars := by
  cases chars with
  | nil => simp [splitOn]
  | cons c rest =>
    obtain ⟨part, parts, hparts⟩ := List.exists_cons_of_ne_nil (splitOn_ne_nil sep rest)
    rw [splitOn, hparts]
    by_cases hc : c = sep
    · simp [hc]
    · simp [hc, Ne.symm hc]

theorem nil_mem_tail_splitOn (sep : Char) (chars : List Char) :
    [] ∈ (splitOn sep chars).tail ↔ [sep] <:+ chars ∨ [sep, sep] <:+: chars := by
  induction chars with
  | nil => simp [splitOn]
  | cons c rest ih =>
    obtain ⟨part, parts, hparts⟩ := List.exists_cons_of_ne_nil (splitOn_ne_nil sep rest)
    have hhead := head?_splitOn_eq_nil sep rest
    rw [hparts] at ih hhead
    rw [splitOn, hparts]
    rw [List.suffix_cons_iff, List.infix_cons_iff, List.cons_prefix_cons]
    by_cases hc : c = sep
    · subst hc
      rw [if_pos rfl, List.tail_cons, List.mem_cons]
      rw [List.tail_cons] at ih
      rw [List.head?_cons, Option.some.injEq] at hhead
      rw [ih, eq_comm, hhead]
      simp only [List.cons.injEq, true_and]
      rw [eq_comm]
      tauto
    · have hother : sep ≠ c := Ne.symm hc
      rw [if_neg hc]
      simp only [List.tail_cons] at ih ⊢
      simp [ih, hother]

theorem nil_mem_splitOn_iff {chars : List Char} : [] ∈ splitOn sep chars ↔ HasEmptyPart sep chars := by
  have hhead := head?_splitOn_eq_nil sep chars
  have htail := nil_mem_tail_splitOn sep chars
  obtain ⟨part, parts, hparts⟩ := List.exists_cons_of_ne_nil (splitOn_ne_nil sep chars)
  rw [hparts] at hhead htail ⊢
  rw [List.head?_cons, Option.some.injEq] at hhead
  rw [List.tail_cons] at htail
  rw [List.mem_cons, eq_comm, hhead, htail, HasEmptyPart, or_assoc]

theorem intercalate_splitOn_eq_replaceChar (sep other : Char) (chars : List Char) :
    [other].intercalate (splitOn sep chars) = replaceChar sep other chars := by
  induction chars with
  | nil => rfl
  | cons c rest ih =>
    obtain ⟨first, parts, hparts⟩ := List.exists_cons_of_ne_nil (splitOn_ne_nil sep rest)
    rw [hparts] at ih
    rw [splitOn, hparts, replaceChar, List.map_cons]
    split
    · rw [List.intercalate_cons_cons, ih]
      rfl
    · cases parts with
      | nil => simpa [replaceChar] using ih
      | cons second others =>
        rw [List.intercalate_cons_cons] at ih ⊢
        rw [← replaceChar, ← ih]
        rfl

/-- The parts of a row that was joined. -/
theorem splitOn_intercalate {parts : List (List Char)} (hne : parts ≠ []) (h : ∀ part ∈ parts, sep ∉ part) :
    splitOn sep ([sep].intercalate parts) = parts := by
  induction parts with
  | nil => exact absurd rfl hne
  | cons first rest ih =>
    have hfirst := h first List.mem_cons_self
    cases rest with
    | nil => rw [List.intercalate_singleton, splitOn_of_not_mem hfirst]
    | cons second others =>
      have hrest := ih (List.cons_ne_nil _ _) fun part hpart => h part (List.mem_cons_of_mem first hpart)
      rw [List.intercalate_cons_cons, List.append_assoc, List.singleton_append, splitOn_append,
        splitOn_of_not_mem hfirst, hrest]
      rfl

theorem toList_join (parts : List String) :
    (join "/" parts).toList = ['/'].intercalate (parts.map String.toList) := by
  have hslash : "/".toList = ['/'] := rfl
  rw [join, String.toList_intercalate, hslash]

/-! ## Trimming -/

theorem dropWhile_eq_self {p : Char → Bool} {chars : List Char} (h : ∀ c ∈ chars.head?, p c = false) :
    chars.dropWhile p = chars := by
  cases chars with
  | nil => rfl
  | cons c rest => rw [List.dropWhile_cons_of_neg (by simp [h c rfl])]

theorem dropEndWhile_append {p : Char → Bool} {chars after : List Char} (hafter : ∀ c ∈ after, p c = true)
    (hlast : ∀ c ∈ chars.getLast?, p c = false) : dropEndWhile p (chars ++ after) = chars := by
  have hreverse : ∀ c ∈ after.reverse, p c = true := fun c hc => hafter c (List.mem_reverse.mp hc)
  have hhead : ∀ c ∈ chars.reverse.head?, p c = false := by
    intro c hc
    rw [List.head?_reverse] at hc
    exact hlast c hc
  rw [dropEndWhile, List.reverse_append, List.dropWhile_append_of_pos hreverse, dropWhile_eq_self hhead,
    List.reverse_reverse]

/-- Blanks around a text that neither starts nor ends with one are what trimming drops. -/
theorem trim_append {before name after : List Char} (hbefore : ∀ c ∈ before, isBlank c = true)
    (hafter : ∀ c ∈ after, isBlank c = true) (hhead : ∀ c ∈ name.head?, isBlank c = false)
    (hlast : ∀ c ∈ name.getLast?, isBlank c = false) : trim (before ++ name ++ after) = name := by
  rw [trim, List.append_assoc, List.dropWhile_append_of_pos hbefore]
  cases name with
  | nil =>
    have hnone : after.dropWhile isBlank = [] := List.dropWhile_eq_nil_iff.mpr hafter
    rw [List.nil_append, hnone]
    rfl
  | cons c rest =>
    have hkept : (c :: rest ++ after).dropWhile isBlank = c :: rest ++ after := dropWhile_eq_self hhead
    rw [hkept]
    exact dropEndWhile_append hafter hlast

/-- What trimming leaves neither starts nor ends with a blank, and there were only blanks around it. -/
theorem exists_gaps (chars : List Char) :
    ∃ before after, chars = before ++ trim chars ++ after ∧ (∀ c ∈ before, isBlank c = true) ∧
      (∀ c ∈ after, isBlank c = true) ∧ (∀ c ∈ (trim chars).head?, isBlank c = false) ∧
      ∀ c ∈ (trim chars).getLast?, isBlank c = false := by
  have hmiddle : chars.dropWhile isBlank =
      trim chars ++ ((chars.dropWhile isBlank).reverse.takeWhile isBlank).reverse := by
    rw [trim, dropEndWhile, ← List.reverse_append, List.takeWhile_append_dropWhile, List.reverse_reverse]
  refine ⟨chars.takeWhile isBlank, ((chars.dropWhile isBlank).reverse.takeWhile isBlank).reverse, ?_, ?_, ?_, ?_, ?_⟩
  · rw [List.append_assoc, ← hmiddle, List.takeWhile_append_dropWhile]
  · exact fun c hc => List.all_eq_true.mp List.all_takeWhile c hc
  · exact fun c hc => List.all_eq_true.mp List.all_takeWhile c (List.mem_reverse.mp hc)
  · intro c hc
    have hfirst : c ∈ (chars.dropWhile isBlank).head? := by
      rw [hmiddle, List.head?_append, hc]
      rfl
    have hnot := List.head?_dropWhile_not isBlank chars
    rw [hfirst] at hnot
    exact hnot
  · intro c hc
    rw [trim, dropEndWhile, List.getLast?_reverse] at hc
    have hnot := List.head?_dropWhile_not isBlank (chars.dropWhile isBlank).reverse
    rw [hc] at hnot
    exact hnot

/-! ## Lines -/

theorem lines_append_feed {line : List Char} (h : '\n' ∉ line) (rest : List Char) :
    lines (line ++ '\n' :: rest) = dropReturn line :: lines rest := by
  obtain ⟨part, parts, hparts⟩ := List.exists_cons_of_ne_nil (splitOn_ne_nil '\n' rest)
  rw [lines, lines, splitOn_append, splitOn_of_not_mem h, hparts]
  rfl

theorem lines_of_not_mem {line : List Char} (h : '\n' ∉ line) : lines line = [line].filter (!·.isEmpty) := by
  rw [lines, splitOn_of_not_mem h]
  rfl

theorem dropReturn_append (line : List Char) : dropReturn (line ++ ['\r']) = line := by
  rw [dropReturn, List.reverse_append]
  exact List.reverse_reverse line

theorem dropReturn_cases (line : List Char) : dropReturn line = line ∨ line = dropReturn line ++ ['\r'] := by
  rw [dropReturn]
  split
  · rename_i front hfront
    right
    rw [← List.reverse_cons, ← hfront, List.reverse_reverse]
  · exact Or.inl rfl

end ModuleAudit.Text
