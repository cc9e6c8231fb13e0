import Mathlib.Data.List.Chain
import Mathlib.Data.List.Pairwise
import ModuleAudit.Proofs.Markup.Recognized
import ModuleAudit.Proofs.Prune.Decisions
import ModuleAudit.Proofs.Prune.Frame

/-! The text of an edit. The spans that are cut out are those of whole groups, so the text that is left is the text of
the groups that stay, between what stood around them. No group that stays is glued to another: what stands in front
of a cut ends with a mark. -/

namespace ModuleAudit.Prune
set_option autoImplicit false

open Markup Node

/-! ## Marks on groups -/

/-- A group, where it stands, and whether it is removed. -/
abbrev Label := (Group × Span) × Bool

/-- The mark of a label's sibling. -/
def markOf (label : Label) : Option Marked := (siblingOf label.1).map (·, label.2)

/-- The children that stay. -/
def keptNodes (labels : List Label) : List Node := (labels.filter (!·.2)).flatMap (·.1.1.nodes)

/-- Marks on the siblings of groups are marks on the groups; what is no sibling is not removed. -/
theorem exists_labels {placed : List (Group × Span)} {marks : List Marked}
    (h : marks.map Prod.fst = placed.filterMap siblingOf) :
    ∃ labels : List Label, labels.map Prod.fst = placed ∧ labels.filterMap markOf = marks ∧
      ∀ label ∈ labels, label.2 = true → label.1.1.kind ≠ none := by
  induction placed generalizing marks with
  | nil =>
    obtain rfl := List.map_eq_nil_iff.mp h
    exact ⟨[], rfl, rfl, fun _ hmem => nomatch hmem⟩
  | cons item rest ih =>
    rcases hsibling : siblingOf item with _ | sibling
    · rw [List.filterMap_cons_none hsibling] at h
      obtain ⟨labels, hplaced, hmarks, hkinds⟩ := ih h
      refine ⟨(item, false) :: labels, by rw [List.map_cons, hplaced], ?_, ?_⟩
      · rw [List.filterMap_cons_none (by rw [markOf, hsibling]; rfl), hmarks]
      · intro label hmem hremoved
        rcases List.mem_cons.mp hmem with rfl | hmem
        · cases hremoved
        · exact hkinds label hmem hremoved
    · rw [List.filterMap_cons_some hsibling] at h
      obtain ⟨mark, marks, rfl⟩ : ∃ mark marks', marks = mark :: marks' := by
        cases marks with
        | nil => cases h
        | cons mark marks => exact ⟨mark, marks, rfl⟩
      obtain ⟨hmark, hrest⟩ := List.cons.inj h
      obtain ⟨labels, hplaced, hmarks, hkinds⟩ := ih hrest
      refine ⟨(item, mark.2) :: labels, by rw [List.map_cons, hplaced], ?_, ?_⟩
      · have hlabel : markOf (item, mark.2) = some mark := by
          rw [markOf, hsibling, ← hmark]
          rfl
        rw [List.filterMap_cons_some hlabel, hmarks]
      · intro label hmem hremoved
        rcases List.mem_cons.mp hmem with rfl | hmem
        · intro hnone
          rw [siblingOf, hnone] at hsibling
          cases hsibling
        · exact hkinds label hmem hremoved

/-- In front of a group that is removed stands one that is removed too, or one that is no text. -/
theorem clear_labels {labels : List Label}
    (hclear : (labels.filterMap markOf).IsChain fun earlier later => Clear later earlier)
    (hkinds : ∀ label ∈ labels, label.2 = true → label.1.1.kind ≠ none) :
    labels.IsChain fun earlier later => later.2 = true → earlier.2 = true ∨ earlier.1.1.kind ≠ some .text := by
  induction labels with
  | nil => exact .nil
  | cons label labels ih =>
    have hrest : (labels.filterMap markOf).IsChain fun earlier later => Clear later earlier := by
      rcases hmark : markOf label with _ | mark
      · rwa [List.filterMap_cons_none hmark] at hclear
      · rw [List.filterMap_cons_some hmark] at hclear
        exact hclear.tail
    refine (ih hrest fun other hmem => hkinds other (List.mem_cons_of_mem label hmem)).cons fun later hlater => ?_
    obtain ⟨others, rfl⟩ := List.head?_eq_some_iff.mp hlater
    intro hremoved
    rcases hkind : label.1.1.kind with _ | kind
    · exact .inr (by simp)
    · obtain ⟨laterKind, hlaterKind⟩ := Option.ne_none_iff_exists'.mp
        (hkinds later (List.mem_cons_of_mem label List.mem_cons_self) hremoved)
      have hfirst : markOf label = some (⟨kind, label.1.2⟩, label.2) := by
        rw [markOf, siblingOf, hkind]
        rfl
      have hsecond : markOf later = some (⟨laterKind, later.1.2⟩, later.2) := by
        rw [markOf, siblingOf, hlaterKind]
        rfl
      rw [List.filterMap_cons_some hfirst, List.filterMap_cons_some hsecond] at hclear
      rcases hclear.rel hremoved with hgone | hstops
      · exact .inl hgone
      · refine .inr ?_
        rintro hsame
        obtain rfl := Option.some.inj hsame
        cases hstops

/-! ## The characters that are left -/

theorem selectFrom_append (p : Nat → Bool) (offset : Nat) (front back : List Char) :
    selectFrom p offset (front ++ back) =
      selectFrom p offset front ++ selectFrom p (offset + byteLength front) back := by
  induction front generalizing offset with
  | nil => rfl
  | cons c rest ih =>
    rw [List.cons_append, selectFrom, selectFrom, ih, byteLength_cons, Nat.add_assoc]
    cases p offset <;> rfl

theorem isBoundary_byteLength (front back : List Char) : isBoundary (byteLength front) (front ++ back) = true := by
  induction front with
  | nil => cases back <;> rfl
  | cons c rest ih =>
    rw [byteLength_cons, List.cons_append, isBoundary, Nat.add_sub_cancel_left, ih]
    simp

/-- A group stands on whole characters of the text that it is placed in. -/
theorem isWhole_of_mem_spread {front : List Char} {groups : List Group} {placed : Group × Span}
    (h : placed ∈ spread (byteLength front) groups) (back : List Char) :
    placed.2.isWhole (front ++ (textOf (groups.flatMap Group.nodes) ++ back)) = true := by
  induction groups generalizing front with
  | nil => cases h
  | cons group rest ih =>
    rw [List.flatMap_cons, textOf_append, List.append_assoc]
    rw [spread, ← byteLength_append] at h
    rcases List.mem_cons.mp h with rfl | h
    · rw [Span.isWhole, isBoundary_byteLength, ← List.append_assoc, isBoundary_byteLength]
      rfl
    · rw [← List.append_assoc]
      exact ih h

/-- Characters that are all selected, or all left out. -/
theorem selectFrom_uniform {p : Nat → Bool} {flag : Bool} {offset : Nat} {chars : List Char}
    (h : ∀ place, offset ≤ place → place < offset + byteLength chars → p place = flag) :
    selectFrom p offset chars = if flag then chars else [] := by
  induction chars generalizing offset with
  | nil => cases flag <;> rfl
  | cons c rest ih =>
    rw [byteLength_cons] at h
    have hpos := c.utf8Size_pos
    have hrest := @ih (offset + c.utf8Size) fun place hlow hhigh => h place (by omega) (by omega)
    rw [selectFrom, hrest, h offset (Nat.le_refl _) (by omega)]
    cases flag <;> rfl

/-- The text of the groups that stay, when a place is selected by the label of its group. -/
theorem selectFrom_labels {p : Nat → Bool} {offset : Nat} {groups : List Group} {labels : List Label}
    (hplaced : labels.map Prod.fst = spread offset groups)
    (h : ∀ label ∈ labels, ∀ place, label.1.2.start ≤ place → place < label.1.2.stop → p place = !label.2) :
    selectFrom p offset (textOf (groups.flatMap Group.nodes)) = textOf (keptNodes labels) := by
  induction groups generalizing offset labels with
  | nil =>
    obtain rfl := List.map_eq_nil_iff.mp hplaced
    rfl
  | cons group rest ih =>
    obtain ⟨label, others, rfl⟩ : ∃ label others, labels = label :: others := by
      cases labels with
      | nil => cases hplaced
      | cons label others => exact ⟨label, others, rfl⟩
    obtain ⟨hlabel, hothers⟩ := List.cons.inj hplaced
    have hgroup := h label List.mem_cons_self
    have hrest := ih hothers fun other hmem => h other (List.mem_cons_of_mem label hmem)
    obtain ⟨item, removed⟩ := label
    obtain rfl := hlabel
    rw [List.flatMap_cons, textOf_append, selectFrom_append, selectFrom_uniform hgroup, hrest]
    cases removed with
    | true => rfl
    | false => exact (textOf_append group.nodes (keptNodes others)).symm

theorem pairwise_spread (offset : Nat) (groups : List Group) :
    (spread offset groups).Pairwise fun earlier later => earlier.2.stop ≤ later.2.start := by
  induction groups generalizing offset with
  | nil => exact .nil
  | cons group rest ih => exact .cons (fun placed hmem => (bounds_of_mem_spread hmem).1) (ih _)

theorem holds_iff (span : Span) (place : Nat) : span.holds place = true ↔ span.start ≤ place ∧ place < span.stop := by
  rw [Span.holds, Bool.and_eq_true, decide_eq_true_eq, decide_eq_true_eq]

/-- A place is cut exactly if it lies in a group that is removed. -/
theorem any_cuts_iff {decisions : Decisions} {labels : List Label}
    (hmarks : labels.filterMap markOf = decisions.marked.reverse)
    (hkinds : ∀ label ∈ labels, label.2 = true → label.1.1.kind ≠ none) (place : Nat) :
    decisions.cuts.any (·.holds place) = true ↔
      ∃ label ∈ labels, label.2 = true ∧ label.1.2.start ≤ place ∧ place < label.1.2.stop := by
  rw [Decisions.cuts, List.any_eq_true]
  constructor
  · rintro ⟨span, hspan, hholds⟩
    obtain ⟨mark, hmark, rfl⟩ := List.mem_map.mp hspan
    obtain ⟨hmem, hremoved⟩ := List.mem_filter.mp hmark
    rw [← List.mem_reverse, ← hmarks] at hmem
    obtain ⟨label, hlabel, hsome⟩ := List.mem_filterMap.mp hmem
    obtain ⟨sibling, hsibling, rfl⟩ := Option.map_eq_some_iff.mp hsome
    obtain ⟨kind, -, rfl⟩ := Option.map_eq_some_iff.mp hsibling
    exact ⟨label, hlabel, hremoved, (holds_iff _ place).mp hholds⟩
  · rintro ⟨label, hlabel, hremoved, hholds⟩
    obtain ⟨kind, hkind⟩ := Option.ne_none_iff_exists'.mp (hkinds label hlabel hremoved)
    have hmark : markOf label = some (⟨kind, label.1.2⟩, true) := by
      rw [markOf, siblingOf, hkind, hremoved]
      rfl
    have hmem : (⟨kind, label.1.2⟩, true) ∈ decisions.marked := by
      rw [← List.mem_reverse, ← hmarks]
      exact List.mem_filterMap.mpr ⟨label, hlabel, hmark⟩
    exact ⟨label.1.2, List.mem_map.mpr ⟨_, List.mem_filter.mpr ⟨hmem, rfl⟩, rfl⟩, (holds_iff _ place).mpr hholds⟩

/-- Two groups do not overlap. -/
def Label.Disjoint (first second : Label) : Prop :=
  first.1.2.stop ≤ second.1.2.start ∨ second.1.2.stop ≤ first.1.2.start

instance : Std.Symm Label.Disjoint := ⟨fun _ _ => Or.symm⟩

/-- Inside the span of a group, its own label decides. -/
theorem selected_of_label {offset : Nat} {groups : List Group} {decisions : Decisions} {labels : List Label}
    (hplaced : labels.map Prod.fst = spread offset groups)
    (hmarks : labels.filterMap markOf = decisions.marked.reverse)
    (hkinds : ∀ label ∈ labels, label.2 = true → label.1.1.kind ≠ none) {label : Label} (hlabel : label ∈ labels)
    {place : Nat} (hlow : label.1.2.start ≤ place) (hhigh : place < label.1.2.stop) :
    (!decisions.cuts.any (·.holds place)) = !label.2 := by
  have hapart : labels.Pairwise Label.Disjoint := by
    have hspread := pairwise_spread offset groups
    rw [← hplaced, List.pairwise_map] at hspread
    exact hspread.imp .inl
  -- groups do not overlap, so no other label has a say
  have hsame : ∀ other ∈ labels, other.1.2.start ≤ place → place < other.1.2.stop → label = other := by
    intro other hother hlow' hhigh'
    by_contra hne
    have hdisjoint : label.1.2.stop ≤ other.1.2.start ∨ other.1.2.stop ≤ label.1.2.start :=
      hapart.forall hlabel hother hne
    omega
  refine congrArg not (Bool.eq_iff_iff.mpr ?_)
  rw [any_cuts_iff hmarks hkinds]
  constructor
  · rintro ⟨other, hother, hremoved, hlow', hhigh'⟩
    rw [hsame other hother hlow' hhigh']
    exact hremoved
  · intro hremoved
    exact ⟨label, hlabel, hremoved, hlow, hhigh⟩

/-- Cutting the removed siblings out of a text leaves the text of the children that stay, with everything around
them. -/
theorem cutOut_labels {lead trail : List Char} {groups : List Group} {decisions : Decisions} {labels : List Label}
    (hplaced : labels.map Prod.fst = spread (byteLength lead) groups)
    (hmarks : labels.filterMap markOf = decisions.marked.reverse)
    (hkinds : ∀ label ∈ labels, label.2 = true → label.1.1.kind ≠ none) :
    cutOut decisions.cuts (lead ++ (textOf (groups.flatMap Group.nodes) ++ trail)) =
      lead ++ (textOf (keptNodes labels) ++ trail) := by
  have houtside : ∀ place, (place < byteLength lead ∨
      byteLength lead + byteLength (textOf (groups.flatMap Group.nodes)) ≤ place) →
      (!decisions.cuts.any (·.holds place)) = true := by
    intro place hplace
    rw [Bool.not_eq_true', Bool.eq_false_iff, Ne, any_cuts_iff hmarks hkinds]
    rintro ⟨label, hlabel, -, hlow, hhigh⟩
    have hbounds := bounds_of_mem_spread (hplaced ▸ List.mem_map_of_mem hlabel)
    omega
  have hlead : selectFrom (fun place => !decisions.cuts.any (·.holds place)) 0 lead = lead := by
    refine (selectFrom_uniform fun place _ hhigh => houtside place (.inl ?_)).trans (if_pos rfl)
    rwa [Nat.zero_add] at hhigh
  have htrail : selectFrom (fun place => !decisions.cuts.any (·.holds place))
      (byteLength lead + byteLength (textOf (groups.flatMap Group.nodes))) trail = trail :=
    (selectFrom_uniform fun place hlow _ => houtside place (.inr hlow)).trans (if_pos rfl)
  have hkept : selectFrom (fun place => !decisions.cuts.any (·.holds place)) (byteLength lead)
      (textOf (groups.flatMap Group.nodes)) = textOf (keptNodes labels) :=
    selectFrom_labels hplaced fun label hlabel place hlow hhigh =>
      selected_of_label hplaced hmarks hkinds hlabel hlow hhigh
  rw [cutOut, selectFrom_append, selectFrom_append, hlead, Nat.zero_add, hkept, htrail]

/-! ## The tokens that are left -/

theorem exists_last_token (group : Group) : ∃ front last, tokensOf group.nodes = front ++ [last] ∧
    (group.kind ≠ some .text → last.isText = false) := by
  obtain ⟨kind, nodes, shape⟩ := group
  cases shape with
  | declaration content isLeaf => exact ⟨[], _, rfl, fun _ => rfl⟩
  | doctype content isLeaf => exact ⟨[], _, rfl, fun _ => rfl⟩
  | comment content isLeaf => exact ⟨[], _, rfl, fun _ => rfl⟩
  | other content isLeaf => exact ⟨[], _, rfl, fun _ => rfl⟩
  | text token isLeaf h => exact ⟨[], _, rfl, fun hkind => absurd rfl hkind⟩
  | textAfter before token isLeaf h =>
    exact ⟨_, token, tokensOf_append _ _, fun hkind => absurd rfl hkind⟩
  | element node content module htag hmodule =>
    cases node with
    | leaf token isLeaf =>
      cases token with
      | emptyTag content => exact ⟨[], _, rfl, fun _ => rfl⟩
      | _ => cases htag
    | element content children closing =>
      refine ⟨.openTag content :: tokensOf children, .closeTag closing, ?_, fun _ => rfl⟩
      rw [tokensOf, tokensOf, List.append_nil, tokens, List.cons_append]

/-- Tokens that may stand side by side still may when groups are left out, if what is no text may stand before
anything. -/
theorem isChain_kept {R : Token → Token → Prop} (hfree : ∀ token other, token.isText = false → R token other)
    {labels : List Label} (hclear : labels.IsChain fun earlier later =>
      later.2 = true → earlier.2 = true ∨ earlier.1.1.kind ≠ some .text) {previous : Token}
    (hfirst : ∀ label ∈ labels.head?, label.2 = true → previous.isText = false) {rest : List Token}
    (h : (previous :: (tokensOf (labels.flatMap (·.1.1.nodes)) ++ rest)).IsChain R) :
    (previous :: (tokensOf (keptNodes labels) ++ rest)).IsChain R := by
  induction labels generalizing previous with
  | nil => exact h
  | cons label labels ih =>
    rw [List.flatMap_cons, tokensOf_append, List.append_assoc] at h
    obtain ⟨⟨group, span⟩, removed⟩ := label
    cases removed with
    | true =>
      -- what stands before a group that goes is no text, and may stand before what follows the group
      have hprevious : previous.isText = false := hfirst _ rfl rfl
      refine ih hclear.tail (fun _ _ _ => hprevious) ?_
      exact h.tail.right_of_append.cons fun other _ => hfree previous other hprevious
    | false =>
      -- the chain goes on from the last token of a group that stays
      obtain ⟨front, last, hlast, htext⟩ := exists_last_token group
      have hkept : tokensOf (keptNodes (((group, span), false) :: labels)) =
          front ++ (last :: tokensOf (keptNodes labels)) := by
        change tokensOf (group.nodes ++ keptNodes labels) = _
        rw [tokensOf_append, hlast, List.append_assoc]
        rfl
      rw [hlast, List.append_assoc, List.singleton_append, ← List.cons_append, List.isChain_split] at h
      rw [hkept, List.append_assoc, List.cons_append, ← List.cons_append, List.isChain_split]
      refine ⟨h.1, ih hclear.tail (fun later hlater hremoved => ?_) h.2⟩
      refine htext ?_
      rcases (List.isChain_cons.mp hclear).1 later hlater hremoved with hgone | hkind
      · cases hgone
      · exact hkind

end ModuleAudit.Prune
