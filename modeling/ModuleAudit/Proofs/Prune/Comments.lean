import ModuleAudit.Proofs.Prune.Written

/-! What the comments between the dependencies say. The decisions cut a comment out of the text by its span and look
between its marks; in a text without a mark at its start, they find the content of the comment that was read there. -/

namespace ModuleAudit.Prune
set_option autoImplicit false

open Markup Node

/-! ## Places -/

theorem slice_middle (front middle back : List Char) :
    slice ⟨byteLength front, byteLength front + byteLength middle⟩ (front ++ (middle ++ back)) = middle := by
  have hholds : ∀ place, Span.holds ⟨byteLength front, byteLength front + byteLength middle⟩ place = true ↔
      byteLength front ≤ place ∧ place < byteLength front + byteLength middle := holds_iff _
  have hfront : selectFrom (Span.holds ⟨byteLength front, byteLength front + byteLength middle⟩) 0 front = [] := by
    refine (selectFrom_uniform fun place _ hhigh => ?_).trans (if_neg Bool.false_ne_true)
    rw [Bool.eq_false_iff, Ne, hholds]
    omega
  have hback : selectFrom (Span.holds ⟨byteLength front, byteLength front + byteLength middle⟩)
      (byteLength front + byteLength middle) back = [] := by
    refine (selectFrom_uniform fun place hlow _ => ?_).trans (if_neg Bool.false_ne_true)
    rw [Bool.eq_false_iff, Ne, hholds]
    omega
  have hmiddle : selectFrom (Span.holds ⟨byteLength front, byteLength front + byteLength middle⟩) (byteLength front)
      middle = middle := by
    refine (selectFrom_uniform fun place hlow hhigh => ?_).trans (if_pos rfl)
    exact (hholds place).mpr ⟨hlow, hhigh⟩
  rw [slice, selectFrom_append, selectFrom_append, hfront, Nat.zero_add, hmiddle, hback, List.nil_append,
    List.append_nil]

theorem mem_locate_iff {offset : Nat} {row : List Token} {token : Token} {span : Span} :
    (token, span) ∈ Markup.locate offset row ↔ ∃ front back, row = front ++ token :: back ∧
      span = ⟨offset + byteLength (front.flatMap Token.written),
        offset + byteLength (front.flatMap Token.written) + byteLength token.written⟩ := by
  constructor
  · intro h
    induction row generalizing offset with
    | nil => cases h
    | cons first rest ih =>
      rw [Markup.locate] at h
      rcases List.mem_cons.mp h with hsame | hrest
      · obtain ⟨rfl, rfl⟩ := Prod.mk.inj hsame
        exact ⟨[], rest, rfl, rfl⟩
      · obtain ⟨front, back, rfl, rfl⟩ := ih hrest
        refine ⟨first :: front, back, rfl, ?_⟩
        rw [List.flatMap_cons, byteLength_append, ← Nat.add_assoc]
  · rintro ⟨front, back, rfl, rfl⟩
    rw [locate_append, Markup.locate]
    exact List.mem_append_right _ List.mem_cons_self

/-- Where a token stands, the text is what is written for it. -/
theorem slice_of_mem_locate {row : List Token} {token : Token} {span : Span} (h : (token, span) ∈ Markup.locate 0 row) :
    slice span (row.flatMap Token.written) = token.written := by
  obtain ⟨front, back, rfl, rfl⟩ := mem_locate_iff.mp h
  rw [Nat.zero_add, List.flatMap_append, List.flatMap_cons]
  exact slice_middle _ _ _

theorem exists_of_mem_spread {offset : Nat} {groups : List Group} {placed : Group × Span}
    (h : placed ∈ spread offset groups) :
    ∃ front back, groups = front ++ placed.1 :: back ∧ placed.2 = placeAfter offset front placed.1.nodes := by
  induction groups generalizing offset with
  | nil => cases h
  | cons group rest ih =>
    rcases List.mem_cons.mp h with rfl | hrest
    · exact ⟨[], rest, rfl, rfl⟩
    · obtain ⟨front, back, rfl, hplace⟩ := ih hrest
      refine ⟨group :: front, back, rfl, ?_⟩
      rw [hplace, placeAfter, placeAfter, List.flatMap_cons, textOf_append, byteLength_append, ← Nat.add_assoc]

/-- A comment among the children stands where its sibling says. -/
theorem Frame.mem_locate_of_comment {frame : Frame} {groups : List Group} {placed : Group × Span}
    (h : placed ∈ spread (byteLength frame.lead) groups) {content : List Char}
    {isLeaf : (Token.comment content).isLeaf} (hnodes : placed.1.nodes = [.leaf (.comment content) isLeaf]) :
    (.comment content, placed.2) ∈ Markup.locate 0 (frame.row (groups.flatMap Group.nodes)) := by
  obtain ⟨front, back, rfl, hplace⟩ := exists_of_mem_spread h
  refine mem_locate_iff.mpr ⟨frame.front ++ (.openTag frame.tag :: tokensOf (front.flatMap Group.nodes)),
    tokensOf (back.flatMap Group.nodes) ++ frame.trail, ?_, ?_⟩
  · rw [row, List.flatMap_append, List.flatMap_cons, tokensOf_append, tokensOf_append, hnodes]
    simp [tokensOf, tokens]
  · have hlead : (frame.front ++ (.openTag frame.tag :: tokensOf (front.flatMap Group.nodes))).flatMap Token.written =
        frame.lead ++ textOf (front.flatMap Group.nodes) := by
      rw [lead, textOf]
      simp
    rw [hlead, byteLength_append, Nat.zero_add, hplace, placeAfter, hnodes, textOf_leaf]

/-! ## Comments -/

theorem commentBody_written (content : List Char) : commentBody (Token.comment content).written = content := by
  have hopen : Text.afterMark? ['<', '!', '-', '-'] (Token.comment content).written =
      some (content ++ ['-', '-', '>']) :=
    Text.afterMark?_append ['<', '!', '-', '-'] _
  have hclose : Text.afterMark? ['>', '-', '-'] (content ++ ['-', '-', '>']).reverse = some content.reverse := by
    rw [List.reverse_append]
    exact Text.afterMark?_append ['>', '-', '-'] _
  simp only [commentBody, hopen, hclose, List.reverse_reverse]

/-- A comment that was read at the place of a sibling is what the sibling says. -/
theorem isKeepComment_eq {row : List Token} {content : List Char} {span : Span}
    (h : (.comment content, span) ∈ Markup.locate 0 row) :
    isKeepComment (row.flatMap Token.written) ⟨.comment, span⟩ = saysKeep content := by
  rw [isKeepComment, slice_of_mem_locate h, commentBody_written]
  rfl

end ModuleAudit.Prune
