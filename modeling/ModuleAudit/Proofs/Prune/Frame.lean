import ModuleAudit.Proofs.Prune.Siblings

/-! What stands around the children of the dependencies. A frame has everything up to the tag that opens them and
everything after them, so that other children can be put in. The walk finds the siblings of whatever children stand in
the frame (`Frame.siblings?_eq`), and where the walk finds siblings there is a frame (`exists_frame`). -/

namespace ModuleAudit.Prune
set_option autoImplicit false

open Markup Node

/-- Tokens that add to no siblings when the walk meets them between two children. -/
def Closes (trail : List Token) : Prop :=
  ∀ (walk : Walk) (offset : Nat), walk.AtEntries →
    ∃ last, (Markup.locate offset trail).foldlM Walk.step walk = some last ∧ last.found = true ∧
      last.siblings = walk.siblings

structure Frame where
  front : List Token
  tag : List Char
  trail : List Token
  enters : (Markup.locate 0 (front ++ [.openTag tag])).foldlM Walk.step {} =
    some { depth := 2, found := true, inside := true }
  closes : Closes trail

namespace Frame

/-- The tokens with some children in the frame. -/
def row (frame : Frame) (children : List Node) : List Token :=
  frame.front ++ (.openTag frame.tag :: (tokensOf children ++ frame.trail))

/-- The text in front of the children. -/
def lead (frame : Frame) : List Char := (frame.front ++ [Token.openTag frame.tag]).flatMap Token.written

theorem written_row (frame : Frame) (children : List Node) : (frame.row children).flatMap Token.written =
    frame.lead ++ (textOf children ++ frame.trail.flatMap Token.written) := by
  rw [row, lead, textOf]
  simp

/-- The siblings that the walk finds are those of groups of the children. -/
theorem siblings?_eq {text : List Char} {frame : Frame} {children : List Node}
    (hread : read? text = some (frame.row children)) (h : ∀ node ∈ children, Nameable node) :
    ∃ groups, children = groups.flatMap Group.nodes ∧
      siblings? text = some (some ((spread (byteLength frame.lead) groups).filterMap siblingOf)) := by
  have hat : ({ depth := 2, found := true, inside := true } : Walk).AtEntries := ⟨rfl, rfl, rfl, rfl⟩
  obtain ⟨inner, groups, hentries, hinner, hgroups, hsiblings⟩ := exists_groups hat rfl h (byteLength frame.lead)
  obtain ⟨last, hlast, hfound, hsame⟩ :=
    frame.closes inner (byteLength frame.lead + byteLength (textOf children)) hinner
  refine ⟨groups, hgroups, ?_⟩
  have hsplit : frame.row children = (frame.front ++ [.openTag frame.tag]) ++ (tokensOf children ++ frame.trail) := by
    rw [row, List.append_assoc]
    rfl
  have hwalk : (Markup.locate 0 (frame.row children)).foldlM Walk.step {} = some last := by
    rw [hsplit, locate_append, List.foldlM_append, frame.enters, Nat.zero_add, Option.bind_eq_bind, Option.bind_some,
      locate_append, List.foldlM_append]
    change ((Markup.locate (byteLength frame.lead) (tokensOf children)).foldlM Walk.step _).bind _ = some last
    rw [hentries]
    exact hlast
  rw [siblings?, hread, Option.bind_eq_bind, Option.bind_some, hwalk, Option.bind_eq_bind, Option.bind_some, hfound,
    hsame, hsiblings]
  rfl

end Frame

/-! ## Ends of the children -/

theorem Walk.AtEntries.leave {walk : Walk} (h : walk.AtEntries) (span : Span) :
    (walk.leave span).Past walk.siblings := by
  have hthird : (walk.inside && walk.depth == 3) = false := by
    rw [h.depth]
    exact Bool.and_false _
  rw [Walk.leave]
  simp only [hthird, h.amongSiblings, Bool.false_eq_true, if_false, if_true]
  exact ⟨h.found, rfl, rfl⟩

/-- After the tag that closes the dependencies there are no siblings any more. -/
theorem closes_closeTag (closing : List Char) (after : List Token) : Closes (.closeTag closing :: after) := by
  intro walk offset hwalk
  obtain ⟨last, hlast, hpast⟩ := (hwalk.leave ⟨offset, offset + byteLength (Token.closeTag closing).written⟩).walk
    (Markup.locate (offset + byteLength (Token.closeTag closing).written) after)
  exact ⟨last, hlast, hpast.found, hpast.same⟩

/-- Below a child of the dependencies, tags that are never closed add no siblings. -/
theorem walk_unclosed_of_quiet {row : List Token} (h : Unclosed row) {walk : Walk} (hquiet : walk.Quiet)
    (offset : Nat) : ∃ last, (Markup.locate offset row).foldlM Walk.step walk = some last ∧ last.found = walk.found ∧
      last.siblings = walk.siblings := by
  induction h generalizing walk offset with
  | nil => exact ⟨walk, rfl, rfl, rfl⟩
  | cons content nodes h ih =>
    have hdeeper : ({ walk with depth := walk.depth + 1 } : Walk).Quiet :=
      ⟨fun hinside => Nat.le_succ_of_le (hquiet.deep hinside), fun hfound => Nat.le_succ_of_le (hquiet.past hfound)⟩
    obtain ⟨last, hlast, hfound, hsame⟩ := ih hdeeper
      (offset + byteLength (Token.openTag content).written + byteLength (textOf nodes))
    refine ⟨last, ?_, hfound, hsame⟩
    rw [Markup.locate, List.foldlM_cons, Walk.step, Walk.enter, hquiet.amongSiblings, hquiet.unmet]
    simp only [Bool.false_eq_true, if_false, Option.bind_eq_bind, Option.bind_some, locate_append, List.foldlM_append,
      walk_tokensOf_of_quiet nodes hdeeper]
    exact hlast

/-- Tags that are never closed add no siblings, if the first may be a child. -/
theorem closes_of_unclosed {row : List Token} (h : Unclosed row) {walk last : Walk} {offset : Nat}
    (hwalk : walk.AtEntries) (hlast : (Markup.locate offset row).foldlM Walk.step walk = some last) : Closes row := by
  cases h with
  | nil => exact fun walk offset hwalk => ⟨walk, rfl, hwalk.found, rfl⟩
  | cons content nodes h =>
    rw [Markup.locate, List.foldlM_cons, Walk.step, Walk.enter, if_pos hwalk.amongSiblings] at hlast
    obtain ⟨entered, hentered, -⟩ := Option.bind_eq_some_iff.mp hlast
    obtain ⟨module, hmodule, -⟩ := Option.map_eq_some_iff.mp hentered
    intro other place hother
    have hquiet : ({ other with depth := other.depth + 1, opened := some (place, module) } : Walk).Quiet := by
      refine ⟨fun _ => ?_, fun hfound => ?_⟩
      · exact Nat.succ_le_succ (Nat.le_of_eq hother.depth.symm)
      · exact absurd hfound (by rw [hother.found]; decide)
    obtain ⟨last', hlast', hfound, hsame⟩ := walk_unclosed_of_quiet h hquiet
      (place + byteLength (Token.openTag content).written + byteLength (textOf nodes))
    refine ⟨last', ?_, hfound.trans hother.found, hsame⟩
    rw [Markup.locate, List.foldlM_cons, Walk.step, Walk.enter, if_pos hother.amongSiblings, hmodule]
    simp only [Option.map_some, Option.bind_eq_bind, Option.bind_some, locate_append, List.foldlM_append,
      walk_tokensOf_of_quiet nodes hquiet]
    exact hlast'

/-! ## Where the walk finds the dependencies -/

/-- Before the dependencies are met, a token changes the depth only, or it is their tag. -/
theorem step_before {depth : Nat} {token : Token} {span : Span} {walk : Walk}
    (h : Walk.step { depth } (token, span) = some walk) :
    (∃ deeper, walk = { depth := deeper }) ∨ walk.Past [] ∨
      (∃ tag, token = .openTag tag) ∧ walk = { depth := 2, found := true, inside := true } := by
  cases token with
  | openTag content =>
    rw [Walk.step, Walk.enter, if_neg (by exact Bool.false_ne_true)] at h
    split at h
    · rename_i hmet
      have hdepth : depth = 1 := by simp_all
      subst hdepth
      exact .inr (.inr ⟨⟨content, rfl⟩, (Option.some.inj h).symm⟩)
    · exact .inl ⟨depth + 1, (Option.some.inj h).symm⟩
  | emptyTag content =>
    rw [Walk.step, Walk.meetEmpty, if_neg (by exact Bool.false_ne_true)] at h
    split at h
    · obtain rfl := Option.some.inj h
      exact .inr (.inl ⟨rfl, rfl, rfl⟩)
    · exact .inl ⟨depth, (Option.some.inj h).symm⟩
  | closeTag content => exact .inl ⟨depth - 1, (Option.some.inj h).symm⟩
  | _ => exact .inl ⟨depth, (Option.some.inj h).symm⟩

/-- The walk meets the dependencies as an empty tag, or at a tag that opens them. -/
theorem exists_front {row : List Token} {depth offset : Nat} {last : Walk}
    (h : (Markup.locate offset row).foldlM Walk.step { depth } = some last) (hfound : last.found = true) :
    last.Past [] ∨ ∃ front tag rest, row = front ++ .openTag tag :: rest ∧
      (Markup.locate offset (front ++ [.openTag tag])).foldlM Walk.step { depth } =
        some { depth := 2, found := true, inside := true } ∧
      (Markup.locate (offset + byteLength ((front ++ [Token.openTag tag]).flatMap Token.written)) rest).foldlM Walk.step
        { depth := 2, found := true, inside := true } = some last := by
  induction row generalizing depth offset with
  | nil =>
    obtain rfl := Option.some.inj h
    cases hfound
  | cons token row ih =>
    rw [Markup.locate, List.foldlM_cons] at h
    obtain ⟨walk, hstep, hrest⟩ := Option.bind_eq_some_iff.mp h
    rcases step_before hstep with ⟨deeper, rfl⟩ | hpast | ⟨⟨tag, rfl⟩, rfl⟩
    · rcases ih hrest with hpast | ⟨front, tag, rest, rfl, hfront, hafter⟩
      · exact .inl hpast
      · refine .inr ⟨token :: front, tag, rest, rfl, ?_, ?_⟩
        · rw [List.cons_append, Markup.locate, List.foldlM_cons, hstep]
          exact hfront
        · rw [List.cons_append, List.flatMap_cons, byteLength_append, ← Nat.add_assoc]
          exact hafter
    · obtain ⟨last', hlast, hend⟩ := hpast.walk (Markup.locate (offset + byteLength token.written) row)
      obtain rfl := Option.some.inj (hlast.symm.trans hrest)
      exact .inl hend
    · refine .inr ⟨[], tag, row, rfl, ?_, ?_⟩
      · rw [List.nil_append, Markup.locate, List.foldlM_cons, hstep]
        rfl
      · rw [List.nil_append, List.flatMap_singleton]
        exact hrest

/-- A child that the walk takes may be one. -/
theorem nameable_of_walk {walk last : Walk} (hwalk : walk.AtEntries) {node : Node} {offset : Nat}
    (h : (Markup.locate offset node.tokens).foldlM Walk.step walk = some last) : Nameable node := by
  intro content htag
  cases node with
  | leaf token isLeaf =>
    cases token with
    | emptyTag own =>
      obtain rfl := Option.some.inj htag
      rw [tokens, Markup.locate, List.foldlM_cons, Walk.step, Walk.meetEmpty, if_pos hwalk.amongSiblings] at h
      obtain ⟨met, hmet, -⟩ := Option.bind_eq_some_iff.mp h
      obtain ⟨module, hmodule, -⟩ := Option.map_eq_some_iff.mp hmet
      exact ⟨module, hmodule⟩
    | _ => cases htag
  | element own children closing =>
    obtain rfl := Option.some.inj htag
    rw [walk_element, Walk.enter, if_pos hwalk.amongSiblings] at h
    obtain ⟨entered, hentered, -⟩ := Option.bind_eq_some_iff.mp h
    obtain ⟨module, hmodule, -⟩ := Option.map_eq_some_iff.mp hentered
    exact ⟨module, hmodule⟩

theorem nameable_of_walk_tokensOf {walk last : Walk} (hwalk : walk.AtEntries) {nodes : List Node} {offset : Nat}
    (h : (Markup.locate offset (tokensOf nodes)).foldlM Walk.step walk = some last) :
    last.AtEntries ∧ ∀ node ∈ nodes, Nameable node := by
  induction nodes generalizing walk offset with
  | nil =>
    obtain rfl := Option.some.inj h
    exact ⟨hwalk, fun node hmem => absurd hmem List.not_mem_nil⟩
  | cons node rest ih =>
    rw [tokensOf, locate_append, List.foldlM_append] at h
    obtain ⟨middle, hmiddle, hrest⟩ := Option.bind_eq_some_iff.mp h
    have hnode := nameable_of_walk hwalk hmiddle
    obtain ⟨kind, -, hmet⟩ := exists_shape_of_walk hwalk hnode offset
    obtain rfl := Option.some.inj (hmet.symm.trans hmiddle)
    obtain ⟨hlast, hall⟩ := ih (hwalk.meet kind _) hrest
    exact ⟨hlast, List.forall_mem_cons.mpr ⟨hnode, hall⟩⟩

/-- Siblings stand in a frame, unless the dependencies are an empty tag. -/
theorem exists_frame {text : List Char} {siblings : List Sibling} (h : siblings? text = some (some siblings)) :
    siblings = [] ∨ ∃ (frame : Frame) (children : List Node), read? text = some (frame.row children) ∧
      ∀ node ∈ children, Nameable node := by
  obtain ⟨row, hread, hrest⟩ := Option.bind_eq_some_iff.mp h
  obtain ⟨last, hlast, hsome⟩ := Option.bind_eq_some_iff.mp hrest
  have hfound : last.found = true := by
    by_contra hnone
    rw [if_neg hnone] at hsome
    cases hsome
  rw [if_pos hfound] at hsome
  obtain rfl := Option.some.inj (Option.some.inj hsome)
  rcases exists_front hlast hfound with hpast | ⟨front, tag, rest, rfl, hfront, hafter⟩
  · exact .inl hpast.same
  · have hat : ({ depth := 2, found := true, inside := true } : Walk).AtEntries := ⟨rfl, rfl, rfl, rfl⟩
    obtain ⟨children, trail, rfl, htrail⟩ := exists_nodes rest
    rw [locate_append, List.foldlM_append] at hafter
    obtain ⟨inner, hinner, hend⟩ := Option.bind_eq_some_iff.mp hafter
    obtain ⟨hentries, hnames⟩ := nameable_of_walk_tokensOf hat hinner
    have hcloses : Closes trail := by
      rcases htrail with hopen | ⟨closing, after, rfl⟩
      · exact closes_of_unclosed hopen hentries hend
      · exact closes_closeTag closing after
    exact .inr ⟨⟨front, tag, trail, hfront, hcloses⟩, children, hread, hnames⟩

end ModuleAudit.Prune
