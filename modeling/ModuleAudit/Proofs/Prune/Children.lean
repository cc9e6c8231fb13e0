import ModuleAudit.Proofs.Prune.Comments
import ModuleAudit.Proofs.Prune.Marks

/-! The children that an edit leaves, as tokens. The decisions are about siblings, which have no meaning apart from the
text they were found in; here they are read off from the children themselves. So an edit takes the children in a frame
to those that stay, and is again a text with children in the same frame (`Frame.Holds.edit`). -/

namespace ModuleAudit.Prune
set_option autoImplicit false

open Markup Node

/-! ## Other views of the same items -/

section Views

variable {α β : Type} {view : α → Option Child} {view' : β → Option Child} {unused : List String}

theorem keptAfter_congr {item : α} {item' : β} (h : view item = view' item') (kept : Bool) :
    keptAfter view kept item = keptAfter view' kept item' := by
  rw [keptAfter, keptAfter, h]

theorem named?_congr {item : α} {item' : β} (h : view item = view' item') : named? view item = named? view' item' := by
  rw [named?, named?, h]

theorem goes_cons_congr {item : α} {item' : β} (h : view item = view' item') {rest : List α} {rest' : List β}
    (hrest : ∀ kept, goes view unused kept rest = goes view' unused kept rest') (kept : Bool) :
    goes view unused kept (item :: rest) = goes view' unused kept (item' :: rest') := by
  simp only [goes, h, hrest]

theorem keptAfter_of_none {item : α} (h : view item = none) (kept : Bool) : keptAfter view kept item = kept := by
  rw [keptAfter, h]

theorem goes_cons_of_none {item : α} (h : view item = none) (kept : Bool) (rest : List α) :
    goes view unused kept (item :: rest) = goes view unused kept rest := by
  simp only [goes, h]

theorem named?_of_none {item : α} (h : view item = none) : named? view item = none := by
  rw [named?, h]

section FilterMap

variable {f : α → Option β} {items : List α}

theorem goes_filterMap (h : ∀ item ∈ items, view item = (f item).bind view') (kept : Bool) :
    goes view' unused kept (items.filterMap f) = goes view unused kept items := by
  induction items generalizing kept with
  | nil => rfl
  | cons item rest ih =>
    obtain ⟨hitem, hrest⟩ := List.forall_mem_cons.mp h
    rcases hf : f item with _ | other
    · rw [hf, Option.bind_none] at hitem
      rw [List.filterMap_cons_none hf, goes_cons_of_none hitem, ih hrest]
    · rw [hf, Option.bind_some] at hitem
      rw [List.filterMap_cons_some hf]
      exact (goes_cons_congr hitem (fun kept => (ih hrest kept).symm) kept).symm

theorem marks_filterMap (h : ∀ item ∈ items, view item = (f item).bind view') (kept : Bool) :
    (marks view unused kept items).filterMap (fun mark => (f mark.1).map (·, mark.2)) =
      marks view' unused kept (items.filterMap f) := by
  induction items generalizing kept with
  | nil => rfl
  | cons item rest ih =>
    have hgoes : goes view' unused kept ((item :: rest).filterMap f) = goes view unused kept (item :: rest) :=
      goes_filterMap h kept
    obtain ⟨hitem, hrest⟩ := List.forall_mem_cons.mp h
    rcases hf : f item with _ | other
    · rw [hf, Option.bind_none] at hitem
      rw [marks, List.filterMap_cons_none (by rw [hf]; rfl), List.filterMap_cons_none hf, keptAfter_of_none hitem,
        ih hrest]
    · rw [List.filterMap_cons_some hf] at hgoes
      rw [hf, Option.bind_some] at hitem
      rw [marks, List.filterMap_cons_some (by rw [hf]; rfl), List.filterMap_cons_some hf, marks, ih hrest,
        keptAfter_congr hitem, hgoes, hitem]

theorem acted_filterMap (h : ∀ item ∈ items, view item = (f item).bind view') (flag kept : Bool) :
    acted view' unused flag kept (items.filterMap f) = acted view unused flag kept items := by
  induction items generalizing kept with
  | nil => rfl
  | cons item rest ih =>
    obtain ⟨hitem, hrest⟩ := List.forall_mem_cons.mp h
    rcases hf : f item with _ | other
    · rw [hf, Option.bind_none] at hitem
      rw [List.filterMap_cons_none hf, ih hrest, acted_cons_of_none (named?_of_none hitem), keptAfter_of_none hitem]
    · rw [hf, Option.bind_some] at hitem
      rw [List.filterMap_cons_some hf, acted, ih hrest, acted, named?_congr hitem, keptAfter_congr hitem]

end FilterMap

section Parts

-- an item is a part that looks the same, or any number of pieces of text
variable {parts : α → List β} {items : List α}

def Parted (view : α → Option Child) (view' : β → Option Child) (parts : α → List β) (item : α) : Prop :=
  (∃ part, parts item = [part] ∧ view item = view' part) ∨
    (view item = some ⟨.text, false⟩ ∧ ∀ part ∈ parts item, view' part = some ⟨.text, false⟩)

theorem keptAfter_of_text {item : α} (h : view item = some ⟨.text, false⟩) (kept : Bool) :
    keptAfter view kept item = kept := by
  simp only [keptAfter, h, Bool.or_false]

theorem goes_cons_of_text {item : α} (h : view item = some ⟨.text, false⟩) (kept : Bool) (rest : List α) :
    goes view unused kept (item :: rest) = goes view unused kept rest := by
  simp only [goes, h, Bool.or_false]

theorem named?_of_text {item : α} (h : view item = some ⟨.text, false⟩) : named? view item = none := by
  rw [named?, h]

theorem goes_append_of_text {front : List α} (h : ∀ item ∈ front, view item = some ⟨.text, false⟩) (kept : Bool)
    (rest : List α) : goes view unused kept (front ++ rest) = goes view unused kept rest := by
  induction front with
  | nil => rfl
  | cons item front ih =>
    obtain ⟨hitem, hfront⟩ := List.forall_mem_cons.mp h
    rw [List.cons_append, goes_cons_of_text hitem, ih hfront]

theorem acted_append_of_text {front : List α} (h : ∀ item ∈ front, view item = some ⟨.text, false⟩) (flag kept : Bool)
    (rest : List α) : acted view unused flag kept (front ++ rest) = acted view unused flag kept rest := by
  induction front with
  | nil => rfl
  | cons item front ih =>
    obtain ⟨hitem, hfront⟩ := List.forall_mem_cons.mp h
    rw [List.cons_append, acted_cons_of_none (named?_of_text hitem), keptAfter_of_text hitem, ih hfront]

theorem stays_append_of_text {front : List α} (h : ∀ item ∈ front, view item = some ⟨.text, false⟩) (kept : Bool)
    (rest : List α) : stays view unused kept (front ++ rest) =
      (if goes view unused kept rest then [] else front) ++ stays view unused kept rest := by
  induction front with
  | nil => rw [ite_self]; rfl
  | cons item front ih =>
    obtain ⟨hitem, hfront⟩ := List.forall_mem_cons.mp h
    rw [List.cons_append, stays_cons, hitem, goes_cons_of_text hitem, goes_append_of_text hfront,
      keptAfter_of_text hitem, ih hfront]
    cases goes view unused kept rest <;> rfl

theorem goes_flatMap (h : ∀ item ∈ items, Parted view view' parts item) (kept : Bool) :
    goes view' unused kept (items.flatMap parts) = goes view unused kept items := by
  induction items generalizing kept with
  | nil => rfl
  | cons item rest ih =>
    obtain ⟨hitem, hrest⟩ := List.forall_mem_cons.mp h
    rw [List.flatMap_cons]
    rcases hitem with ⟨part, hpart, hview⟩ | ⟨hview, htext⟩
    · rw [hpart, List.singleton_append]
      exact (goes_cons_congr hview (fun kept => (ih hrest kept).symm) kept).symm
    · rw [goes_append_of_text htext, ih hrest, goes_cons_of_text hview]

theorem acted_flatMap (h : ∀ item ∈ items, Parted view view' parts item) (flag kept : Bool) :
    acted view' unused flag kept (items.flatMap parts) = acted view unused flag kept items := by
  induction items generalizing kept with
  | nil => rfl
  | cons item rest ih =>
    obtain ⟨hitem, hrest⟩ := List.forall_mem_cons.mp h
    rw [List.flatMap_cons]
    rcases hitem with ⟨part, hpart, hview⟩ | ⟨hview, htext⟩
    · rw [hpart, List.singleton_append, acted, acted, ih hrest, named?_congr hview, keptAfter_congr hview]
    · rw [acted_append_of_text htext, ih hrest, acted_cons_of_none (named?_of_text hview), keptAfter_of_text hview]

theorem stays_flatMap (h : ∀ item ∈ items, Parted view view' parts item) (kept : Bool) :
    stays view' unused kept (items.flatMap parts) = (stays view unused kept items).flatMap parts := by
  induction items generalizing kept with
  | nil => rfl
  | cons item rest ih =>
    have hgoes : goes view' unused kept (parts item ++ rest.flatMap parts) = goes view unused kept (item :: rest) :=
      goes_flatMap h kept
    obtain ⟨hitem, hrest⟩ := List.forall_mem_cons.mp h
    rw [List.flatMap_cons, stays_cons]
    rcases hitem with ⟨part, hpart, hview⟩ | ⟨hview, htext⟩
    · rw [hpart, List.singleton_append] at hgoes ⊢
      rw [stays_cons, ih hrest, hgoes, hview, keptAfter_congr hview]
      split
      · rfl
      · rw [List.flatMap_cons, hpart]
        rfl
    · -- the pieces of one text stay or go together
      rw [goes_append_of_text htext] at hgoes
      rw [stays_append_of_text htext, ih hrest, hgoes, hview, keptAfter_of_text hview]
      cases goes view unused kept (item :: rest) <;> rfl

end Parts

end Views

/-! ## The children in a frame -/

/-- What the decisions see of a child. -/
def view? : Node → Option Child
  | .leaf (.emptyTag content) _ | .element content _ _ => some ⟨.element ((dependencyName? content).getD none), false⟩
  | .leaf (.comment content) _ => some ⟨.comment, saysKeep content⟩
  | .leaf (.instruction _) _ => some ⟨.other, false⟩
  | .leaf (.text _) _ | .leaf (.verbatim _) _ | .leaf (.reference _) _ => some ⟨.text, false⟩
  | .leaf _ _ => none

theorem view?_of_textual {token : Token} {isLeaf : token.isLeaf} (h : isTextual token) :
    view? (.leaf token isLeaf) = some ⟨.text, false⟩ := by
  cases token with
  | text content => rfl
  | verbatim content => rfl
  | reference content => rfl
  | _ => cases h

theorem view?_of_tag {node : Node} {content : List Char} {module : Option String} (htag : tag? node = some content)
    (hmodule : dependencyName? content = some module) : view? node = some ⟨.element module, false⟩ := by
  cases node with
  | leaf token isLeaf =>
    cases token with
    | emptyTag own =>
      obtain rfl := Option.some.inj htag
      rw [view?, hmodule]
      rfl
    | _ => cases htag
  | element own children closing =>
    obtain rfl := Option.some.inj htag
    rw [view?, hmodule]
    rfl

/-- What the decisions see of a group, wherever it stands. -/
def Group.view? (placed : Group × Span) : Option Child := placed.1.nodes.head?.bind Prune.view?

theorem view?_of_text {nodes : List Node} (h : Shape (some .text) nodes) :
    ∀ node ∈ nodes, view? node = some ⟨.text, false⟩ := by
  intro node hmem
  obtain ⟨token, isLeaf, rfl, htextual⟩ := textual_of_shape h node hmem
  exact view?_of_textual htextual

theorem head?_view?_of_text {nodes : List Node} (h : Shape (some .text) nodes) :
    nodes.head?.bind view? = some ⟨.text, false⟩ := by
  have hall := view?_of_text h
  have hnodes : nodes ≠ [] := by cases h <;> simp
  obtain ⟨first, rest, rfl⟩ := List.exists_cons_of_ne_nil hnodes
  exact hall first List.mem_cons_self

theorem parted_group (placed : Group × Span) : Parted Group.view? view? (·.1.nodes) placed := by
  obtain ⟨⟨kind, nodes, shape⟩, span⟩ := placed
  cases shape with
  | textAfter before token isLeaf h =>
    exact .inr ⟨head?_view?_of_text (before.textAfter token isLeaf h), view?_of_text (before.textAfter token isLeaf h)⟩
  | _ => exact .inl ⟨_, rfl, rfl⟩

theorem view?_of_mem_spread {frame : Frame} {groups : List Group} {placed : Group × Span}
    (h : placed ∈ spread (byteLength frame.lead) groups) : Group.view? placed = (siblingOf placed).bind
      (seen ((frame.row (groups.flatMap Group.nodes)).flatMap Token.written)) := by
  have hcomment := @Frame.mem_locate_of_comment frame groups placed h
  obtain ⟨⟨kind, nodes, shape⟩, span⟩ := placed
  cases shape with
  | declaration content isLeaf => rfl
  | doctype content isLeaf => rfl
  | text token isLeaf htextual => exact view?_of_textual htextual
  | textAfter before token isLeaf htextual => exact head?_view?_of_text (before.textAfter token isLeaf htextual)
  | comment content isLeaf =>
    have hkeeps := isKeepComment_eq (hcomment rfl)
    exact congrArg (fun keeps => some (Child.mk .comment keeps)) hkeeps.symm
  | other content isLeaf => rfl
  | element node content module htag hmodule => exact view?_of_tag htag hmodule

/-! ## The edit -/

theorem map_fst_marks {α : Type} (view : α → Option Child) (unused : List String) (kept : Bool) (items : List α) :
    (marks view unused kept items).map Prod.fst = items := by
  induction items generalizing kept with
  | nil => rfl
  | cons item rest ih => rw [marks, List.map_cons, ih]

theorem stays_sublist {α : Type} (view : α → Option Child) (unused : List String) (kept : Bool) (items : List α) :
    (stays view unused kept items).Sublist items := by
  have hsome := (List.filter_sublist (p := fun mark : α × Bool => !mark.2) (l := marks view unused kept items)).map
    Prod.fst
  rwa [map_fst_marks] at hsome

theorem isSome_of_mem_marks {α : Type} {view : α → Option Child} {unused : List String} {kept : Bool} {items : List α}
    {mark : α × Bool} (h : mark ∈ marks view unused kept items) (hgone : mark.2 = true) :
    (view mark.1).isSome = true := by
  induction items generalizing kept with
  | nil => cases h
  | cons item rest ih =>
    rcases List.mem_cons.mp h with rfl | hrest
    · exact (Bool.and_eq_true_iff.mp hgone).1
    · exact ih hrest

namespace Frame

variable {frame : Frame} {children : List Node} {text : String}

/-- A text with these children in the frame, which the editor takes apart as it was put together. -/
structure Holds (frame : Frame) (children : List Node) (text : String) : Prop where
  read : read? text.toList = some (frame.row children)
  names : ∀ node ∈ children, Nameable node
  ends : ¬ ['\r', '\n'] <:+: text.toList
  start : text.toList.head? ≠ some byteOrderMark

theorem Holds.toList_eq (h : frame.Holds children text) : text.toList = (frame.row children).flatMap Token.written :=
  (written_of_read? h.read h.start).symm

theorem Holds.text_eq {other : String} (h : frame.Holds children text) (hother : frame.Holds children other) :
    text = other :=
  String.toList_inj.mp (h.toList_eq.trans hother.toList_eq.symm)

theorem Holds.view?_eq {groups : List Group} (h : frame.Holds (groups.flatMap Group.nodes) text) :
    ∀ placed ∈ spread (byteLength frame.lead) groups,
      Group.view? placed = (siblingOf placed).bind (seen text.toList) := by
  intro placed hplaced
  rw [h.toList_eq]
  exact view?_of_mem_spread hplaced

/-- The marks on groups are read off from what the groups look like. -/
theorem Holds.edited_marks {groups : List Group} (h : frame.Holds (groups.flatMap Group.nodes) text)
    (unused : List String) : frame.Edited (groups.flatMap Group.nodes) text.toList unused
      (Decisions.on text.toList unused ((spread (byteLength frame.lead) groups).filterMap siblingOf)) groups
      (marks Group.view? unused false (spread (byteLength frame.lead) groups)) := by
  refine ⟨rfl, rfl, map_fst_marks _ _ _ _, ?_, fun label hlabel hgone hnone => ?_⟩
  · rw [marked_on]
    exact marks_filterMap h.view?_eq false
  · -- a group that is no sibling has nothing to see, so it is never marked
    have hmem : label.1 ∈ spread (byteLength frame.lead) groups := by
      rw [← map_fst_marks Group.view? unused false (spread (byteLength frame.lead) groups)]
      exact List.mem_map_of_mem hlabel
    have hsome := isSome_of_mem_marks hlabel hgone
    rw [h.view?_eq label.1 hmem, siblingOf, hnone] at hsome
    cases hsome

/-- An edit takes the children to those that stay, in the same frame. -/
theorem Holds.edit (h : frame.Holds children text) (unused : List String) :
    ∃ edit notes, removeDependencies text unused = .ok (edit, notes) ∧
      frame.Holds (stays view? unused false children) edit.text ∧
      edit.removed = acted view? unused false false children := by
  obtain ⟨groups, rfl, hsiblings⟩ := frame.siblings?_eq h.read h.names
  have hedited := h.edited_marks unused
  have hchildren : (spread (byteLength frame.lead) groups).flatMap (·.1.nodes) = groups.flatMap Group.nodes := by
    refine (List.flatMap_map Prod.fst Group.nodes _).symm.trans ?_
    rw [map_fst_spread]
  have hkept : keptNodes (marks Group.view? unused false (spread (byteLength frame.lead) groups)) =
      stays view? unused false (groups.flatMap Group.nodes) := by
    rw [← hchildren, stays_flatMap (fun placed _ => parted_group placed) false, stays, List.flatMap_map]
    rfl
  refine ⟨_, _, removeDependencies_of_unmarked hsiblings h.start unused, ?_, ?_⟩
  · obtain ⟨htext, hstart, hreadable, hread⟩ := hedited.text_edit h.read h.ends h.start
    rw [hkept] at htext hreadable hread
    refine ⟨hread, fun node hnode => h.names node ((stays_sublist _ _ _ _).subset hnode), ?_, hstart⟩
    rw [htext]
    exact not_lineEnd_of_isChain hreadable.isChain_written
  · rw [← hchildren, acted_flatMap (fun placed _ => parted_group placed) false, ← acted_filterMap h.view?_eq false]
    exact removed_on _ _ _

end Frame

end ModuleAudit.Prune
