import ModuleAudit.Proofs.Prune.Comments
import ModuleAudit.Proofs.Prune.Marks

/-! An edit decides on each entry by what stands between it and the element before it, and cuts exactly the entries that
go and the comments and text in front of them (`edit_is_local`). Nothing in this depends on which other entries go. A
text that starts with a mark is the exception: there the comments that are looked at are not those that were read. -/

namespace ModuleAudit.Prune
set_option autoImplicit false

open Markup Node

/-! ## Lists in the order of places -/

/-- The list has what the places have, in the order of the places. -/
def InOrder {α : Type} (holds : Nat → α → Prop) (list : List α) : Prop :=
  ∃ places : List Nat, places.Pairwise (· < ·) ∧ List.Forall₂ holds places list ∧
    ∀ place a, holds place a → place ∈ places

namespace InOrder

variable {α : Type} {holds : Nat → α → Prop}

theorem nil (h : ∀ place a, ¬ holds place a) : InOrder holds [] :=
  ⟨[], .nil, .nil, fun place a hplace => absurd hplace (h place a)⟩

theorem cons {first : Option α} {rest : List α} (hfirst : ∀ a, holds 0 a ↔ first = some a)
    (hrest : InOrder (fun place => holds (place + 1)) rest) : InOrder holds (first.toList ++ rest) := by
  obtain ⟨places, hsorted, hholds, hall⟩ := hrest
  have hshifted : (places.map (· + 1)).Pairwise (· < ·) := hsorted.map _ fun _ _ hlt => Nat.succ_lt_succ hlt
  have hlater : List.Forall₂ holds (places.map (· + 1)) rest := List.forall₂_map_left_iff.mpr hholds
  have hmem : ∀ place a, holds (place + 1) a → place + 1 ∈ places.map (· + 1) :=
    fun place a hplace => List.mem_map_of_mem (hall place a hplace)
  cases first with
  | none =>
    refine ⟨places.map (· + 1), hshifted, hlater, fun place a hplace => ?_⟩
    cases place with
    | zero => cases (hfirst a).mp hplace
    | succ place => exact hmem place a hplace
  | some a =>
    refine ⟨0 :: places.map (· + 1), hshifted.cons fun place hplace => ?_, hlater.cons ((hfirst a).mpr rfl),
      fun place b hplace => ?_⟩
    · obtain ⟨before, -, rfl⟩ := List.mem_map.mp hplace
      exact Nat.succ_pos before
    · cases place with
      | zero => exact List.mem_cons_self
      | succ place => exact List.mem_cons_of_mem 0 (hmem place b hplace)

theorem congr {other : Nat → α → Prop} {list : List α} (h : InOrder holds list)
    (hsame : ∀ place a, holds place a ↔ other place a) : InOrder other list := by
  obtain ⟨places, hsorted, hholds, hall⟩ := h
  exact ⟨places, hsorted, hholds.imp fun place a => (hsame place a).mp,
    fun place a hplace => hall place a ((hsame place a).mpr hplace)⟩

theorem map {β : Type} {list : List α} (h : InOrder holds list) (f : α → β) :
    InOrder (fun place b => ∃ a, holds place a ∧ f a = b) (list.map f) := by
  obtain ⟨places, hsorted, hholds, hall⟩ := h
  refine ⟨places, hsorted, List.forall₂_map_right_iff.mpr (hholds.imp fun place a hplace => ⟨a, hplace, rfl⟩), ?_⟩
  rintro place b ⟨a, hplace, -⟩
  exact hall place a hplace

end InOrder

/-! ## What stands at a place -/

/-- The entry at a place depends on a module. -/
def EntryAt (siblings : List Sibling) (place : Nat) (name : String) : Prop :=
  ∃ span, siblings[place]? = some ⟨.element (some name), span⟩

/-- The comment that was read at the place of a sibling says `keep`. -/
def Keeps (text : List Char) (sibling : Sibling) : Prop :=
  sibling.kind = .comment ∧ ∃ row content, read? text = some row ∧
    (Token.comment content, sibling.span) ∈ Markup.locate 0 row ∧ saysKeep content = true

/-- A comment that says `keep` stands before a place, with no element between them. -/
def KeptAt (text : List Char) (siblings : List Sibling) (place : Nat) : Prop :=
  ∃ front comment between, siblings.take place = front ++ comment :: between ∧ Keeps text comment ∧
    ∀ sibling ∈ between, sibling.isElement = false

def RemovedAt (text : List Char) (siblings : List Sibling) (unused : List String) (place : Nat) (name : String) :
    Prop :=
  EntryAt siblings place name ∧ name ∈ unused ∧ ¬ KeptAt text siblings place

def PreservedAt (text : List Char) (siblings : List Sibling) (unused : List String) (place : Nat) (name : String) :
    Prop :=
  EntryAt siblings place name ∧ name ∈ unused ∧ KeptAt text siblings place

/-- The sibling at a place is an entry that is removed, or one of the comments and text directly before one. -/
def DeletedAt (text : List Char) (siblings : List Sibling) (unused : List String) (place : Nat) : Prop :=
  ∃ steps name, RemovedAt text siblings unused (place + steps) name ∧
    ∀ sibling ∈ (siblings.drop place).take steps, sibling.kind = .comment ∨ sibling.kind = .text

/-! ## The decisions by place -/

section Decisions

variable {text : List Char} {unused : List String}

theorem entryAt_zero {sibling : Sibling} {rest : List Sibling} {name : String} :
    EntryAt (sibling :: rest) 0 name ↔ sibling.kind = .element (some name) := by
  obtain ⟨kind, span⟩ := sibling
  simp [EntryAt]

theorem named?_seen_iff {sibling : Sibling} {name : String} :
    named? (seen text) sibling = some name ↔ sibling.kind = .element (some name) := by
  rcases hkind : sibling.kind with _ | _ | _ | _ <;> simp [named?, seen, hkind]

theorem keptAfter_seen_iff {kept : Bool} {sibling : Sibling} : keptAfter (seen text) kept sibling = true ↔
    sibling.isElement = false ∧ (kept = true ∨ isKeepComment text sibling = true) := by
  rcases hkind : sibling.kind with _ | _ | _ | _ <;> simp [keptAfter, seen, Sibling.isElement, hkind]

theorem isElement_of_isKeepComment {sibling : Sibling} (h : isKeepComment text sibling = true) :
    sibling.isElement = false := by
  rcases hkind : sibling.kind with _ | _ | _ | _ <;> simp [isKeepComment, Sibling.isElement, hkind] at h ⊢

/-- A comment keeps what follows some siblings if no element stands after it. -/
theorem foldl_keptAfter_iff {kept : Bool} {before : List Sibling} :
    before.foldl (keptAfter (seen text)) kept = true ↔
      (∃ front comment between, before = front ++ comment :: between ∧ isKeepComment text comment = true ∧
        ∀ sibling ∈ between, sibling.isElement = false) ∨
      (kept = true ∧ ∀ sibling ∈ before, sibling.isElement = false) := by
  induction before generalizing kept with
  | nil => simp
  | cons sibling rest ih =>
    rw [List.foldl_cons, ih, keptAfter_seen_iff, List.forall_mem_cons]
    constructor
    · rintro (⟨front, comment, between, rfl, hkeeps, hbetween⟩ | ⟨⟨hother, hkept | hkeeps⟩, hrest⟩)
      · exact .inl ⟨sibling :: front, comment, between, rfl, hkeeps, hbetween⟩
      · exact .inr ⟨hkept, hother, hrest⟩
      · exact .inl ⟨[], sibling, rest, rfl, hkeeps, hrest⟩
    · rintro (⟨front, comment, between, hsplit, hkeeps, hbetween⟩ | ⟨hkept, hother, hrest⟩)
      · rcases List.cons_eq_append_iff.mp hsplit with ⟨rfl, hhead⟩ | ⟨front', rfl, hrest⟩
        · obtain ⟨rfl, rfl⟩ := List.cons.inj hhead
          exact .inr ⟨⟨isElement_of_isKeepComment hkeeps, .inr hkeeps⟩, hbetween⟩
        · exact .inl ⟨front', comment, between, hrest, hkeeps, hbetween⟩
      · exact .inr ⟨⟨hother, .inl hkept⟩, hrest⟩

/-- The first sibling goes with an entry if there are only comments and text up to it. -/
theorem goes_seen_iff {kept : Bool} {siblings : List Sibling} : goes (seen text) unused kept siblings = true ↔
    ∃ steps name, EntryAt siblings steps name ∧ name ∈ unused ∧
      (siblings.take steps).foldl (keptAfter (seen text)) kept = false ∧
      ∀ sibling ∈ siblings.take steps, sibling.kind = .comment ∨ sibling.kind = .text := by
  induction siblings generalizing kept with
  | nil => simp [goes, EntryAt]
  | cons sibling rest ih =>
    by_cases halong : sibling.kind = .comment ∨ sibling.kind = .text
    · have hgoes : goes (seen text) unused kept (sibling :: rest) =
          goes (seen text) unused (keptAfter (seen text) kept sibling) rest := by
        rcases halong with hkind | hkind <;> simp only [goes, keptAfter, seen, hkind]
      rw [hgoes, ih]
      constructor
      · rintro ⟨steps, name, hentry, hunused, hkept, hbetween⟩
        exact ⟨steps + 1, name, hentry, hunused, hkept, List.forall_mem_cons.mpr ⟨halong, hbetween⟩⟩
      · rintro ⟨steps, name, hentry, hunused, hkept, hbetween⟩
        cases steps with
        | zero =>
          rw [entryAt_zero] at hentry
          simp [hentry] at halong
        | succ steps => exact ⟨steps, name, hentry, hunused, hkept, (List.forall_mem_cons.mp hbetween).2⟩
    · -- an entry goes by itself, and other siblings stay
      have hgoes : goes (seen text) unused kept (sibling :: rest) = true ↔
          ∃ name, sibling.kind = .element (some name) ∧ name ∈ unused ∧ kept = false := by
        rcases hkind : sibling.kind with (_ | name) | _ | _ | _
        · simp [goes, seen, hkind]
        · simp [goes, seen, hkind]
        · exact absurd (.inl hkind) halong
        · exact absurd (.inr hkind) halong
        · simp [goes, seen, hkind]
      rw [hgoes]
      constructor
      · rintro ⟨name, hkind, hunused, hkept⟩
        exact ⟨0, name, entryAt_zero.mpr hkind, hunused, hkept, fun _ hmem => absurd hmem List.not_mem_nil⟩
      · rintro ⟨steps, name, hentry, hunused, hkept, hbetween⟩
        cases steps with
        | zero => exact ⟨name, entryAt_zero.mp hentry, hunused, hkept⟩
        | succ steps => exact absurd (List.forall_mem_cons.mp hbetween).1 halong

theorem inOrder_acted (flag kept : Bool) (siblings : List Sibling) :
    InOrder (fun place name => EntryAt siblings place name ∧ name ∈ unused ∧
      (siblings.take place).foldl (keptAfter (seen text)) kept = flag)
      (acted (seen text) unused flag kept siblings) := by
  induction siblings generalizing kept with
  | nil => exact .nil fun place name h => by simp [EntryAt] at h
  | cons sibling rest ih =>
    refine .cons (fun name => ?_) (ih _)
    rw [entryAt_zero, Option.filter_eq_some_iff, named?_seen_iff]
    simp

theorem inOrder_marks (kept : Bool) (siblings : List Sibling) :
    InOrder (fun place sibling => siblings[place]? = some sibling ∧
      goes (seen text) unused ((siblings.take place).foldl (keptAfter (seen text)) kept) (siblings.drop place) = true)
      (((marks (seen text) unused kept siblings).filter Prod.snd).map Prod.fst) := by
  induction siblings generalizing kept with
  | nil => exact .nil fun place sibling h => by simp at h
  | cons sibling rest ih =>
    have hfirst : ((marks (seen text) unused kept (sibling :: rest)).filter Prod.snd).map Prod.fst =
        (if goes (seen text) unused kept (sibling :: rest) then some sibling else none).toList ++
          ((marks (seen text) unused (keptAfter (seen text) kept sibling) rest).filter Prod.snd).map Prod.fst := by
      have hsome : (seen text sibling).isSome = true := rfl
      rw [marks, hsome, Bool.true_and]
      cases goes (seen text) unused kept (sibling :: rest) <;> rfl
    rw [hfirst]
    refine .cons (fun other => ?_) (ih _)
    simp only [List.getElem?_cons_zero, List.take_zero, List.foldl_nil, List.drop_zero, Option.some.injEq]
    split <;> simp [*]

/-- What is decided by place, when siblings are heard right. -/
structure Placed (text : List Char) (siblings : List Sibling) (unused : List String) (decisions : Decisions) :
    Prop where
  removed : InOrder (RemovedAt text siblings unused) decisions.removed
  preserved : InOrder (PreservedAt text siblings unused) decisions.preserved
  deleted : InOrder (fun place span => DeletedAt text siblings unused place ∧
    (siblings[place]?).map Sibling.span = some span)
    ((decisions.marked.reverse.filter Prod.snd).map fun mark => mark.1.span)

theorem placed_on {siblings : List Sibling}
    (h : ∀ sibling ∈ siblings, isKeepComment text sibling = true ↔ Keeps text sibling) (unused : List String) :
    Placed text siblings unused (Decisions.on text unused siblings) := by
  have hkept : ∀ place, (siblings.take place).foldl (keptAfter (seen text)) false = true ↔
      KeptAt text siblings place := by
    intro place
    rw [foldl_keptAfter_iff]
    constructor
    · rintro (⟨front, comment, between, hsplit, hkeeps, hbetween⟩ | ⟨hfalse, -⟩)
      · have hmem : comment ∈ siblings.take place := by simp [hsplit]
        exact ⟨front, comment, between, hsplit, (h comment (List.mem_of_mem_take hmem)).mp hkeeps, hbetween⟩
      · cases hfalse
    · rintro ⟨front, comment, between, hsplit, hkeeps, hbetween⟩
      have hmem : comment ∈ siblings.take place := by simp [hsplit]
      exact .inl ⟨front, comment, between, hsplit, (h comment (List.mem_of_mem_take hmem)).mpr hkeeps, hbetween⟩
  have hnot : ∀ place, (siblings.take place).foldl (keptAfter (seen text)) false = false ↔
      ¬ KeptAt text siblings place := by
    intro place
    rw [← hkept, Bool.not_eq_true]
  refine ⟨?_, ?_, ?_⟩
  · rw [removed_on]
    exact (inOrder_acted false false siblings).congr fun place name => by rw [hnot, RemovedAt]
  · rw [preserved_on]
    exact (inOrder_acted true false siblings).congr fun place name => by rw [hkept, PreservedAt]
  · have hgoes : ∀ place, goes (seen text) unused ((siblings.take place).foldl (keptAfter (seen text)) false)
        (siblings.drop place) = true ↔ DeletedAt text siblings unused place := by
      intro place
      rw [goes_seen_iff, DeletedAt]
      -- what is kept from the place on is kept from the start
      simp only [RemovedAt, ← hnot, List.take_add, List.foldl_append, EntryAt, List.getElem?_drop, and_assoc]
    have hspans := (@inOrder_marks text unused false siblings).map Sibling.span
    rw [List.map_map] at hspans
    rw [marked_on]
    refine hspans.congr fun place span => ?_
    simp only [hgoes, Option.map_eq_some_iff]
    constructor
    · rintro ⟨sibling, ⟨hsibling, hdeleted⟩, hspan⟩
      exact ⟨hdeleted, sibling, hsibling, hspan⟩
    · rintro ⟨hdeleted, sibling, hsibling, hspan⟩
      exact ⟨sibling, ⟨hsibling, hdeleted⟩, hspan⟩

end Decisions

/-! ## The text -/

/-- Spans are cut out of a text that starts at an offset. Each holds whole characters, and starts where the one before
it stops or later. -/
inductive Spliced : Nat → List Span → List Char → List Char → Prop where
  | nil (offset : Nat) (text : List Char) : Spliced offset [] text text
  | cut {offset : Nat} {span : Span} {spans : List Span} {gap inside rest left : List Char}
      (hstart : offset + byteLength gap = span.start) (hstop : span.start + byteLength inside = span.stop)
      (h : Spliced span.stop spans rest left) :
      Spliced offset (span :: spans) (gap ++ (inside ++ rest)) (gap ++ left)

theorem Spliced.behind {offset : Nat} {spans : List Span} {front text left : List Char}
    (h : Spliced (offset + byteLength front) spans text left) :
    Spliced offset spans (front ++ text) (front ++ left) := by
  generalize hplace : offset + byteLength front = place at h
  cases h with
  | nil => exact .nil _ _
  | cut hstart hstop h =>
    rw [← List.append_assoc front, ← List.append_assoc front]
    refine .cut ?_ hstop h
    rw [byteLength_append]
    omega

theorem spliced_labels {offset : Nat} {groups : List Group} {labels : List Label}
    (hplaced : labels.map Prod.fst = spread offset groups) (back : List Char) :
    Spliced offset ((labels.filter Prod.snd).map fun label => label.1.2)
      (textOf (groups.flatMap Group.nodes) ++ back) (textOf (keptNodes labels) ++ back) := by
  induction groups generalizing offset labels with
  | nil =>
    obtain rfl := List.map_eq_nil_iff.mp hplaced
    exact .nil _ _
  | cons group rest ih =>
    obtain ⟨label, others, rfl⟩ : ∃ label others, labels = label :: others := by
      cases labels with
      | nil => cases hplaced
      | cons label others => exact ⟨label, others, rfl⟩
    obtain ⟨hlabel, hothers⟩ := List.cons.inj hplaced
    obtain ⟨item, removed⟩ := label
    obtain rfl := hlabel
    rw [List.flatMap_cons, textOf_append, List.append_assoc]
    cases removed with
    | true =>
      have hcut : Spliced offset (⟨offset, offset + byteLength (textOf group.nodes)⟩ :: _)
          ([] ++ (textOf group.nodes ++ _)) ([] ++ _) := .cut rfl rfl (ih hothers)
      exact hcut
    | false =>
      -- a group that stays is part of the gap before the next cut
      have hkept : keptNodes (((group, ⟨offset, offset + byteLength (textOf group.nodes)⟩), false) :: others) =
          group.nodes ++ keptNodes others := rfl
      rw [hkept, textOf_append, List.append_assoc]
      exact (ih hothers).behind

theorem spans_labels {labels : List Label} (hkinds : ∀ label ∈ labels, label.2 = true → label.1.1.kind ≠ none) :
    (labels.filter Prod.snd).map (fun label => label.1.2) =
      ((labels.filterMap markOf).filter Prod.snd).map fun mark => mark.1.span := by
  induction labels with
  | nil => rfl
  | cons label labels ih =>
    have hrest := ih fun other hmem => hkinds other (List.mem_cons_of_mem label hmem)
    obtain ⟨placed, removed⟩ := label
    rcases hkind : placed.1.kind with _ | kind
    · have hstays : removed = false := by
        by_contra hgone
        exact hkinds _ List.mem_cons_self (by simpa using hgone) hkind
      have hmark : markOf (placed, removed) = none := by
        rw [markOf, siblingOf, hkind]
        rfl
      rw [List.filterMap_cons_none hmark, ← hrest, hstays]
      rfl
    · have hmark : markOf (placed, removed) = some (⟨kind, placed.2⟩, removed) := by
        rw [markOf, siblingOf, hkind]
        rfl
      rw [List.filterMap_cons_some hmark]
      cases removed with
      | true => exact congrArg (placed.2 :: ·) hrest
      | false => exact hrest

/-! ## The main result -/

theorem nodes_of_comment {group : Group} (h : group.kind = some .comment) :
    ∃ content isLeaf, group.nodes = [.leaf (.comment content) isLeaf] := by
  obtain ⟨kind, nodes, shape⟩ := group
  obtain rfl : kind = some .comment := h
  cases shape with
  | comment content isLeaf => exact ⟨content, isLeaf, rfl⟩

theorem Frame.isKeepComment_iff {frame : Frame} {groups : List Group} {text : List Char}
    (hread : read? text = some (frame.row (groups.flatMap Group.nodes)))
    (hwritten : (frame.row (groups.flatMap Group.nodes)).flatMap Token.written = text) :
    ∀ sibling ∈ (spread (byteLength frame.lead) groups).filterMap siblingOf,
      isKeepComment text sibling = true ↔ Keeps text sibling := by
  intro sibling hsibling
  constructor
  · intro hkeeps
    obtain ⟨placed, hplaced, hsame⟩ := List.mem_filterMap.mp hsibling
    obtain ⟨kind, hkind, rfl⟩ := Option.map_eq_some_iff.mp hsame
    have hcomment : kind = .comment := by simpa using (Bool.and_eq_true_iff.mp hkeeps).1
    subst hcomment
    obtain ⟨content, isLeaf, hnodes⟩ := nodes_of_comment hkind
    have hlocated := Frame.mem_locate_of_comment hplaced hnodes
    refine ⟨rfl, _, content, hread, hlocated, ?_⟩
    rwa [← hwritten, isKeepComment_eq hlocated] at hkeeps
  · rintro ⟨hkind, row, content, hrow, hlocated, hsays⟩
    obtain rfl := Option.some.inj (hread.symm.trans hrow)
    obtain ⟨kind, span⟩ := sibling
    obtain rfl := hkind
    rw [← hwritten, isKeepComment_eq hlocated]
    exact hsays

/-- An edit decides on every entry by the comments between it and the element before it. It removes the unused ones
that no comment keeps, and names both these and the kept ones in order. It cuts out exactly the entries that are
removed, each with the comments and the text directly before it. -/
theorem edit_is_local {text : String} {siblings : List Sibling}
    (hsiblings : siblings? text.toList = some (some siblings)) (hmark : text.toList.head? ≠ some byteOrderMark)
    (unused : List String) :
    ∃ edit notes spans left, removeDependencies text unused = .ok (edit, notes) ∧
      InOrder (RemovedAt text.toList siblings unused) edit.removed ∧
      InOrder (PreservedAt text.toList siblings unused) edit.preserved ∧
      InOrder (fun place span => DeletedAt text.toList siblings unused place ∧
        (siblings[place]?).map Sibling.span = some span) spans ∧
      Spliced 0 spans text.toList left ∧ edit.text.toList = Text.unifyLineEnds left := by
  rcases exists_frame hsiblings with rfl | ⟨frame, children, hread, hnames⟩
  · -- the dependencies are an empty tag, and nothing is cut
    have hplaced : Placed text.toList [] unused (Decisions.on text.toList unused []) :=
      placed_on (fun _ hmem => absurd hmem List.not_mem_nil) unused
    have hall : cutOut [] text.toList = text.toList := selectFrom_uniform fun _ _ _ => rfl
    refine ⟨_, _, [], text.toList, removeDependencies_of_unmarked hsiblings hmark unused, hplaced.removed,
      hplaced.preserved, hplaced.deleted, .nil _ _, ?_⟩
    rw [Decisions.edit, String.toList_ofList]
    exact congrArg Text.unifyLineEnds hall
  · obtain ⟨groups, rfl, hfound⟩ := frame.siblings?_eq hread hnames
    obtain rfl := Option.some.inj (Option.some.inj (hsiblings.symm.trans hfound))
    have hwritten := written_of_read? hread hmark
    have hplaced := placed_on (Frame.isKeepComment_iff hread hwritten) unused
    obtain ⟨labels, hedited⟩ := frame.exists_labels groups text.toList unused
    refine ⟨_, _, _, (frame.row (keptNodes labels)).flatMap Token.written,
      removeDependencies_of_unmarked hsiblings hmark unused, hplaced.removed, hplaced.preserved, hplaced.deleted, ?_,
      ?_⟩
    · rw [← hedited.marks, ← spans_labels hedited.kinds, ← hwritten, Frame.written_row, Frame.written_row]
      refine Spliced.behind ?_
      rw [Nat.zero_add]
      exact spliced_labels hedited.placed _
    · rw [Decisions.edit, String.toList_ofList, hedited.cutOut_eq hwritten]

/-- Comments keep the entries for `a`, in front of an instruction, and for `b`. Nothing keeps the one for `c`. -/
def hallRow : List Token :=
  [.openTag "module name=\"hall\"".toList, .openTag "dependencies".toList, .comment "keep".toList,
    .instruction "mark".toList, .emptyTag "module name=\"a\"".toList, .comment " KEEP ".toList, .text [' '],
    .emptyTag "module name=\"b\"".toList, .text ['\r', '\n'], .comment "why".toList,
    .emptyTag "module name=\"c\"".toList, .closeTag "dependencies".toList, .closeTag "module".toList]

def hall : String := String.ofList (hallRow.flatMap Token.written)

def hallSiblings : List Sibling :=
  [⟨.comment, ⟨34, 45⟩⟩, ⟨.other, ⟨45, 53⟩⟩, ⟨.element (some "a"), ⟨53, 71⟩⟩, ⟨.comment, ⟨71, 84⟩⟩, ⟨.text, ⟨84, 85⟩⟩,
    ⟨.element (some "b"), ⟨85, 103⟩⟩, ⟨.text, ⟨103, 105⟩⟩, ⟨.comment, ⟨105, 115⟩⟩, ⟨.element (some "c"), ⟨115, 133⟩⟩]

theorem edit_is_local_hall : siblings? hall.toList = some (some hallSiblings) ∧
    ∃ edit notes spans left, removeDependencies hall ["a", "b", "c"] = .ok (edit, notes) ∧
      InOrder (RemovedAt hall.toList hallSiblings ["a", "b", "c"]) edit.removed ∧
      InOrder (PreservedAt hall.toList hallSiblings ["a", "b", "c"]) edit.preserved ∧
      InOrder (fun place span => DeletedAt hall.toList hallSiblings ["a", "b", "c"] place ∧
        (hallSiblings[place]?).map Sibling.span = some span) spans ∧
      Spliced 0 spans hall.toList left ∧ edit.text.toList = Text.unifyLineEnds left := by
  have hchars : hall.toList = hallRow.flatMap Token.written := String.toList_ofList
  have hsiblings : siblings? hall.toList = some (some hallSiblings) := by
    rw [hchars]
    decide +kernel
  have hmark : hall.toList.head? ≠ some byteOrderMark := by
    rw [hchars]
    decide +kernel
  exact ⟨hsiblings, edit_is_local hsiblings hmark ["a", "b", "c"]⟩

def keptRow : List Token :=
  [.openTag "module name=\"m\"".toList, .openTag "dependencies".toList, .comment "keep".toList,
    .emptyTag "module name=\"a\"".toList, .closeTag "dependencies".toList, .closeTag "module".toList]

/-- Spans do not count the mark that a text may start with. In such a text a comment that says `keep` is not heard, and
its entry is removed. -/
theorem kept_entry_removed_after_mark : ∃ (text : String) (siblings : List Sibling),
    siblings? text.toList = some (some siblings) ∧ EntryAt siblings 1 "a" ∧ KeptAt text.toList siblings 1 ∧
      ∃ edit notes, removeDependencies text ["a"] = .ok (edit, notes) ∧ edit.removed = ["a"] ∧
        edit.preserved = [] := by
  have hchars : (String.ofList (byteOrderMark :: keptRow.flatMap Token.written)).toList =
      byteOrderMark :: keptRow.flatMap Token.written := String.toList_ofList
  have hsiblings : siblings? (byteOrderMark :: keptRow.flatMap Token.written) =
      some (some [⟨.comment, ⟨31, 42⟩⟩, ⟨.element (some "a"), ⟨42, 60⟩⟩]) := by decide +kernel
  have hread : read? (byteOrderMark :: keptRow.flatMap Token.written) = some keptRow := by decide +kernel
  refine ⟨String.ofList (byteOrderMark :: keptRow.flatMap Token.written), _, hchars ▸ hsiblings, ⟨_, rfl⟩, ?_, ?_⟩
  · rw [hchars]
    refine ⟨[], ⟨.comment, ⟨31, 42⟩⟩, [], rfl, ⟨rfl, keptRow, "keep".toList, hread, ?_, by decide⟩, ?_⟩
    · decide +kernel
    · exact fun _ hmem => absurd hmem List.not_mem_nil
  · refine ⟨_, _, removeDependencies_eq (hchars ▸ hsiblings) ["a"], ?_, ?_⟩
    · rw [hchars]
      decide +kernel
    · rw [hchars]
      decide +kernel

end ModuleAudit.Prune
