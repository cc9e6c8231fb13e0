import Mathlib.Data.List.Basic
import ModuleAudit.Prune.Edit

/-! What becomes of each child of the dependencies, read off from its neighbours. A child goes if it is an unused entry
that no comment keeps, or text or a comment with such an entry next to it among what follows. The decisions, which
look back over what is gone already, mark exactly these (`marked_on`). Since a mark depends on neighbours that stay or
go together, marking for two lists one after the other is marking for both (`stays_stays`). -/

namespace ModuleAudit.Prune
set_option autoImplicit false

open Markup

/-- What the decisions see of a child. -/
structure Child where
  kind : SiblingKind
  /-- Whether it is a comment that says `keep`. -/
  keeps : Bool

def seen (text : List Char) (sibling : Sibling) : Option Child := some ⟨sibling.kind, isKeepComment text sibling⟩

/-- The third list holds the elements of the other two, each in order. -/
inductive Interleaved {α : Type} : List α → List α → List α → Prop where
  | nil : Interleaved [] [] []
  | left {a : α} {first second both : List α} (h : Interleaved first second both) :
    Interleaved (a :: first) second (a :: both)
  | right {a : α} {first second both : List α} (h : Interleaved first second both) :
    Interleaved first (a :: second) (a :: both)

section Marks

-- items are siblings, or the nodes that they stand for; an item without a view is passed over
variable {α : Type} (view : α → Option Child) (unused : List String)

/-- Whether a comment keeps an entry that follows an item, when `kept` says so of one in its place. -/
def keptAfter (kept : Bool) (item : α) : Bool :=
  match view item with
  | none => kept
  | some child =>
    match child.kind with
    | .element _ => false
    | _ => kept || child.keeps

/-- Whether the first of some items goes. -/
def goes (kept : Bool) : List α → Bool
  | [] => false
  | item :: rest =>
    match view item with
    | none => goes kept rest
    | some child =>
      match child.kind with
      | .element (some name) => decide (name ∈ unused) && !kept
      | .element none | .other => false
      | .comment | .text => goes (kept || child.keeps) rest

def marks (kept : Bool) : List α → List (α × Bool)
  | [] => []
  | item :: rest =>
    (item, (view item).isSome && goes view unused kept (item :: rest)) :: marks (keptAfter view kept item) rest

def stays (kept : Bool) (items : List α) : List α :=
  ((marks view unused kept items).filter fun mark => !mark.2).map Prod.fst

def named? (item : α) : Option String :=
  match view item with
  | some ⟨.element module, _⟩ => module
  | _ => none

/-- The unused entries that are kept, or those that are not. -/
def acted (flag kept : Bool) : List α → List String
  | [] => []
  | item :: rest =>
    ((named? view item).filter fun name => decide (name ∈ unused) && kept == flag).toList ++
      acted flag (keptAfter view kept item) rest

/-! ## One item -/

variable {view unused}

theorem view_of_named? {item : α} {name : String} (h : named? view item = some name) :
    ∃ keeps, view item = some ⟨.element (some name), keeps⟩ := by
  unfold named? at h
  split at h
  · rename_i keeps hview
    exact ⟨keeps, h ▸ hview⟩
  · cases h

theorem keptAfter_of_named? {item : α} {name : String} (h : named? view item = some name) (kept : Bool) :
    keptAfter view kept item = false := by
  obtain ⟨keeps, hview⟩ := view_of_named? h
  simp only [keptAfter, hview]

theorem goes_of_named? {item : α} {name : String} (h : named? view item = some name) (kept : Bool) (rest : List α) :
    goes view unused kept (item :: rest) = (decide (name ∈ unused) && !kept) := by
  obtain ⟨keeps, hview⟩ := view_of_named? h
  simp only [goes, hview]

inductive Role (view : α → Option Child) (item : α) : Prop where
  | entry (name : String) (hnamed : named? view item = some name)
  /-- It goes with the item after it. -/
  | along (hnamed : named? view item = none) (hafter : ∀ kept, keptAfter view kept item = false → kept = false)
      (hgoes : ∀ unused kept rest,
        goes view unused kept (item :: rest) = goes view unused (keptAfter view kept item) rest)
  | stop (hnamed : named? view item = none)
      (hgoes : ∀ unused kept rest, goes view unused kept (item :: rest) = false)

theorem role (view : α → Option Child) (item : α) : Role view item := by
  have hor : ∀ kept keeps : Bool, (kept || keeps) = false → kept = false := by decide
  rcases hview : view item with _ | ⟨(_ | name) | _ | _ | _, keeps⟩
  · exact .along (by simp [named?, hview]) (by simp [keptAfter, hview]) (by simp [goes, keptAfter, hview])
  · exact .stop (by simp [named?, hview]) (by simp [goes, hview])
  · exact .entry name (by simp [named?, hview])
  · refine .along (by simp [named?, hview]) (fun kept hafter => hor kept keeps ?_) (by simp [goes, keptAfter, hview])
    simpa only [keptAfter, hview] using hafter
  · refine .along (by simp [named?, hview]) (fun kept hafter => hor kept keeps ?_) (by simp [goes, keptAfter, hview])
    simpa only [keptAfter, hview] using hafter
  · exact .stop (by simp [named?, hview]) (by simp [goes, hview])

/-- Nothing goes where a comment keeps the next entry. -/
theorem kept_of_goes {kept : Bool} {items : List α} (h : goes view unused kept items = true) : kept = false := by
  induction items generalizing kept with
  | nil => cases h
  | cons item rest ih =>
    cases role view item with
    | entry name hnamed =>
      rw [goes_of_named? hnamed, Bool.and_eq_true, Bool.not_eq_true'] at h
      exact h.2
    | along hnamed hafter hgoes =>
      rw [hgoes] at h
      exact hafter kept (ih h)
    | stop hnamed hgoes =>
      rw [hgoes] at h
      cases h

theorem keptAfter_of_goes {kept : Bool} {item : α} {rest : List α} (h : goes view unused kept (item :: rest) = true) :
    keptAfter view kept item = false := by
  cases role view item with
  | entry name hnamed => exact keptAfter_of_named? hnamed kept
  | along hnamed hafter hgoes =>
    rw [hgoes] at h
    exact kept_of_goes h
  | stop hnamed hgoes =>
    rw [hgoes] at h
    cases h

theorem stays_cons (kept : Bool) (item : α) (rest : List α) : stays view unused kept (item :: rest) =
    if (view item).isSome && goes view unused kept (item :: rest) then stays view unused (keptAfter view kept item) rest
    else item :: stays view unused (keptAfter view kept item) rest := by
  rw [stays, marks]
  cases (view item).isSome && goes view unused kept (item :: rest) <;> rfl

/-! ## Two lists of unused modules -/

section Both

variable {first second : List String}

theorem goes_append_of_goes {kept : Bool} {items : List α} (h : goes view first kept items = true) :
    goes view (first ++ second) kept items = true := by
  induction items generalizing kept with
  | nil => cases h
  | cons item rest ih =>
    cases role view item with
    | entry name hnamed =>
      rw [goes_of_named? hnamed, Bool.and_eq_true, decide_eq_true_eq] at h ⊢
      exact ⟨List.mem_append_left second h.1, h.2⟩
    | along hnamed hafter hgoes =>
      rw [hgoes] at h ⊢
      exact ih h
    | stop hnamed hgoes =>
      rw [hgoes] at h
      cases h

/-- What stays for the first list goes for both if it goes for the second, when the rest has gone for the first. -/
theorem goes_stays {kept : Bool} {items : List α} (h : goes view first kept items = false) :
    goes view second kept (stays view first kept items) = goes view (first ++ second) kept items := by
  induction items generalizing kept with
  | nil => rfl
  | cons item rest ih =>
    rw [stays_cons, h, Bool.and_false, if_neg Bool.false_ne_true]
    cases role view item with
    | entry name hnamed =>
      rw [goes_of_named? hnamed] at h
      rw [goes_of_named? hnamed, goes_of_named? hnamed]
      -- an entry that is kept stays for either list, and another one is not on the first
      cases kept with
      | true => rw [Bool.not_true, Bool.and_false, Bool.and_false]
      | false =>
        rw [Bool.not_false, Bool.and_true, decide_eq_false_iff_not] at h
        simp [h]
    | along hnamed hafter hgoes =>
      rw [hgoes] at h ⊢
      rw [hgoes]
      exact ih h
    | stop hnamed hgoes => rw [hgoes, hgoes]

/-- Removing for one list and then for another is removing for both. -/
theorem stays_stays (kept : Bool) (items : List α) :
    stays view second kept (stays view first kept items) = stays view (first ++ second) kept items := by
  induction items generalizing kept with
  | nil => rfl
  | cons item rest ih =>
    rcases hview : (view item).isSome with _ | _
    · simp only [stays_cons, hview, Bool.false_and, Bool.false_eq_true, if_false, ih]
    · rcases hgoes : goes view first kept (item :: rest) with _ | _
      · have hboth : goes view second kept (stays view first kept (item :: rest)) =
            goes view (first ++ second) kept (item :: rest) := goes_stays hgoes
        have hstays : stays view first kept (item :: rest) =
            item :: stays view first (keptAfter view kept item) rest := by
          rw [stays_cons, hgoes, Bool.and_false, if_neg Bool.false_ne_true]
        rw [hstays] at hboth ⊢
        rw [stays_cons, hboth, stays_cons, ih]
      · -- what goes leaves the next item where it stood itself
        have hplace : keptAfter view kept item = kept := (keptAfter_of_goes hgoes).trans (kept_of_goes hgoes).symm
        rw [stays_cons, hview, hgoes, stays_cons, hview, goes_append_of_goes hgoes, hplace]
        exact ih kept

theorem acted_cons_of_none {item : α} (h : named? view item = none) (flag kept : Bool) (rest : List α) :
    acted view unused flag kept (item :: rest) = acted view unused flag (keptAfter view kept item) rest := by
  rw [acted, h]
  rfl

theorem acted_cons_of_named? {item : α} {name : String} (h : named? view item = some name) (kept : Bool)
    (rest : List α) : acted view unused false kept (item :: rest) =
      (if name ∈ unused ∧ kept = false then [name] else []) ++ acted view unused false false rest := by
  rw [acted, h, keptAfter_of_named? h, Option.filter_some]
  by_cases hmem : name ∈ unused <;> cases kept <;> simp [hmem]

/-- An item that is no entry leaves the entries after it as they are, whether it stays or goes. -/
theorem acted_stays_of_none {item : α} (h : named? view item = none) (flag kept : Bool) (rest : List α) :
    acted view second flag kept (stays view first kept (item :: rest)) =
      acted view second flag (keptAfter view kept item) (stays view first (keptAfter view kept item) rest) := by
  rw [stays_cons]
  split
  · rename_i hgone
    obtain ⟨-, hgoes⟩ := Bool.and_eq_true_iff.mp hgone
    rw [keptAfter_of_goes hgoes, kept_of_goes hgoes]
  · exact acted_cons_of_none h flag kept _

/-- An entry is gone for the first list, or it is there for the second one. -/
theorem acted_stays_of_named? {item : α} {name : String} (h : named? view item = some name) (kept : Bool)
    (rest : List α) : acted view second false kept (stays view first kept (item :: rest)) =
      (if name ∉ first ∧ name ∈ second ∧ kept = false then [name] else []) ++
        acted view second false false (stays view first false rest) := by
  obtain ⟨keeps, hview⟩ := view_of_named? h
  rw [stays_cons, hview, goes_of_named? h, keptAfter_of_named? h, Option.isSome_some, Bool.true_and]
  cases kept with
  | true => simp [acted_cons_of_named? h]
  | false => by_cases hfirst : name ∈ first <;> simp [acted_cons_of_named? h, hfirst]

/-- The entries that go for both lists are those that go for the first, and those of the rest that go for the second. -/
theorem interleaved_acted (kept : Bool) (items : List α) :
    Interleaved (acted view first false kept items) (acted view second false kept (stays view first kept items))
      (acted view (first ++ second) false kept items) := by
  induction items generalizing kept with
  | nil => exact .nil
  | cons item rest ih =>
    rcases hnamed : named? view item with _ | name
    · rw [acted_stays_of_none hnamed, acted_cons_of_none hnamed, acted_cons_of_none hnamed]
      exact ih _
    · rw [acted_stays_of_named? hnamed, acted_cons_of_named? hnamed, acted_cons_of_named? hnamed]
      have hrest := ih false
      cases kept with
      | true => simpa using hrest
      | false =>
        by_cases hfirst : name ∈ first
        · simpa [hfirst] using hrest.left
        · by_cases hsecond : name ∈ second
          · simpa [hfirst, hsecond] using hrest.right
          · simpa [hfirst, hsecond] using hrest

theorem acted_stays_self (kept : Bool) (items : List α) :
    acted view unused false kept (stays view unused kept items) = [] := by
  induction items generalizing kept with
  | nil => rfl
  | cons item rest ih =>
    rcases hnamed : named? view item with _ | name
    · rw [acted_stays_of_none hnamed, ih]
    · rw [acted_stays_of_named? hnamed, ih, if_neg fun hboth => hboth.1 hboth.2.1]
      rfl

theorem goes_congr (h : ∀ name, name ∈ first ↔ name ∈ second) (kept : Bool) (items : List α) :
    goes view first kept items = goes view second kept items := by
  induction items generalizing kept with
  | nil => rfl
  | cons item rest ih =>
    cases role view item with
    | entry name hnamed => simp only [goes_of_named? hnamed, h name]
    | along hnamed hafter hgoes => rw [hgoes, hgoes, ih]
    | stop hnamed hgoes => rw [hgoes, hgoes]

theorem stays_congr (h : ∀ name, name ∈ first ↔ name ∈ second) (kept : Bool) (items : List α) :
    stays view first kept items = stays view second kept items := by
  induction items generalizing kept with
  | nil => rfl
  | cons item rest ih => rw [stays_cons, stays_cons, goes_congr h, ih]

theorem stays_self (kept : Bool) (items : List α) :
    stays view unused kept (stays view unused kept items) = stays view unused kept items :=
  (stays_stays kept items).trans (stays_congr (fun name => by rw [List.mem_append, or_self]) kept items)

end Both

end Marks

/-! ## The decisions -/

section Decisions

variable {text : List Char} {unused : List String}

theorem isPreserved_stay (sibling : Sibling) (before : List Marked) :
    isPreserved text ((sibling, false) :: before) = keptAfter (seen text) (isPreserved text before) sibling := by
  rcases hkind : sibling.kind with _ | _ | _ | _ <;>
    simp [isPreserved, keptAfter, seen, Sibling.isElement, hkind, Bool.or_comm]

theorem isPreserved_gone (sibling : Sibling) (before : List Marked) :
    isPreserved text ((sibling, true) :: before) = isPreserved text before := rfl

/-- What goes along with an entry keeps nothing. -/
theorem isPreserved_markBack {before : List Marked} (h : isPreserved text before = false) :
    isPreserved text (markBack before) = false := by
  have halong : ∀ {sibling : Sibling} {earlier : List Marked}, (sibling.kind = .comment ∨ sibling.kind = .text) →
      isPreserved text ((sibling, false) :: earlier) = false → isPreserved text earlier = false := by
    intro sibling earlier hkind hnone
    rw [isPreserved_stay] at hnone
    rcases hkind with hkind | hkind
    · simp only [keptAfter, seen, hkind, Bool.or_eq_false_iff] at hnone
      exact hnone.1
    · simp only [keptAfter, seen, hkind, Bool.or_eq_false_iff] at hnone
      exact hnone.1
  fun_induction markBack before with
  | case1 => exact h
  | case2 sibling before ih => exact ih h
  | case3 sibling before hkind ih => exact ih (halong (.inl hkind) h)
  | case4 sibling before hkind ih => exact ih (halong (.inr hkind) h)
  | case5 => exact h
  | case6 => exact h

theorem markBack_markBack (before : List Marked) : markBack (markBack before) = markBack before := by
  fun_induction markBack before with
  | case1 => rfl
  | case2 sibling before ih => rw [markBack, ih]
  | case3 sibling before hkind ih => rw [markBack, ih]
  | case4 sibling before hkind ih => rw [markBack, ih]
  | case5 sibling before module hkind => simp only [markBack, hkind]
  | case6 sibling before hkind => simp only [markBack, hkind]

/-- What siblings decide after other decisions, looking forward only. -/
structure Foreseen (text : List Char) (unused : List String) (before after : Decisions) (siblings : List Sibling) :
    Prop where
  marked : after.marked.reverse =
    (if goes (seen text) unused (isPreserved text before.marked) siblings then markBack before.marked
      else before.marked).reverse ++ marks (seen text) unused (isPreserved text before.marked) siblings
  removed : after.removed =
    before.removed ++ acted (seen text) unused false (isPreserved text before.marked) siblings
  preserved : after.preserved =
    before.preserved ++ acted (seen text) unused true (isPreserved text before.marked) siblings

theorem Foreseen.remove {before step after : Decisions} {sibling : Sibling} {rest : List Sibling} {name : String}
    (hnamed : named? (seen text) sibling = some name) (hunused : name ∈ unused)
    (hkept : isPreserved text before.marked = false)
    (hmarked : step.marked = (sibling, true) :: markBack before.marked)
    (hremoved : step.removed = before.removed ++ [name]) (hpreserved : step.preserved = before.preserved)
    (h : Foreseen text unused step after rest) : Foreseen text unused before after (sibling :: rest) := by
  have hnone : isPreserved text step.marked = false := by
    rw [hmarked, isPreserved_gone]
    exact isPreserved_markBack hkept
  have hgoes : goes (seen text) unused false (sibling :: rest) = true := by
    rw [goes_of_named? hnamed]
    simp [hunused]
  obtain ⟨hmarks, hgone, hstayed⟩ := h
  rw [hnone] at hmarks hgone hstayed
  constructor
  · rw [hmarks, hkept, hgoes, marks, hgoes, keptAfter_of_named? hnamed, hmarked, markBack, markBack_markBack, ite_self,
      if_pos rfl, List.reverse_cons, List.append_assoc]
    rfl
  · rw [hgone, hkept, acted_cons_of_named? hnamed, if_pos ⟨hunused, rfl⟩, hremoved, List.append_assoc]
  · rw [hstayed, hkept, acted, hnamed, keptAfter_of_named? hnamed, hpreserved, Option.filter_some]
    simp

/-- A sibling that stays for now goes later with what follows it, or never. -/
theorem markBack_stay (sibling : Sibling) (before : List Marked) (rest : List Sibling)
    (hkept : ∀ name, named? (seen text) sibling = some name → name ∈ unused → isPreserved text before = true) :
    (markBack ((sibling, false) :: before) = (sibling, true) :: markBack before ∧
        goes (seen text) unused (isPreserved text before) (sibling :: rest) =
          goes (seen text) unused (isPreserved text ((sibling, false) :: before)) rest) ∨
      (markBack ((sibling, false) :: before) = (sibling, false) :: before ∧
        goes (seen text) unused (isPreserved text before) (sibling :: rest) = false) := by
  rw [isPreserved_stay]
  rcases hkind : sibling.kind with (_ | name) | _ | _ | _
  · exact .inr ⟨by simp only [markBack, hkind], by simp only [goes, seen, hkind]⟩
  · refine .inr ⟨by simp only [markBack, hkind], ?_⟩
    have hnamed : named? (seen text) sibling = some name := by simp only [named?, seen, hkind]
    rw [goes_of_named? hnamed]
    by_cases hunused : name ∈ unused
    · rw [hkept name hnamed hunused, Bool.not_true, Bool.and_false]
    · rw [decide_eq_false hunused, Bool.false_and]
  · exact .inl ⟨by simp only [markBack, hkind], by simp only [goes, keptAfter, seen, hkind]⟩
  · exact .inl ⟨by simp only [markBack, hkind], by simp only [goes, keptAfter, seen, hkind]⟩
  · exact .inr ⟨by simp only [markBack, hkind], by simp only [goes, seen, hkind]⟩

theorem Foreseen.stay {before step after : Decisions} {sibling : Sibling} {rest : List Sibling}
    (hkept : ∀ name, named? (seen text) sibling = some name → name ∈ unused → isPreserved text before.marked = true)
    (hmarked : step.marked = (sibling, false) :: before.marked) (hremoved : step.removed = before.removed)
    (hpreserved : step.preserved = before.preserved ++
      ((named? (seen text) sibling).filter fun name => decide (name ∈ unused)).toList)
    (h : Foreseen text unused step after rest) : Foreseen text unused before after (sibling :: rest) := by
  have hnames : ∀ flag, (named? (seen text) sibling).filter
      (fun name => decide (name ∈ unused) && isPreserved text before.marked == flag) =
        if flag then (named? (seen text) sibling).filter fun name => decide (name ∈ unused) else none := by
    intro flag
    rcases hnamed : named? (seen text) sibling with _ | name
    · cases flag <;> rfl
    · rw [Option.filter_some, Option.filter_some]
      by_cases hunused : name ∈ unused
      · rw [hkept name hnamed hunused]
        cases flag <;> simp [hunused]
      · cases flag <;> simp [hunused]
  obtain ⟨hmarks, hgone, hstayed⟩ := h
  rw [hmarked] at hmarks hgone hstayed
  constructor
  · have hsome : (seen text sibling).isSome = true := rfl
    rw [hmarks, marks, hsome, Bool.true_and, isPreserved_stay]
    rcases markBack_stay sibling before.marked rest hkept with ⟨hback, hgoes⟩ | ⟨hback, hgoes⟩
    · rw [isPreserved_stay] at hgoes
      rw [hback, hgoes]
      split <;> simp [*]
    · rw [hback, hgoes, ite_self]
      simp
  · rw [hgone, hremoved, isPreserved_stay, acted, hnames]
    rfl
  · rw [hstayed, hpreserved, isPreserved_stay, acted, hnames, List.append_assoc]
    rfl

theorem next_cases (decisions : Decisions) (sibling : Sibling) :
    (∃ name, named? (seen text) sibling = some name ∧ name ∈ unused ∧ isPreserved text decisions.marked = false ∧
        (decisions.next text unused sibling).marked = (sibling, true) :: markBack decisions.marked ∧
        (decisions.next text unused sibling).removed = decisions.removed ++ [name] ∧
        (decisions.next text unused sibling).preserved = decisions.preserved) ∨
      ((∀ name, named? (seen text) sibling = some name → name ∈ unused →
          isPreserved text decisions.marked = true) ∧
        (decisions.next text unused sibling).marked = (sibling, false) :: decisions.marked ∧
        (decisions.next text unused sibling).removed = decisions.removed ∧
        (decisions.next text unused sibling).preserved = decisions.preserved ++
          ((named? (seen text) sibling).filter fun name => decide (name ∈ unused)).toList) := by
  unfold Decisions.next
  split
  · rename_i name hkind
    have hnamed : named? (seen text) sibling = some name := by simp only [named?, seen, hkind]
    rw [hnamed, Option.filter_some]
    by_cases hunused : name ∈ unused
    · rw [if_pos hunused]
      cases hkept : isPreserved text decisions.marked with
      | false => exact .inl ⟨name, rfl, hunused, rfl, rfl, rfl, rfl⟩
      | true => exact .inr ⟨fun _ _ _ => rfl, rfl, rfl, by simp [hunused]⟩
    · rw [if_neg hunused]
      refine .inr ⟨fun other hother hmem => ?_, rfl, rfl, by simp [hunused]⟩
      obtain rfl := Option.some.inj hother
      exact absurd hmem hunused
  · rename_i hother
    have hnamed : named? (seen text) sibling = none := by
      rcases hkind : sibling.kind with (_ | name) | _ | _ | _
      · simp only [named?, seen, hkind]
      · exact absurd hkind (hother name)
      all_goals simp only [named?, seen, hkind]
    rw [hnamed]
    refine .inr ⟨fun name hname => ?_, rfl, rfl, (List.append_nil _).symm⟩
    cases hname

theorem foreseen_foldl (decisions : Decisions) (siblings : List Sibling) :
    Foreseen text unused decisions (siblings.foldl (Decisions.next text unused) decisions) siblings := by
  -- for any earlier decisions, since an entry that goes takes along what they left in front of it
  induction siblings generalizing decisions with
  | nil => exact ⟨(List.append_nil _).symm, (List.append_nil _).symm, (List.append_nil _).symm⟩
  | cons sibling rest ih =>
    rcases next_cases decisions sibling with ⟨name, hnamed, hunused, hkept, hmarked, hremoved, hpreserved⟩ |
      ⟨hkept, hmarked, hremoved, hpreserved⟩
    · exact .remove hnamed hunused hkept hmarked hremoved hpreserved (ih _)
    · exact .stay hkept hmarked hremoved hpreserved (ih _)

variable (text unused)

/-- The decisions mark what goes by its neighbours. -/
theorem marked_on (siblings : List Sibling) :
    (Decisions.on text unused siblings).marked.reverse = marks (seen text) unused false siblings := by
  have hall := (@foreseen_foldl text unused {} siblings).marked
  rwa [markBack, ite_self] at hall

theorem removed_on (siblings : List Sibling) :
    (Decisions.on text unused siblings).removed = acted (seen text) unused false false siblings :=
  (foreseen_foldl {} siblings).removed

theorem preserved_on (siblings : List Sibling) :
    (Decisions.on text unused siblings).preserved = acted (seen text) unused true false siblings :=
  (foreseen_foldl {} siblings).preserved

end Decisions

end ModuleAudit.Prune
