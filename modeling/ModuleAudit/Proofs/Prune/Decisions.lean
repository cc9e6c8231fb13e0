import Mathlib.Data.List.Chain
import Mathlib.Data.List.Induction
import ModuleAudit.Prune.Edit

/-! What the decisions on siblings come to. Every sibling is decided on once. The entries that are removed are named
in `removed` in order, and the unused ones that stay in `preserved`. In front of a removed sibling stands another
removed one, or one that is neither text nor a comment. -/

namespace ModuleAudit.Prune
set_option autoImplicit false

open Markup

/-- The module that an entry names, for a sibling that is an element. -/
def module? (sibling : Sibling) : Option (Option String) :=
  match sibling.kind with
  | .element module => some module
  | _ => none

/-- The modules that the elements with a mark name. -/
def modules (flag : Bool) (marks : List Marked) : List (Option String) :=
  (marks.filter (·.2 == flag)).filterMap fun mark => module? mark.1

/-- The modules of a list that are unused. -/
def unusedIn (unused : List String) (found : List (Option String)) : List String :=
  (found.filterMap id).filter (· ∈ unused)

/-- Whether a sibling stays in front of one that is removed. -/
def Sibling.stops (sibling : Sibling) : Bool :=
  match sibling.kind with
  | .comment | .text => false
  | _ => true

/-- What may stand in front of a sibling, by their marks. -/
def Clear (later earlier : Marked) : Prop := later.2 = true → earlier.2 = true ∨ earlier.1.stops = true

theorem modules_append (flag : Bool) (front back : List Marked) :
    modules flag (front ++ back) = modules flag front ++ modules flag back := by
  rw [modules, List.filter_append, List.filterMap_append]
  rfl

theorem modules_singleton (flag : Bool) (mark : Marked) :
    modules flag [mark] = if mark.2 = flag then (module? mark.1).toList else [] := by
  cases hmodule : module? mark.1 with
  | none => simp [modules, hmodule, List.filter_cons, apply_ite]
  | some module =>
    by_cases hmark : mark.2 = flag
    · simp [modules, hmodule, hmark]
    · simp [modules, hmark]

theorem modules_cons (flag : Bool) (mark : Marked) (marks : List Marked) :
    modules flag (mark :: marks) = (if mark.2 = flag then (module? mark.1).toList else []) ++ modules flag marks := by
  rw [← modules_singleton, ← modules_append]
  rfl

theorem modules_reverse (flag : Bool) (marks : List Marked) :
    modules flag marks.reverse = (modules flag marks).reverse := by
  rw [modules, List.filter_reverse, List.filterMap_reverse]
  rfl

theorem unusedIn_append (unused : List String) (front back : List (Option String)) :
    unusedIn unused (front ++ back) = unusedIn unused front ++ unusedIn unused back := by
  rw [unusedIn, List.filterMap_append, List.filter_append]
  rfl

/-! ## Marks of what goes along -/

theorem map_markBack (marks : List Marked) : (markBack marks).map Prod.fst = marks.map Prod.fst := by
  fun_induction markBack marks with
  | case1 => rfl
  | case2 sibling before ih => rw [List.map_cons, ih, List.map_cons]
  | case3 sibling before hkind ih => rw [List.map_cons, ih, List.map_cons]
  | case4 sibling before hkind ih => rw [List.map_cons, ih, List.map_cons]
  | case5 => rfl
  | case6 => rfl

/-- Elements keep their marks. -/
theorem modules_markBack (flag : Bool) (marks : List Marked) : modules flag (markBack marks) = modules flag marks := by
  have hpassed : ∀ sibling : Sibling, module? sibling = none → ∀ (mark : Bool) (before : List Marked),
      modules flag ((sibling, mark) :: before) = modules flag before := by
    intro sibling hnone mark before
    rw [modules_cons, hnone, Option.toList_none, ite_self, List.nil_append]
  fun_induction markBack marks with
  | case1 => rfl
  | case2 sibling before ih => rw [modules_cons, modules_cons, ih]
  | case3 sibling before hkind ih =>
    have hnone : module? sibling = none := by rw [module?, hkind]
    rw [hpassed sibling hnone, hpassed sibling hnone, ih]
  | case4 sibling before hkind ih =>
    have hnone : module? sibling = none := by rw [module?, hkind]
    rw [hpassed sibling hnone, hpassed sibling hnone, ih]
  | case5 => rfl
  | case6 => rfl

/-- After the marks, a removed sibling may follow. -/
theorem clear_markBack {marks : List Marked} (h : marks.IsChain Clear) (removed : Sibling) :
    ((removed, true) :: markBack marks).IsChain Clear := by
  fun_induction markBack marks generalizing removed with
  | case1 => exact .singleton _
  | case2 sibling before ih => exact (ih h.tail sibling).cons_cons fun _ => .inl rfl
  | case3 sibling before hkind ih => exact (ih h.tail sibling).cons_cons fun _ => .inl rfl
  | case4 sibling before hkind ih => exact (ih h.tail sibling).cons_cons fun _ => .inl rfl
  | case5 sibling before module hkind =>
    refine h.cons_cons fun _ => .inr ?_
    rw [Sibling.stops, hkind]
  | case6 sibling before hkind =>
    refine h.cons_cons fun _ => .inr ?_
    rw [Sibling.stops, hkind]

/-! ## Decisions -/

/-- What decisions on siblings say. -/
structure Decisions.Sound (unused : List String) (siblings : List Sibling) (decisions : Decisions) : Prop where
  all : decisions.marked.reverse.map Prod.fst = siblings
  removed : modules true decisions.marked.reverse = decisions.removed.map some
  isUnused : ∀ name ∈ decisions.removed, name ∈ unused
  preserved : unusedIn unused (modules false decisions.marked.reverse) = decisions.preserved
  clear : decisions.marked.IsChain Clear

namespace Decisions.Sound

variable {text : List Char} {unused : List String} {siblings : List Sibling} {decisions : Decisions}

theorem mem_of_marked (h : decisions.Sound unused siblings) {mark : Marked} (hmark : mark ∈ decisions.marked) :
    mark.1 ∈ siblings := by
  rw [← h.all]
  exact List.mem_map_of_mem (List.mem_reverse.mpr hmark)

/-- A sibling that stays. -/
theorem stay (h : decisions.Sound unused siblings) (sibling : Sibling) {preserved : List String} {notes : List Note}
    {read : List Span} (hpreserved : preserved = decisions.preserved ++ unusedIn unused (module? sibling).toList) :
    Sound unused (siblings ++ [sibling])
      { decisions with marked := (sibling, false) :: decisions.marked, preserved, notes, read } where
  all := by rw [List.reverse_cons, List.map_append, h.all]; rfl
  removed := by
    rw [List.reverse_cons, modules_append, modules_singleton, if_neg Bool.false_ne_true, List.append_nil,
      h.removed]
  isUnused := h.isUnused
  preserved := by
    rw [List.reverse_cons, modules_append, modules_singleton, if_pos rfl, unusedIn_append, h.preserved, hpreserved]
  clear := h.clear.cons fun _ _ hremoved => nomatch hremoved

/-- An entry that is removed, with what goes along. -/
theorem remove (h : decisions.Sound unused siblings) {sibling : Sibling} {name : String}
    (hmodule : module? sibling = some (some name)) (hunused : name ∈ unused) {notes : List Note}
    {read : List Span} :
    Sound unused (siblings ++ [sibling])
      { marked := (sibling, true) :: markBack decisions.marked, removed := decisions.removed ++ [name]
        preserved := decisions.preserved, notes, read } where
  all := by
    rw [List.reverse_cons, List.map_append, List.map_reverse, map_markBack, ← List.map_reverse, h.all]
    rfl
  removed := by
    rw [List.reverse_cons, modules_append, modules_reverse, modules_markBack, ← modules_reverse, h.removed,
      modules_singleton, if_pos rfl, hmodule, List.map_append]
    rfl
  isUnused := by
    intro other hmem
    rcases List.mem_append.mp hmem with hmem | hmem
    · exact h.isUnused other hmem
    · rw [List.mem_singleton.mp hmem]
      exact hunused
  preserved := by
    rw [List.reverse_cons, modules_append, modules_reverse, modules_markBack, ← modules_reverse, modules_singleton,
      if_neg Bool.false_ne_true.symm, List.append_nil, h.preserved]
  clear := clear_markBack h.clear sibling

theorem next (h : decisions.Sound unused siblings) (sibling : Sibling) :
    (decisions.next text unused sibling).Sound unused (siblings ++ [sibling]) := by
  unfold Decisions.next
  split
  · rename_i name hkind
    have hmodule : module? sibling = some (some name) := by rw [module?, hkind]
    split
    · rename_i hunused
      split
      · refine h.stay sibling ?_
        rw [hmodule]
        simp [unusedIn, hunused]
      · exact h.remove hmodule hunused
    · rename_i hused
      refine h.stay sibling ?_
      rw [hmodule]
      simp [unusedIn, hused]
  · rename_i hnamed
    refine h.stay sibling ?_
    have hnone : unusedIn unused (module? sibling).toList = [] := by
      rcases hkind : sibling.kind with (_ | name) | _ | _ | _
      · simp [module?, hkind, unusedIn]
      · exact absurd hkind (hnamed name)
      all_goals simp [module?, hkind, unusedIn]
    rw [hnone, List.append_nil]

end Decisions.Sound

theorem Decisions.sound_on (text : List Char) (unused : List String) (siblings : List Sibling) :
    (Decisions.on text unused siblings).Sound unused siblings := by
  induction siblings using List.reverseRecOn with
  | nil => exact ⟨rfl, rfl, fun _ hmem => (nomatch hmem), rfl, .nil⟩
  | append_singleton siblings sibling ih =>
    rw [Decisions.on, List.foldl_append]
    exact ih.next sibling

/-! ## Where the text is read -/

theorem mem_of_mem_goesAlong {marks : List Marked} {sibling : Sibling} (h : sibling ∈ goesAlong marks) :
    sibling ∈ marks.map Prod.fst := by
  fun_induction goesAlong marks with
  | case1 => exact absurd h List.not_mem_nil
  | case2 other before ih => exact List.mem_cons_of_mem _ (ih h)
  | case3 other before hkind ih | case4 other before hkind ih =>
    rcases List.mem_cons.mp h with rfl | h
    · exact List.mem_cons_self
    · exact List.mem_cons_of_mem _ (ih h)
  | case5 | case6 => exact absurd h List.not_mem_nil

theorem mem_of_mem_askedComments {text : List Char} {marks : List Marked} {sibling : Sibling}
    (h : sibling ∈ askedComments text marks) : sibling ∈ marks.map Prod.fst := by
  have hcomment := (List.mem_filter.mp (List.mem_of_mem_take h)).1
  obtain ⟨mark, hmark, rfl⟩ := List.mem_map.mp ((List.takeWhile_sublist _).subset hcomment)
  exact List.mem_map_of_mem (List.mem_filter.mp hmark).1

namespace Decisions

theorem read_next_subset (text : List Char) (unused : List String) (decisions : Decisions) (sibling : Sibling) :
    (decisions.next text unused sibling).read ⊆
      decisions.read ++ (decisions.marked.map Prod.fst).map Sibling.span := by
  have hkept : decisions.read ⊆ decisions.read ++ (decisions.marked.map Prod.fst).map Sibling.span :=
    List.subset_append_left _ _
  have hasked : decisions.read ++ (askedComments text decisions.marked).map Sibling.span ⊆
      decisions.read ++ (decisions.marked.map Prod.fst).map Sibling.span := by
    refine List.append_subset.mpr ⟨hkept, fun span hspan => List.mem_append_right _ ?_⟩
    exact List.map_subset _ (fun _ => mem_of_mem_askedComments) hspan
  unfold next
  split
  · split
    · split
      · exact hasked
      · refine List.append_subset.mpr ⟨hasked, fun span hspan => List.mem_append_right _ ?_⟩
        obtain ⟨along, halong, rfl⟩ := List.mem_map.mp hspan
        exact List.mem_map_of_mem (mem_of_mem_goesAlong (List.mem_filter.mp halong).1)
    · exact hkept
  · exact hkept

/-- The text is read where siblings are. -/
theorem read_on_subset (text : List Char) (unused : List String) (siblings : List Sibling) :
    (Decisions.on text unused siblings).read ⊆ siblings.map Sibling.span := by
  induction siblings using List.reverseRecOn with
  | nil => exact List.nil_subset _
  | append_singleton siblings sibling ih =>
    have hmarked : (Decisions.on text unused siblings).marked.map Prod.fst ⊆ siblings :=
      List.forall_mem_map.mpr fun _ => (sound_on text unused siblings).mem_of_marked
    rw [Decisions.on, List.foldl_append, List.map_append]
    refine fun span hspan => List.mem_append_left _ ?_
    exact List.append_subset.mpr ⟨ih, List.map_subset _ hmarked⟩ (read_next_subset _ _ _ sibling hspan)

/-- If all siblings hold whole characters, then no character is torn. -/
theorem isWhole_on {text : List Char} {siblings : List Sibling}
    (h : ∀ sibling ∈ siblings, sibling.span.isWhole text = true) (unused : List String) :
    (Decisions.on text unused siblings).isWhole text = true := by
  have hspans : ∀ span ∈ siblings.map Sibling.span, span.isWhole text = true := List.forall_mem_map.mpr h
  refine List.all_eq_true.mpr fun span hspan => hspans span ?_
  rcases List.mem_append.mp hspan with hread | hcut
  · exact read_on_subset text unused siblings hread
  · obtain ⟨mark, hmark, rfl⟩ := List.mem_map.mp hcut
    exact List.mem_map_of_mem ((sound_on text unused siblings).mem_of_marked (List.mem_filter.mp hmark).1)

end Decisions

end ModuleAudit.Prune
