import ModuleAudit.Proofs.Prune.Children
import ModuleAudit.Proofs.Prune.Meaning

/-! Edits compose. What an edit leaves can be edited again, and removing for one list of modules and then for another is
removing for both (`edits_compose`). A text that starts with a mark is the exception: its edit need not be markup. -/

namespace ModuleAudit.Prune
set_option autoImplicit false

open Markup Node

/-- A text that was edited holds children in a frame, or dependencies that are an empty tag. -/
theorem holds_of_edit {text : String} (hends : ¬ ['\r', '\n'] <:+: text.toList)
    (hmark : text.toList.head? ≠ some byteOrderMark) {unused : List String} {answer : Edit × List Note}
    (h : removeDependencies text unused = .ok answer) :
    siblings? text.toList = some (some []) ∨ ∃ (frame : Frame) (children : List Node), frame.Holds children text := by
  rcases hsiblings : siblings? text.toList with _ | _ | siblings
  · rw [removeDependencies, hsiblings] at h
    cases h
  · rw [removeDependencies, hsiblings] at h
    cases h
  · rcases exists_frame hsiblings with rfl | ⟨frame, children, hread, hnames⟩
    · exact .inl rfl
    · exact .inr ⟨frame, children, hread, hnames, hends, hmark⟩

theorem edit_of_no_siblings {text : String} (hends : ¬ ['\r', '\n'] <:+: text.toList)
    (h : siblings? text.toList = some (some [])) (unused : List String) :
    removeDependencies text unused = .ok (⟨text, [], []⟩, []) := by
  have htext := text_edit_of_no_decisions hends
  rw [removeDependencies_eq h]
  exact congrArg (fun left => Except.ok (Edit.mk left [] [], [])) htext

/-- Editing for one list of modules and then for another is editing for both. For the same list, the second edit has
nothing to do. -/
theorem edits_compose {text : String} (hends : ¬ ['\r', '\n'] <:+: text.toList)
    (hmark : text.toList.head? ≠ some byteOrderMark) {first : List String} {edit : Edit} {notes : List Note}
    (hedit : removeDependencies text first = .ok (edit, notes)) :
    (∀ second, ∃ after afterNotes both bothNotes,
        removeDependencies edit.text second = .ok (after, afterNotes) ∧
        removeDependencies text (first ++ second) = .ok (both, bothNotes) ∧ both.text = after.text ∧
        Interleaved edit.removed after.removed both.removed) ∧
      ∃ again againNotes, removeDependencies edit.text first = .ok (again, againNotes) ∧ again.removed = [] ∧
        again.text = edit.text := by
  rcases holds_of_edit hends hmark hedit with hempty | ⟨frame, children, h⟩
  · have hnothing := edit_of_no_siblings hends hempty
    obtain ⟨rfl, -⟩ := Prod.mk.inj (Except.ok.inj (hedit.symm.trans (hnothing first)))
    exact ⟨fun second => ⟨_, _, _, _, hnothing second, hnothing _, rfl, .nil⟩, _, _, hnothing first, rfl, rfl⟩
  · obtain ⟨edit', notes', hedit', hleft, hremoved⟩ := h.edit first
    obtain ⟨rfl, -⟩ := Prod.mk.inj (Except.ok.inj (hedit.symm.trans hedit'))
    constructor
    · intro second
      obtain ⟨after, afterNotes, hafter, hheld, hgone⟩ := hleft.edit second
      obtain ⟨both, bothNotes, hboth, hheldBoth, hgoneBoth⟩ := h.edit (first ++ second)
      refine ⟨after, afterNotes, both, bothNotes, hafter, hboth, ?_, ?_⟩
      · rw [stays_stays] at hheld
        exact hheldBoth.text_eq hheld
      · rw [hremoved, hgone, hgoneBoth]
        exact interleaved_acted false children
    · obtain ⟨again, againNotes, hagain, hheld, hgone⟩ := hleft.edit first
      refine ⟨again, againNotes, hagain, hgone.trans (acted_stays_self false children), ?_⟩
      rw [stays_self] at hheld
      exact hheld.text_eq hleft

/-- When the entry for `b` is gone, the comment in front of `c` stands behind the entry for `a`, which is kept. -/
def neighboursRow : List Token :=
  [.openTag "module name=\"n\"".toList, .openTag "dependencies".toList, .comment " keep ".toList,
    .instruction "mark".toList, .emptyTag "module name=\"a\"".toList, .text "\n  ".toList,
    .emptyTag "module name=\"b\"".toList, .comment " why ".toList, .emptyTag "module name=\"c\"".toList,
    .closeTag "dependencies".toList, .closeTag "module".toList]

def neighbours : String := String.ofList (neighboursRow.flatMap Token.written)

def neighboursEdit : Edit where
  text := String.ofList ((neighboursRow.take 5 ++ neighboursRow.drop 7).flatMap Token.written)
  removed := ["b"]

theorem edits_compose_neighbours : removeDependencies neighbours ["b"] = .ok (neighboursEdit, []) ∧
    (∀ second, ∃ after afterNotes both bothNotes,
        removeDependencies neighboursEdit.text second = .ok (after, afterNotes) ∧
        removeDependencies neighbours (["b"] ++ second) = .ok (both, bothNotes) ∧ both.text = after.text ∧
        Interleaved ["b"] after.removed both.removed) ∧
      ∃ again againNotes, removeDependencies neighboursEdit.text ["b"] = .ok (again, againNotes) ∧
        again.removed = [] ∧ again.text = neighboursEdit.text := by
  have hchars : neighbours.toList = neighboursRow.flatMap Token.written := String.toList_ofList
  have hends : ¬ ['\r', '\n'] <:+: neighbours.toList := by
    rw [hchars]
    decide +kernel
  have hmark : neighbours.toList.head? ≠ some byteOrderMark := by
    rw [hchars]
    decide +kernel
  have hedit : removeDependencies neighbours ["b"] = .ok (neighboursEdit, []) := by
    rw [removeDependencies, hchars]
    decide +kernel
  exact ⟨hedit, edits_compose hends hmark hedit⟩

/-- What an edit leaves of a text that starts with a mark need not be markup, and then it cannot be edited again. -/
theorem no_second_edit_of_marked : '\r' ∉ marked.toList ∧
    ∃ edit notes, removeDependencies marked ["a"] = .ok (edit, notes) ∧
      removeDependencies edit.text ["a"] = .error .malformed := by
  have hchars : marked.toList = byteOrderMark :: markedRow.flatMap Token.written := String.toList_ofList
  have hsiblings : siblings? marked.toList = some (some [⟨.element (some "a"), ⟨31, 49⟩⟩]) := by
    rw [hchars]
    decide +kernel
  refine ⟨?_, _, _, removeDependencies_eq hsiblings ["a"], ?_⟩
  · rw [hchars]
    decide +kernel
  · rw [removeDependencies, Decisions.edit, String.toList_ofList, hchars]
    decide +kernel

end ModuleAudit.Prune
