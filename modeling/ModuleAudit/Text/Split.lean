/-! # Splitting text

Cutting a list of characters at a separator, at a longer mark, and into lines.
-/

namespace ModuleAudit.Text
set_option autoImplicit false

/-- The parts before and after the first `sep`, if there is one. -/
def cutFirst (sep : Char) : List Char → Option (List Char × List Char)
  | [] => none
  | c :: rest =>
    if c = sep then some ([], rest)
    else (cutFirst sep rest).map fun (before, after) => (c :: before, after)

theorem cutFirst_eq_some_iff {sep : Char} {text before after : List Char} :
    cutFirst sep text = some (before, after) ↔ sep ∉ before ∧ text = before ++ sep :: after := by
  induction text generalizing before with
  | nil => simp [cutFirst]
  | cons c rest ih =>
    rw [cutFirst]
    by_cases hc : c = sep
    · cases before with
      | nil => simp [hc, eq_comm]
      | cons b front =>
        have hne : c = b → b = sep := fun h => h ▸ hc
        simp only [if_pos hc, Option.some.injEq, Prod.mk.injEq, List.mem_cons, not_or, List.cons_append,
          List.cons.injEq]
        grind
    · cases before with
      | nil => simp [hc]
      | cons b front =>
        have hrest := @ih front
        simp only [if_neg hc, Option.map_eq_some_iff, Prod.exists, Prod.mk.injEq, List.cons.injEq, List.mem_cons,
          not_or, List.cons_append]
        grind

/-- The parts before and after the last `sep`, if there is one. -/
def cutLast (sep : Char) : List Char → Option (List Char × List Char)
  | [] => none
  | c :: rest =>
    match cutLast sep rest with
    | some (before, after) => some (c :: before, after)
    | none => if c = sep then some ([], rest) else none

/-- The parts between the occurrences of `sep`; there is always at least one. -/
def splitOn (sep : Char) : List Char → List (List Char)
  | [] => [[]]
  | c :: rest =>
    if c = sep then [] :: splitOn sep rest
    else
      match splitOn sep rest with
      | [] => [[c]]
      | part :: parts => (c :: part) :: parts

/-- What follows `mark`, if the text starts with it. -/
def afterMark? : List Char → List Char → Option (List Char)
  | [], rest => some rest
  | _ :: _, [] => none
  | m :: mark, c :: rest => if m = c then afterMark? mark rest else none

/-- The parts before and after the first occurrence of `mark`. -/
def cutAtMark (mark : List Char) : List Char → Option (List Char × List Char)
  | [] => if mark.isEmpty then some ([], []) else none
  | c :: rest =>
    match afterMark? mark (c :: rest) with
    | some after => some ([], after)
    | none => (cutAtMark mark rest).map fun (before, after) => (c :: before, after)

theorem append_of_afterMark? {mark chars after : List Char} (h : afterMark? mark chars = some after) :
    chars = mark ++ after := by
  fun_induction afterMark? mark chars with
  | case1 => simp_all
  | case2 => simp at h
  | case3 mark c rest ih => simp [ih h]
  | case4 => simp at h

theorem append_of_cutAtMark {mark chars before after : List Char}
    (h : cutAtMark mark chars = some (before, after)) : chars = before ++ (mark ++ after) := by
  fun_induction cutAtMark mark chars generalizing before with
  | case1 => simp_all
  | case2 => simp at h
  | case3 c rest after found =>
    obtain ⟨rfl, rfl⟩ := Prod.mk.inj (Option.some.inj h)
    simp [append_of_afterMark? found]
  | case4 c rest absent ih =>
    obtain ⟨⟨before', after'⟩, found, same⟩ := Option.map_eq_some_iff.1 h
    obtain ⟨rfl, rfl⟩ := Prod.mk.inj same
    simp [ih found]

/-- One line less the carriage return it may end with. -/
def dropReturn (line : List Char) : List Char :=
  match line.reverse with
  | '\r' :: front => front.reverse
  | _ => line

/-- The lines of a text. A line ends with a line feed, before which one carriage return is dropped; what
follows the last line feed is a line if it is not empty, and keeps its carriage return. -/
def lines (chars : List Char) : List (List Char) :=
  let parts := splitOn '\n' chars
  parts.dropLast.map dropReturn ++ (parts.getLast?.toList.filter fun last => !last.isEmpty)

def replaceChar (before after : Char) (chars : List Char) : List Char :=
  chars.map fun c => if c = before then after else c

/-- Every carriage return that stands before a line feed dropped. -/
def unifyLineEnds : List Char → List Char
  | [] => []
  | '\r' :: '\n' :: rest => '\n' :: unifyLineEnds rest
  | c :: rest => c :: unifyLineEnds rest

/-- Whether a character is a space or a tab. -/
def isSpace (c : Char) : Bool := c == ' ' || c == '\t'

/-- A text less the spaces and tabs it starts with. -/
def dropSpaces (chars : List Char) : List Char := chars.dropWhile isSpace

/-- The texts joined with `sep` between them. -/
def join (sep : String) (parts : List String) : String := sep.intercalate parts

end ModuleAudit.Text
