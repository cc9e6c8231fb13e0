import Mathlib.Data.List.Chain
import Mathlib.Data.List.Forall2
import ModuleAudit.Filter.PathFilter

/-! What a glob means. Its text has one reading as tokens (`Glob.spells_iff`), and it accepts a path if the path is
made of consecutive pieces that match the tokens (`Glob.accepts_iff`). The matcher keeps a row of marks, one for each
end of the path; a token turns the row for the later tokens into the row that has it in front (`Marks.before`). -/

namespace ModuleAudit
set_option autoImplicit false

namespace GlobToken

/-- The pieces of a path that a token stands for. -/
def Matches : GlobToken → List Char → Prop
  | .anything, piece => '\n' ∉ piece
  | .segment, piece => '/' ∉ piece
  | .single, piece => ∃ c, c ≠ '/' ∧ piece = [c]
  | .literal l, piece => piece = [l]

/-- How a token is written. -/
def spelling : GlobToken → List Char
  | .anything => ['*', '*']
  | .segment => ['*']
  | .single => ['?']
  | .literal c => [c]

theorem matches_nil (token : GlobToken) : token.Matches [] ↔ token.isRun = true := by
  cases token <;> simp [Matches, isRun]

theorem matches_cons (token : GlobToken) (c : Char) (piece : List Char) :
    token.Matches (c :: piece) ↔
      token.holds c = true ∧ if token.isRun then token.Matches piece else piece = [] := by
  cases token with
  | anything => simp [Matches, holds, isRun, ne_comm (a := c)]
  | segment => simp [Matches, holds, isRun, ne_comm (a := c)]
  | single => simp [Matches, holds, isRun]
  | literal l => simp [Matches, holds, isRun]

end GlobToken

/-! ## Rows of marks -/

/-- The row has a mark for each end of the path, from the whole path to the empty one, and the marks say which ends
have the property. -/
def Marks (S : List Char → Prop) (path : List Char) (row : List Bool) : Prop :=
  List.Forall₂ (fun rest mark => mark = true ↔ S rest) path.tails row

/-- The path starts with a piece for the token, and what follows the piece has the property. -/
def GlobToken.Starts (token : GlobToken) (S : List Char → Prop) (path : List Char) : Prop :=
  ∃ piece rest, path = piece ++ rest ∧ token.Matches piece ∧ S rest

section Marks

variable {S : List Char → Prop} {c : Char} {path : List Char} {row : List Bool}

theorem marks_nil {mark : Bool} : Marks S [] [mark] ↔ (mark = true ↔ S []) := by
  simp [Marks]

theorem marks_cons {mark : Bool} :
    Marks S (c :: path) (mark :: row) ↔ (mark = true ↔ S (c :: path)) ∧ Marks S path row := by
  exact List.forall₂_cons

theorem Marks.headD_iff (h : Marks S path row) : row.headD false = true ↔ S path := by
  cases path with
  | nil =>
    obtain ⟨mark, rest, hmark, -, rfl⟩ := List.forall₂_cons_left_iff.mp h
    exact hmark
  | cons c path =>
    obtain ⟨mark, rest, hmark, -, rfl⟩ := List.forall₂_cons_left_iff.mp h
    exact hmark

theorem GlobToken.starts_nil (token : GlobToken) : token.Starts S [] ↔ token.isRun = true ∧ S [] := by
  rw [← token.matches_nil]
  constructor
  · rintro ⟨piece, rest, he, hpiece, hrest⟩
    obtain ⟨rfl, rfl⟩ := List.append_eq_nil_iff.mp he.symm
    exact ⟨hpiece, hrest⟩
  · rintro ⟨hpiece, hrest⟩
    exact ⟨[], [], rfl, hpiece, hrest⟩

/-- A piece is empty, or it takes the first character; after that a run goes on as before and any other token is
done. -/
theorem GlobToken.starts_cons (token : GlobToken) : token.Starts S (c :: path) ↔
    token.isRun = true ∧ S (c :: path) ∨
      token.holds c = true ∧ if token.isRun then token.Starts S path else S path := by
  constructor
  · rintro ⟨piece, rest, he, hpiece, hrest⟩
    cases piece with
    | nil =>
      rw [List.nil_append] at he
      subst he
      exact Or.inl ⟨token.matches_nil.mp hpiece, hrest⟩
    | cons d piece =>
      rw [List.cons_append, List.cons.injEq] at he
      obtain ⟨rfl, rfl⟩ := he
      obtain ⟨hholds, hmore⟩ := (token.matches_cons c piece).mp hpiece
      refine Or.inr ⟨hholds, ?_⟩
      split at hmore
      · rename_i hrun
        rw [if_pos hrun]
        exact ⟨piece, rest, rfl, hmore, hrest⟩
      · rename_i hrun
        rw [if_neg hrun, hmore]
        exact hrest
  · rintro (⟨hrun, hrest⟩ | ⟨hholds, hmore⟩)
    · exact ⟨[], c :: path, rfl, token.matches_nil.mpr hrun, hrest⟩
    · split at hmore
      · rename_i hrun
        obtain ⟨piece, rest, rfl, hpiece, hrest⟩ := hmore
        refine ⟨c :: piece, rest, rfl, (token.matches_cons c piece).mpr ⟨hholds, ?_⟩, hrest⟩
        rw [if_pos hrun]
        exact hpiece
      · rename_i hrun
        refine ⟨[c], path, rfl, (token.matches_cons c []).mpr ⟨hholds, ?_⟩, hmore⟩
        rw [if_neg hrun]

theorem Marks.before (token : GlobToken) (h : Marks S path row) :
    Marks (token.Starts S) path (token.before path row) := by
  induction path generalizing row with
  | nil =>
    obtain ⟨mark, rest, hmark, hrest, rfl⟩ := List.forall₂_cons_left_iff.mp h
    obtain rfl := List.forall₂_nil_left_iff.mp hrest
    refine marks_nil.mpr ?_
    rw [token.starts_nil, Bool.and_eq_true, hmark]
  | cons c path ih =>
    obtain ⟨here, shorter, hhere, hshorter, rfl⟩ := List.forall₂_cons_left_iff.mp h
    have hlater := ih hshorter
    refine marks_cons.mpr ⟨?_, hlater⟩
    have hgoesOn : (if token.isRun then (token.before path shorter).headD false else shorter.headD false) = true ↔
        if token.isRun then token.Starts S path else S path := by
      split
      · exact hlater.headD_iff
      · exact Marks.headD_iff hshorter
    rw [token.starts_cons, Bool.or_eq_true, Bool.and_eq_true, Bool.and_eq_true, hgoesOn, hhere]

end Marks

namespace Glob

/-! ## Pieces -/

/-- The path is made of consecutive pieces, one for each token in order. -/
def Splits (tokens : List GlobToken) (path : List Char) : Prop :=
  ∃ pieces : List (List Char), pieces.flatten = path ∧ List.Forall₂ GlobToken.Matches tokens pieces

theorem splits_nil : Splits [] = fun path => path = [] := by
  funext path
  simp [Splits, eq_comm]

theorem splits_cons (token : GlobToken) (tokens : List GlobToken) :
    Splits (token :: tokens) = token.Starts (Splits tokens) := by
  funext path
  refine propext ⟨?_, ?_⟩
  · rintro ⟨pieces, rfl, h⟩
    obtain ⟨piece, others, hpiece, hothers, rfl⟩ := List.forall₂_cons_left_iff.mp h
    exact ⟨piece, others.flatten, rfl, hpiece, others, rfl, hothers⟩
  · rintro ⟨piece, rest, rfl, hpiece, pieces, rfl, hpieces⟩
    exact ⟨piece :: pieces, rfl, .cons hpiece hpieces⟩

theorem matchingEnds_marks (tokens : List GlobToken) (path : List Char) :
    Marks (Splits tokens) path (matchingEnds tokens path) := by
  induction tokens with
  | nil =>
    rw [splits_nil]
    induction path with
    | nil => exact marks_nil.mpr (by simp)
    | cons c path ih => exact marks_cons.mpr ⟨by simp, ih⟩
  | cons token tokens ih =>
    rw [splits_cons]
    exact ih.before token

theorem accepts_iff (glob : Glob) (path : String) :
    glob.accepts path = true ↔ Splits glob.tokens path.toList :=
  (matchingEnds_marks glob.tokens path.toList).headD_iff

/-! ## Reading a text -/

/-- The tokens are written as the text, no literal is a wildcard, and no single star stands before another star: stars
are taken two at a time from the left. -/
def Spells (tokens : List GlobToken) (text : List Char) : Prop :=
  tokens.flatMap GlobToken.spelling = text ∧
    (∀ token ∈ tokens, token ≠ .literal '*' ∧ token ≠ .literal '?') ∧
    tokens.IsChain fun token next => token = .segment → next.isRun = false

theorem spells_cons {token : GlobToken} {tokens : List GlobToken} {text : List Char} :
    Spells (token :: tokens) text ↔ ∃ rest, text = token.spelling ++ rest ∧ Spells tokens rest ∧
      (token ≠ .literal '*' ∧ token ≠ .literal '?') ∧
      (token = .segment → ∀ next ∈ tokens.head?, next.isRun = false) := by
  simp only [Spells, List.flatMap_cons, List.forall_mem_cons, List.isChain_cons]
  constructor
  · rintro ⟨rfl, ⟨hliteral, hliterals⟩, hnext, hchain⟩
    exact ⟨_, rfl, ⟨rfl, hliterals, hchain⟩, hliteral, fun hs next hn => hnext next hn hs⟩
  · rintro ⟨_, rfl, ⟨rfl, hliterals, hchain⟩, hliteral, hnext⟩
    exact ⟨rfl, ⟨hliteral, hliterals⟩, fun next hn hs => hnext hs next hn, hchain⟩

/-- A text starts with a star if its first token does. -/
theorem Spells.head?_eq_star_iff {tokens : List GlobToken} {text : List Char} (h : Spells tokens text) :
    text.head? = some '*' ↔ ∃ next ∈ tokens.head?, next.isRun = true := by
  cases tokens with
  | nil =>
    obtain ⟨rfl, -⟩ := h
    simp
  | cons token tokens =>
    obtain ⟨rest, rfl, -, hliteral, -⟩ := spells_cons.mp h
    cases token with
    | anything => simp [GlobToken.spelling, GlobToken.isRun]
    | segment => simp [GlobToken.spelling, GlobToken.isRun]
    | single => simp [GlobToken.spelling, GlobToken.isRun]
    | literal c =>
      have hc : c ≠ '*' := fun e => hliteral.1 (congrArg _ e)
      simp [GlobToken.spelling, GlobToken.isRun, hc]

theorem spells_tokensOf (text : List Char) : Spells (tokensOf text) text := by
  fun_induction tokensOf text with
  | case1 rest ih => exact spells_cons.mpr ⟨rest, rfl, ih, by simp, by simp⟩
  | case2 rest hone ih =>
    refine spells_cons.mpr ⟨rest, rfl, ih, by simp, fun _ next hnext => ?_⟩
    refine Bool.eq_false_iff.mpr fun hrun => ?_
    obtain ⟨others, hrest⟩ := List.head?_eq_some_iff.mp (ih.head?_eq_star_iff.mpr ⟨next, hnext, hrun⟩)
    exact hone others hrest
  | case3 rest ih => exact spells_cons.mpr ⟨rest, rfl, ih, by simp, by simp⟩
  | case4 c rest _ hstar hquestion ih =>
    have hliteral : GlobToken.literal c ≠ .literal '*' ∧ GlobToken.literal c ≠ .literal '?' :=
      ⟨fun e => hstar (GlobToken.literal.inj e), fun e => hquestion (GlobToken.literal.inj e)⟩
    exact spells_cons.mpr ⟨rest, rfl, ih, hliteral, by simp⟩
  | case5 => simp [Spells]

theorem tokensOf_cons_literal {c : Char} (hc : c ≠ '*' ∧ c ≠ '?') (rest : List Char) :
    tokensOf (c :: rest) = .literal c :: tokensOf rest :=
  tokensOf.eq_4 c rest (fun _ e _ => hc.1 e) hc.1 hc.2

theorem tokensOf_of_spells {tokens : List GlobToken} {text : List Char} (h : Spells tokens text) :
    tokensOf text = tokens := by
  induction tokens generalizing text with
  | nil =>
    obtain ⟨rfl, -⟩ := h
    rfl
  | cons token tokens ih =>
    obtain ⟨rest, rfl, hrest, hliteral, hnext⟩ := spells_cons.mp h
    have htokens := ih hrest
    cases token with
    | anything => simp [GlobToken.spelling, tokensOf, htokens]
    | segment =>
      have hone : ∀ others, rest ≠ '*' :: others := by
        rintro others rfl
        obtain ⟨next, hn, hrun⟩ := hrest.head?_eq_star_iff.mp rfl
        rw [hnext rfl next hn] at hrun
        cases hrun
      rw [GlobToken.spelling, List.singleton_append, tokensOf.eq_2 rest hone, htokens]
    | single => simp [GlobToken.spelling, tokensOf, htokens]
    | literal c =>
      simp only [ne_eq, GlobToken.literal.injEq] at hliteral
      rw [GlobToken.spelling, List.singleton_append, tokensOf_cons_literal hliteral, htokens]

theorem spells_iff {tokens : List GlobToken} {text : List Char} : Spells tokens text ↔ tokens = tokensOf text :=
  ⟨fun h => (tokensOf_of_spells h).symm, fun h => h ▸ spells_tokensOf text⟩

example : tokensOf ['*', '*', '*', '?', '.'] = [.anything, .segment, .single, .literal '.'] := by decide

/-! ## Patterns without wildcards -/

theorem splits_of_plain {text : List Char} (h : ∀ c ∈ text, c ≠ '*' ∧ c ≠ '?') (path : List Char) :
    Splits (tokensOf text) path ↔ path = text := by
  induction text generalizing path with
  | nil => rw [tokensOf, splits_nil]
  | cons c text ih =>
    rw [List.forall_mem_cons] at h
    rw [tokensOf_cons_literal h.1, splits_cons]
    constructor
    · rintro ⟨_, rest, rfl, rfl, hrest⟩
      rw [(ih h.2 rest).mp hrest]
      rfl
    · rintro rfl
      exact ⟨[c], text, rfl, rfl, (ih h.2 text).mpr rfl⟩

/-- The filter that a descriptor writes, also where it holds no wildcard and is for one path. -/
theorem accepts_ofPattern_iff (pattern path : String) :
    (PathFilter.ofPattern pattern).accepts path = true ↔ Splits (ofText pattern).tokens path.toList := by
  rw [PathFilter.ofPattern]
  split
  · rw [PathFilter.accepts, accepts_iff]
  · rename_i hplain
    have hnone : ∀ c ∈ pattern.toList, c ≠ '*' ∧ c ≠ '?' := by simpa using hplain
    rw [PathFilter.accepts, decide_eq_true_iff, ofText, splits_of_plain hnone, String.toList_inj, eq_comm]

/-- The text of a glob has one reading as tokens, in which stars are taken two at a time from the left. The glob accepts
the paths that are made of consecutive pieces which match the tokens, and so does the filter that a descriptor writes
with this text. -/
theorem matching_exact (text path : String) :
    (∀ tokens, Spells tokens text.toList ↔ tokens = (ofText text).tokens) ∧
    ((ofText text).accepts path = true ↔ Splits (ofText text).tokens path.toList) ∧
    ((PathFilter.ofPattern text).accepts path = true ↔ Splits (ofText text).tokens path.toList) :=
  ⟨fun _ => spells_iff, accepts_iff _ path, accepts_ofPattern_iff text path⟩

end Glob

end ModuleAudit
