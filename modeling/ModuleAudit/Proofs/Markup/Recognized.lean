import Mathlib.Data.List.Chain
import ModuleAudit.Markup.Token
import ModuleAudit.Proofs.Text

/-! Tokens that a text was read into can be written in another order and with some left out, and are read back, as
long as no two pieces of text touch: where a token ends depends on the token alone, except for text, which ends
before a tag, a reference or the end. -/

namespace ModuleAudit.Markup
set_option autoImplicit false

/-! ## Where a token ends -/

theorem cutTag_append {quote : Option Char} {chars inside after : List Char}
    (h : cutTag quote chars = some (inside, after)) (other : List Char) :
    cutTag quote (inside ++ '>' :: other) = some (inside, other) := by
  fun_induction cutTag quote chars generalizing inside with
  | case1 => cases h
  | case2 rest =>
    obtain ⟨rfl, rfl⟩ := Prod.mk.inj (Option.some.inj h)
    rfl
  | case3 c rest hother ih =>
    obtain ⟨⟨inside', after'⟩, hfound, hsame⟩ := Option.map_eq_some_iff.mp h
    obtain ⟨rfl, rfl⟩ := Prod.mk.inj hsame
    rw [List.cons_append, cutTag, if_neg hother, ih hfound]
    rfl
  | case4 quote c rest ih =>
    obtain ⟨⟨inside', after'⟩, hfound, hsame⟩ := Option.map_eq_some_iff.mp h
    obtain ⟨rfl, rfl⟩ := Prod.mk.inj hsame
    rw [List.cons_append, cutTag, ih hfound]
    rfl

theorem cutBalanced_append {opened : Nat} {chars inside after : List Char}
    (h : cutBalanced opened chars = some (inside, after)) (other : List Char) :
    cutBalanced opened (inside ++ '>' :: other) = some (inside, other) := by
  fun_induction cutBalanced opened chars generalizing inside with
  | case1 => cases h
  | case2 rest =>
    obtain ⟨rfl, rfl⟩ := Prod.mk.inj (Option.some.inj h)
    rfl
  | case3 rest opened ih =>
    obtain ⟨⟨inside', after'⟩, hfound, hsame⟩ := Option.map_eq_some_iff.mp h
    obtain ⟨rfl, rfl⟩ := Prod.mk.inj hsame
    rw [List.cons_append, cutBalanced, if_pos rfl, ih hfound]
    rfl
  | case4 opened c rest hother ih =>
    obtain ⟨⟨inside', after'⟩, hfound, hsame⟩ := Option.map_eq_some_iff.mp h
    obtain ⟨rfl, rfl⟩ := Prod.mk.inj hsame
    rw [List.cons_append, cutBalanced.eq_def]
    simp only [if_neg hother, ih hfound]
    rfl

theorem cutReference_append {chars inside after : List Char} (h : cutReference chars = some (inside, after))
    (other : List Char) : cutReference (inside ++ ';' :: other) = some (inside, other) := by
  fun_induction cutReference chars generalizing inside with
  | case1 => cases h
  | case2 rest =>
    obtain ⟨rfl, rfl⟩ := Prod.mk.inj (Option.some.inj h)
    rfl
  | case3 => cases h
  | case4 c rest hend hstop ih =>
    obtain ⟨⟨inside', after'⟩, hfound, hsame⟩ := Option.map_eq_some_iff.mp h
    obtain ⟨rfl, rfl⟩ := Prod.mk.inj hsame
    rw [List.cons_append, cutReference, if_neg hend, if_neg hstop, ih hfound]
    rfl

/-! ## Reading a token back -/

/-- The first token of a text. -/
def first? : List Char → Option (Token × List Char)
  | [] => none
  | c :: rest => next c rest

def Token.isText : Token → Bool
  | .text _ => true
  | _ => false

/-- Whether a token ends where another text starts: text goes on up to a tag or a reference. -/
def Detached (token : Token) (after : List Char) : Prop := token.isText → ∀ c ∈ after.head?, endsText c

/-- The token is read back from what is written for it, whatever follows. -/
def Recognized (token : Token) : Prop :=
  ∀ after, Detached token after → first? (token.written ++ after) = some (token, after)

/-- What a text starts with does not depend on what follows its first mark. -/
theorem head?_append_cons (chars after other : List Char) (mark : Char) :
    (chars ++ mark :: after).head? = (chars ++ mark :: other).head? := by
  cases chars with
  | nil => rfl
  | cons c rest => rfl

theorem nextBang_doctype {content after : List Char}
    (hname : (content.take 7).map Char.toUpper = doctypeName ∧ (content.drop 7).any fun c => !isTagBlank c)
    (hcut : cutBalanced 0 (content ++ '>' :: after) = some (content, after)) :
    nextBang (content ++ '>' :: after) = some (.doctype content, after) := by
  obtain ⟨d, rest, rfl⟩ : ∃ d rest, content = d :: rest := by
    cases content with
    | nil => cases hname.1
    | cons d rest => exact ⟨d, rest, rfl⟩
  have hupper : d.toUpper = 'D' := (List.cons.inj hname.1).1
  have hdoctype : doctypeOf? (d :: rest) = some (.doctype (d :: rest)) := if_pos hname
  rw [List.cons_append] at hcut ⊢
  unfold nextBang
  split
  case h_1 heq =>
    rw [(List.cons.inj heq).1] at hupper
    exact absurd hupper (by decide)
  case h_2 heq =>
    rw [(List.cons.inj heq).1] at hupper
    exact absurd hupper (by decide)
  case h_3 =>
    simp only [hcut, hdoctype]
    rfl

theorem recognized_of_nextBang {chars after : List Char} {token : Token}
    (h : nextBang chars = some (token, after)) : Recognized token := by
  intro other _
  unfold nextBang at h
  split at h
  case h_1 rest =>
    obtain ⟨⟨content, after'⟩, hfound, hsame⟩ := Option.map_eq_some_iff.mp h
    obtain ⟨rfl, rfl⟩ := Prod.mk.inj hsame
    have hcut := Text.cutAtMark_append (List.cons_ne_nil _ _) hfound other
    have hwritten : (Token.comment content).written ++ other =
        '<' :: '!' :: '-' :: '-' :: (content ++ (['-', '-', '>'] ++ other)) := by simp [Token.written]
    rw [hwritten]
    exact congrArg (followed .comment) hcut
  case h_2 rest =>
    obtain ⟨⟨content, after'⟩, hfound, hsame⟩ := Option.map_eq_some_iff.mp h
    obtain ⟨rfl, rfl⟩ := Prod.mk.inj hsame
    have hcut := Text.cutAtMark_append (List.cons_ne_nil _ _) hfound other
    have hwritten : (Token.verbatim content).written ++ other =
        '<' :: '!' :: '[' :: 'C' :: 'D' :: 'A' :: 'T' :: 'A' :: '[' :: (content ++ ([']', ']', '>'] ++ other)) := by
      simp [Token.written]
    rw [hwritten]
    exact congrArg (followed .verbatim) hcut
  case h_3 =>
    split at h
    case h_2 => cases h
    case h_1 content after' hfound =>
      obtain ⟨doctype, hdoctype, hsame⟩ := Option.map_eq_some_iff.mp h
      obtain ⟨rfl, rfl⟩ := Prod.mk.inj hsame
      have hcut := cutBalanced_append hfound other
      unfold doctypeOf? at hdoctype
      split at hdoctype
      case isFalse => cases hdoctype
      case isTrue hname =>
        obtain rfl := Option.some.inj hdoctype
        have hwritten : (Token.doctype content).written ++ other = '<' :: '!' :: (content ++ '>' :: other) := by
          simp [Token.written]
        rw [hwritten]
        exact nextBang_doctype hname hcut

theorem nextInstruction_eq {chars : List Char} (h : ∀ c ∈ chars.head?, c ≠ '>') :
    nextInstruction chars = followed instructionOf (Text.cutAtMark ['?', '>'] chars) := by
  unfold nextInstruction
  split
  · exact absurd rfl (h '>' rfl)
  · rfl

theorem recognized_of_nextInstruction {chars after : List Char} {token : Token}
    (h : nextInstruction chars = some (token, after)) : Recognized token := by
  intro other _
  have hhead : ∀ c ∈ chars.head?, c ≠ '>' := by
    rintro c hc rfl
    obtain ⟨rest, rfl⟩ := List.head?_eq_some_iff.mp hc
    cases h
  rw [nextInstruction_eq hhead] at h
  obtain ⟨⟨content, after'⟩, hfound, hsame⟩ := Option.map_eq_some_iff.mp h
  obtain ⟨rfl, rfl⟩ := Prod.mk.inj hsame
  have hwritten : (instructionOf content).written ++ other =
      '<' :: '?' :: (content ++ (['?', '>'] ++ other)) := by simp [written_instructionOf]
  rw [Text.append_of_cutAtMark hfound, List.cons_append, head?_append_cons _ _ (['>'] ++ other)] at hhead
  rw [hwritten]
  exact (nextInstruction_eq hhead).trans
    (congrArg (followed instructionOf) (Text.cutAtMark_append (List.cons_ne_nil _ _) hfound other))

theorem next_tag {rest : List Char} (h : ∀ c ∈ rest.head?, c ∉ ['!', '?', '/']) :
    next '<' rest = followed tagOf (cutTag none rest) := by
  unfold next
  rw [if_pos rfl]
  split
  · exact absurd (by decide) (h '!' rfl)
  · exact absurd (by decide) (h '?' rfl)
  · exact absurd (by decide) (h '/' rfl)
  · rfl

theorem next_text {c : Char} (hc : endsText c = false) (rest : List Char) :
    next c rest = some (.text (c :: rest.takeWhile (!endsText ·)), rest.dropWhile (!endsText ·)) := by
  have hopen : c ≠ '<' := by
    rintro rfl
    cases hc
  have hreference : c ≠ '&' := by
    rintro rfl
    cases hc
  unfold next
  rw [if_neg hopen, if_neg hreference]

/-- Text is read back where it ends. -/
theorem recognized_text {c : Char} {content : List Char} (h : ∀ d ∈ c :: content, endsText d = false) :
    Recognized (.text (c :: content)) := by
  intro after hdetached
  have hcontent : ∀ d ∈ content, (!endsText d) = true := by
    intro d hd
    rw [h d (List.mem_cons_of_mem c hd)]
    rfl
  have hstop : after.takeWhile (!endsText ·) = [] ∧ after.dropWhile (!endsText ·) = after := by
    cases after with
    | nil => exact ⟨rfl, rfl⟩
    | cons a rest =>
      have ha : endsText a = true := hdetached rfl a rfl
      simp [ha]
  have hnext := next_text (h c List.mem_cons_self) (content ++ after)
  rw [List.takeWhile_append_of_pos hcontent, List.dropWhile_append_of_pos hcontent, hstop.1, hstop.2,
    List.append_nil] at hnext
  exact hnext

/-- A token that was read is read back. -/
theorem recognized_of_next {c : Char} {rest after : List Char} {token : Token}
    (h : next c rest = some (token, after)) : Recognized token := by
  by_cases hopen : c = '<'
  · subst hopen
    unfold next at h
    rw [if_pos rfl] at h
    split at h
    case h_1 => exact recognized_of_nextBang h
    case h_2 => exact recognized_of_nextInstruction h
    case h_3 =>
      obtain ⟨⟨content, after'⟩, hfound, hsame⟩ := Option.map_eq_some_iff.mp h
      obtain ⟨rfl, rfl⟩ := Prod.mk.inj hsame
      intro other _
      have hwritten : (Token.closeTag content).written ++ other = '<' :: '/' :: (content ++ '>' :: other) := by
        simp [Token.written]
      rw [hwritten]
      exact congrArg (followed .closeTag) (cutTag_append hfound other)
    case h_4 hbang hquestion hslash =>
      obtain ⟨⟨content, after'⟩, hfound, hsame⟩ := Option.map_eq_some_iff.mp h
      obtain ⟨rfl, rfl⟩ := Prod.mk.inj hsame
      intro other _
      have hhead : ∀ c ∈ rest.head?, c ∉ ['!', '?', '/'] := by
        intro c hc hmem
        obtain ⟨tail, rfl⟩ := List.head?_eq_some_iff.mp hc
        simp only [List.mem_cons, List.not_mem_nil, or_false] at hmem
        rcases hmem with rfl | rfl | rfl
        · exact hbang tail rfl
        · exact hquestion tail rfl
        · exact hslash tail rfl
      have hwritten : (tagOf content).written ++ other = '<' :: (content ++ '>' :: other) := by
        simp [written_tagOf]
      rw [append_of_cutTag hfound, head?_append_cons _ _ other] at hhead
      rw [hwritten]
      exact (next_tag hhead).trans (congrArg (followed tagOf) (cutTag_append hfound other))
  · by_cases hreference : c = '&'
    · subst hreference
      unfold next at h
      rw [if_neg hopen, if_pos rfl] at h
      obtain ⟨⟨content, after'⟩, hfound, hsame⟩ := Option.map_eq_some_iff.mp h
      obtain ⟨rfl, rfl⟩ := Prod.mk.inj hsame
      intro other _
      have hwritten : (Token.reference content).written ++ other = '&' :: (content ++ ';' :: other) := by
        simp [Token.written]
      rw [hwritten]
      exact congrArg (followed .reference) (cutReference_append hfound other)
    · unfold next at h
      rw [if_neg hopen, if_neg hreference] at h
      obtain ⟨rfl, rfl⟩ := Prod.mk.inj (Option.some.inj h)
      refine recognized_text fun d hd => ?_
      rcases List.mem_cons.mp hd with rfl | hd
      · simp [endsText, hopen, hreference]
      · have hin := List.all_eq_true.mp List.all_takeWhile d hd
        rwa [Bool.not_eq_true'] at hin

theorem isText_tagOf (content : List Char) : (tagOf content).isText = false := by
  unfold tagOf
  split <;> rfl

theorem isText_instructionOf (content : List Char) : (instructionOf content).isText = false := by
  unfold instructionOf
  split
  · rfl
  · split <;> rfl
  · rfl

theorem isText_of_nextBang {chars after : List Char} {token : Token} (h : nextBang chars = some (token, after)) :
    token.isText = false := by
  unfold nextBang at h
  split at h
  · obtain ⟨parts, -, hsame⟩ := Option.map_eq_some_iff.mp h
    obtain ⟨rfl, -⟩ := Prod.mk.inj hsame
    rfl
  · obtain ⟨parts, -, hsame⟩ := Option.map_eq_some_iff.mp h
    obtain ⟨rfl, -⟩ := Prod.mk.inj hsame
    rfl
  · split at h
    · obtain ⟨doctype, hdoctype, hsame⟩ := Option.map_eq_some_iff.mp h
      obtain ⟨rfl, -⟩ := Prod.mk.inj hsame
      unfold doctypeOf? at hdoctype
      split at hdoctype
      · obtain rfl := Option.some.inj hdoctype
        rfl
      · cases hdoctype
    · cases h

/-- Text is what starts neither a tag nor a reference. -/
theorem isText_of_next {c : Char} {rest after : List Char} {token : Token}
    (h : next c rest = some (token, after)) : token.isText = !endsText c := by
  unfold next at h
  split at h
  case isTrue hopen =>
    subst hopen
    change token.isText = false
    split at h
    case h_1 => exact isText_of_nextBang h
    case h_2 =>
      unfold nextInstruction at h
      split at h
      · cases h
      · obtain ⟨parts, -, hsame⟩ := Option.map_eq_some_iff.mp h
        obtain ⟨rfl, -⟩ := Prod.mk.inj hsame
        exact isText_instructionOf parts.1
    case h_3 =>
      obtain ⟨parts, -, hsame⟩ := Option.map_eq_some_iff.mp h
      obtain ⟨rfl, -⟩ := Prod.mk.inj hsame
      rfl
    case h_4 =>
      obtain ⟨parts, -, hsame⟩ := Option.map_eq_some_iff.mp h
      obtain ⟨rfl, -⟩ := Prod.mk.inj hsame
      exact isText_tagOf parts.1
  case isFalse hopen =>
    split at h
    case isTrue hreference =>
      subst hreference
      obtain ⟨parts, -, hsame⟩ := Option.map_eq_some_iff.mp h
      obtain ⟨rfl, -⟩ := Prod.mk.inj hsame
      rfl
    case isFalse hreference =>
      obtain ⟨rfl, -⟩ := Prod.mk.inj (Option.some.inj h)
      simp [Token.isText, endsText, hopen, hreference]

theorem Recognized.written_ne_nil {token : Token} (h : Recognized token) : token.written ≠ [] := by
  intro hnil
  have hdetached : Detached token [] := by
    intro _ c hc
    cases hc
  have hfirst := h [] hdetached
  rw [hnil] at hfirst
  cases hfirst

/-! ## Rows of tokens -/

/-- What may stand side by side: no two pieces of text. -/
def Apart (left right : Token) : Prop := left.isText → right.isText = false

/-- What is not text starts with a mark that ends text. -/
theorem endsText_of_head? {token : Token} (htext : token.isText = false) {after : List Char} {c : Char}
    (hc : c ∈ (token.written ++ after).head?) : endsText c = true := by
  cases token with
  | text content => cases htext
  | _ =>
    obtain rfl := Option.some.inj hc
    rfl

theorem tokens?_of_first? {chars after : List Char} {token : Token} (h : first? chars = some (token, after)) :
    tokens? chars = (tokens? after).map (token :: ·) := by
  cases chars with
  | nil => cases h
  | cons c rest =>
    have hnext : next c rest = some (token, after) := h
    rw [tokens?]
    split
    · rename_i hread
      obtain ⟨rfl, rfl⟩ := Prod.mk.inj (Option.some.inj (hread.symm.trans hnext))
      rfl
    · rename_i hread
      cases hread.symm.trans hnext

theorem tokens?_written {tokens : List Token} (hrecognized : ∀ token ∈ tokens, Recognized token)
    (hapart : tokens.IsChain Apart) : tokens? (tokens.flatMap Token.written) = some tokens := by
  induction tokens with
  | nil => rw [List.flatMap_nil, tokens?]
  | cons token rest ih =>
    have hrest := ih (fun other hmem => hrecognized other (List.mem_cons_of_mem token hmem)) hapart.tail
    have hdetached : Detached token (rest.flatMap Token.written) := by
      intro htext c hc
      cases rest with
      | nil => cases hc
      | cons following rest =>
        rw [List.flatMap_cons] at hc
        exact endsText_of_head? (hapart.rel htext) hc
    have hfirst := hrecognized token List.mem_cons_self _ hdetached
    rw [List.flatMap_cons, tokens?_of_first? hfirst, hrest]
    rfl

theorem first?_of_tokens? {chars : List Char} {token : Token} {rest : List Token}
    (h : tokens? chars = some (token :: rest)) : ∃ after, first? chars = some (token, after) ∧
      tokens? after = some rest := by
  cases chars with
  | nil =>
    rw [tokens?] at h
    cases h
  | cons c chars =>
    rw [tokens?] at h
    split at h
    · rename_i found after hread
      obtain ⟨more, hmore, hsame⟩ := Option.map_eq_some_iff.mp h
      obtain ⟨rfl, rfl⟩ := List.cons.inj hsame
      exact ⟨after, hread, hmore⟩
    · cases h

theorem recognized_of_tokens? {chars : List Char} {tokens : List Token} (h : tokens? chars = some tokens) :
    ∀ token ∈ tokens, Recognized token := by
  fun_induction tokens? chars generalizing tokens with
  | case1 =>
    obtain rfl := Option.some.inj h
    intro token hmem
    cases hmem
  | case2 c rest token after hread ih =>
    obtain ⟨more, hmore, rfl⟩ := Option.map_eq_some_iff.mp h
    intro other hmem
    rcases List.mem_cons.mp hmem with rfl | hmem
    · exact recognized_of_next hread
    · exact ih hmore other hmem
  | case3 => cases h

theorem apart_of_tokens? {chars : List Char} {tokens : List Token} (h : tokens? chars = some tokens) :
    tokens.IsChain Apart := by
  fun_induction tokens? chars generalizing tokens with
  | case1 =>
    obtain rfl := Option.some.inj h
    exact .nil
  | case2 c rest token after hread ih =>
    obtain ⟨more, hmore, rfl⟩ := Option.map_eq_some_iff.mp h
    refine (ih hmore).cons fun following hfollowing htext => ?_
    -- text runs up to a character that ends text, and the next token starts with that one
    have hc : endsText c = false := by
      rw [isText_of_next hread] at htext
      rwa [Bool.not_eq_true'] at htext
    rw [next_text hc] at hread
    obtain ⟨-, rfl⟩ := Prod.mk.inj (Option.some.inj hread)
    obtain ⟨others, rfl⟩ := List.head?_eq_some_iff.mp hfollowing
    obtain ⟨rest', hfirst, -⟩ := first?_of_tokens? hmore
    rcases hafter : rest.dropWhile (!endsText ·) with _ | ⟨d, after⟩
    · rw [hafter] at hfirst
      cases hfirst
    · rw [hafter] at hfirst
      have hd : (!endsText d) = false := by
        have hhead := List.head?_dropWhile_not (!endsText ·) rest
        rw [hafter] at hhead
        simpa using hhead
      rw [isText_of_next hfirst]
      exact hd
  | case3 => cases h

end ModuleAudit.Markup
