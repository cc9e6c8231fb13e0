import ModuleAudit.Text.Blank
import ModuleAudit.Text.Split

/-! # Tokens of markup

Markup is a row of tags, text, references and the constructs that start with `<!` and `<?`. A token keeps
what stands between its marks, so that it can be written again as it was; the main statement is that the
tokens of a text, written one after the other, are the text.
-/

namespace ModuleAudit.Markup
set_option autoImplicit false

inductive Token where
  | openTag (content : List Char)
  | emptyTag (content : List Char)
  | closeTag (content : List Char)
  | text (content : List Char)
  /-- Text in which nothing has a meaning. -/
  | verbatim (content : List Char)
  | reference (content : List Char)
  | comment (content : List Char)
  | instruction (content : List Char)
  /-- The declaration that a document is markup. -/
  | declaration (content : List Char)
  | doctype (content : List Char)
  deriving Repr, DecidableEq

/-- A token as it is written. -/
def Token.written : Token → List Char
  | .openTag content => '<' :: content ++ ['>']
  | .emptyTag content => '<' :: content ++ ['/', '>']
  | .closeTag content => '<' :: '/' :: content ++ ['>']
  | .text content => content
  | .verbatim content => '<' :: '!' :: '[' :: 'C' :: 'D' :: 'A' :: 'T' :: 'A' :: '[' :: content ++ [']', ']', '>']
  | .reference content => '&' :: content ++ [';']
  | .comment content => '<' :: '!' :: '-' :: '-' :: content ++ ['-', '-', '>']
  | .instruction content | .declaration content => '<' :: '?' :: content ++ ['?', '>']
  | .doctype content => '<' :: '!' :: content ++ ['>']

/-! ## Finding the end of a token -/

/-- Whether a character opens and closes a quoted value. -/
def isQuote (c : Char) : Bool := c == '"' || c == '\''

/-- The parts of a text before and after the first `>` outside quotes; `quote` is the open quote. -/
def cutTag : Option Char → List Char → Option (List Char × List Char)
  | _, [] => none
  | none, c :: rest =>
    if c = '>' then some ([], rest)
    else (cutTag (if isQuote c then some c else none) rest).map fun (inside, after) => (c :: inside, after)
  | some quote, c :: rest =>
    (cutTag (if c = quote then none else some quote) rest).map fun (inside, after) => (c :: inside, after)

/-- The parts of a text before and after the `>` that closes as many `<` as were opened. -/
def cutBalanced : Nat → List Char → Option (List Char × List Char)
  | _, [] => none
  | opened, c :: rest =>
    if c = '>' then
      match opened with
      | 0 => some ([], rest)
      | opened + 1 => (cutBalanced opened rest).map fun (inside, after) => (c :: inside, after)
    else
      (cutBalanced (if c = '<' then opened + 1 else opened) rest).map fun (inside, after) => (c :: inside, after)

/-- The parts of a text before and after a semicolon that comes before any `&` and `<`. -/
def cutReference : List Char → Option (List Char × List Char)
  | [] => none
  | c :: rest =>
    if c = ';' then some ([], rest)
    else if c = '&' ∨ c = '<' then none
    else (cutReference rest).map fun (inside, after) => (c :: inside, after)

/-! ## What a token is -/

/-- The tag with a content; a slash at its end makes it empty. -/
def tagOf (content : List Char) : Token :=
  match content.getLast? with
  | some '/' => .emptyTag content.dropLast
  | _ => .openTag content

/-- The instruction with a content, which is the declaration when its name is `xml`. -/
def instructionOf (content : List Char) : Token :=
  match content with
  | ['x', 'm', 'l'] => .declaration content
  | 'x' :: 'm' :: 'l' :: c :: _ => if isTagBlank c then .declaration content else .instruction content
  | _ => .instruction content

/-- The name of the doctype construct, which is read in either case. -/
def doctypeName : List Char := ['D', 'O', 'C', 'T', 'Y', 'P', 'E']

/-- The doctype with a content: the name, and after it something that is not blank. -/
def doctypeOf? (content : List Char) : Option Token :=
  if (content.take 7).map Char.toUpper = doctypeName ∧ (content.drop 7).any (fun c => !isTagBlank c) then
    some (.doctype content)
  else none

def followed (token : List Char → Token) (parts : Option (List Char × List Char)) :
    Option (Token × List Char) :=
  parts.map fun (content, after) => (token content, after)

def nextBang (chars : List Char) : Option (Token × List Char) :=
  match chars with
  | '-' :: '-' :: rest => followed .comment (Text.cutAtMark ['-', '-', '>'] rest)
  | '[' :: 'C' :: 'D' :: 'A' :: 'T' :: 'A' :: '[' :: rest =>
    followed .verbatim (Text.cutAtMark [']', ']', '>'] rest)
  | _ =>
    match cutBalanced 0 chars with
    | some (content, after) => (doctypeOf? content).map (·, after)
    | none => none

/-- The token after `<?`; the question mark that opens it does not close it. -/
def nextInstruction (chars : List Char) : Option (Token × List Char) :=
  match chars with
  | '>' :: _ => none
  | _ => followed instructionOf (Text.cutAtMark ['?', '>'] chars)

def endsText (c : Char) : Bool := c == '<' || c == '&'

/-- The first token of a text that starts with `c`. -/
def next (c : Char) (rest : List Char) : Option (Token × List Char) :=
  if c = '<' then
    match rest with
    | '!' :: rest => nextBang rest
    | '?' :: rest => nextInstruction rest
    | '/' :: rest => followed .closeTag (cutTag none rest)
    | _ => followed tagOf (cutTag none rest)
  else if c = '&' then followed .reference (cutReference rest)
  else some (.text (c :: rest.takeWhile (!endsText ·)), rest.dropWhile (!endsText ·))

/-! ## Nothing is lost -/

theorem append_of_cutTag {quote : Option Char} {chars inside after : List Char}
    (h : cutTag quote chars = some (inside, after)) : chars = inside ++ '>' :: after := by
  fun_induction cutTag quote chars generalizing inside with
  | case1 => simp at h
  | case2 rest => simp_all
  | case3 c rest other ih =>
    obtain ⟨⟨inside', after'⟩, found, same⟩ := Option.map_eq_some_iff.1 h
    obtain ⟨rfl, rfl⟩ := Prod.mk.inj same
    simp [ih found]
  | case4 quote c rest ih =>
    obtain ⟨⟨inside', after'⟩, found, same⟩ := Option.map_eq_some_iff.1 h
    obtain ⟨rfl, rfl⟩ := Prod.mk.inj same
    simp [ih found]

theorem append_of_cutBalanced {opened : Nat} {chars inside after : List Char}
    (h : cutBalanced opened chars = some (inside, after)) : chars = inside ++ '>' :: after := by
  fun_induction cutBalanced opened chars generalizing inside with
  | case1 => simp at h
  | case2 rest => simp_all
  | case3 rest opened ih =>
    obtain ⟨⟨inside', after'⟩, found, same⟩ := Option.map_eq_some_iff.1 h
    obtain ⟨rfl, rfl⟩ := Prod.mk.inj same
    simp [ih found]
  | case4 opened c rest other ih =>
    obtain ⟨⟨inside', after'⟩, found, same⟩ := Option.map_eq_some_iff.1 h
    obtain ⟨rfl, rfl⟩ := Prod.mk.inj same
    simp [ih found]

theorem append_of_cutReference {chars inside after : List Char}
    (h : cutReference chars = some (inside, after)) : chars = inside ++ ';' :: after := by
  fun_induction cutReference chars generalizing inside with
  | case1 => simp at h
  | case2 => simp_all
  | case3 => simp at h
  | case4 c rest other stop ih =>
    obtain ⟨⟨inside', after'⟩, found, same⟩ := Option.map_eq_some_iff.1 h
    obtain ⟨rfl, rfl⟩ := Prod.mk.inj same
    simp [ih found]

/-- A tag is written with the brackets around its content. -/
theorem written_tagOf (content : List Char) : (tagOf content).written = '<' :: content ++ ['>'] := by
  unfold tagOf
  split
  · rename_i last
    obtain ⟨front, rfl⟩ := List.getLast?_eq_some_iff.1 last
    simp [Token.written]
  · simp [Token.written]

/-- An instruction is written with its marks around its content. -/
theorem written_instructionOf (content : List Char) :
    (instructionOf content).written = '<' :: '?' :: content ++ ['?', '>'] := by
  unfold instructionOf
  split
  · rfl
  · split <;> rfl
  · rfl

theorem written_of_nextBang {chars after : List Char} {token : Token}
    (h : nextBang chars = some (token, after)) : '<' :: '!' :: chars = token.written ++ after := by
  unfold nextBang at h
  split at h
  · obtain ⟨⟨content, rest⟩, found, same⟩ := Option.map_eq_some_iff.1 h
    obtain ⟨rfl, rfl⟩ := Prod.mk.inj same
    simp [Token.written, Text.append_of_cutAtMark found]
  · obtain ⟨⟨content, rest⟩, found, same⟩ := Option.map_eq_some_iff.1 h
    obtain ⟨rfl, rfl⟩ := Prod.mk.inj same
    simp [Token.written, Text.append_of_cutAtMark found]
  · split at h
    · rename_i content rest found
      obtain ⟨doctype, isDoctype, same⟩ := Option.map_eq_some_iff.1 h
      obtain ⟨rfl, rfl⟩ := Prod.mk.inj same
      unfold doctypeOf? at isDoctype
      split at isDoctype
      · obtain rfl := Option.some.inj isDoctype
        simp [Token.written, append_of_cutBalanced found]
      · simp at isDoctype
    · simp at h

theorem written_of_nextInstruction {chars after : List Char} {token : Token}
    (h : nextInstruction chars = some (token, after)) : '<' :: '?' :: chars = token.written ++ after := by
  unfold nextInstruction at h
  split at h
  · simp at h
  · obtain ⟨⟨content, rest⟩, found, same⟩ := Option.map_eq_some_iff.1 h
    obtain ⟨rfl, rfl⟩ := Prod.mk.inj same
    simp [written_instructionOf, Text.append_of_cutAtMark found]

/-- The first token and the rest are the text. -/
theorem written_of_next {c : Char} {rest after : List Char} {token : Token}
    (h : next c rest = some (token, after)) : c :: rest = token.written ++ after := by
  unfold next at h
  split at h
  · rename_i isOpen
    subst isOpen
    split at h
    · exact written_of_nextBang h
    · exact written_of_nextInstruction h
    · obtain ⟨⟨content, rest⟩, found, same⟩ := Option.map_eq_some_iff.1 h
      obtain ⟨rfl, rfl⟩ := Prod.mk.inj same
      simp [Token.written, append_of_cutTag found]
    · obtain ⟨⟨content, rest⟩, found, same⟩ := Option.map_eq_some_iff.1 h
      obtain ⟨rfl, rfl⟩ := Prod.mk.inj same
      simp [written_tagOf, append_of_cutTag found]
  · split at h
    · rename_i isReference
      subst isReference
      obtain ⟨⟨content, rest⟩, found, same⟩ := Option.map_eq_some_iff.1 h
      obtain ⟨rfl, rfl⟩ := Prod.mk.inj same
      simp [Token.written, append_of_cutReference found]
    · obtain ⟨rfl, rfl⟩ := Prod.mk.inj (Option.some.inj h)
      simp [Token.written]

/-- A token that was read is not written as nothing. -/
theorem written_ne_nil_of_next {c : Char} {rest after : List Char} {token : Token}
    (h : next c rest = some (token, after)) : token.written ≠ [] := by
  cases token with
  | text content =>
    intro none
    have whole := written_of_next h
    rw [none, List.nil_append] at whole
    unfold next at h
    split at h
    · split at h
      · unfold nextBang at h
        split at h
        · simp [followed] at h
        · simp [followed] at h
        · split at h
          · simp [doctypeOf?] at h
          · simp at h
      · unfold nextInstruction at h
        split at h
        · simp at h
        · simp only [followed, Option.map_eq_some_iff, Prod.mk.injEq] at h
          obtain ⟨_, -, isText, -⟩ := h
          unfold instructionOf at isText
          split at isText
          · simp at isText
          · split at isText <;> simp at isText
          · simp at isText
      · simp [followed] at h
      · simp only [followed, Option.map_eq_some_iff, Prod.mk.injEq] at h
        obtain ⟨_, -, isText, -⟩ := h
        unfold tagOf at isText
        split at isText <;> simp at isText
    · split at h
      · simp [followed] at h
      · simp only [Option.some.injEq, Prod.mk.injEq, Token.text.injEq] at h
        rw [← h.1] at none
        simp [Token.written] at none
  | _ => simp [Token.written]

/-- Reading a token leaves less of the text. -/
theorem length_lt_of_next {c : Char} {rest after : List Char} {token : Token}
    (h : next c rest = some (token, after)) : after.length < (c :: rest).length := by
  have whole := congrArg List.length (written_of_next h)
  have some := List.length_pos_iff.2 (written_ne_nil_of_next h)
  rw [List.length_append] at whole
  omega

/-! ## All tokens -/

/-- The tokens of a text, unless one of them is broken. -/
def tokens? : List Char → Option (List Token)
  | [] => some []
  | c :: rest =>
    match _read : next c rest with
    | some (token, after) => (tokens? after).map (token :: ·)
    | none => none
termination_by chars => chars.length
decreasing_by exact length_lt_of_next _read

/-- The tokens of a text, written one after the other, are the text. -/
theorem written_of_tokens? {chars : List Char} {tokens : List Token} (h : tokens? chars = some tokens) :
    tokens.flatMap Token.written = chars := by
  fun_induction tokens? chars generalizing tokens with
  | case1 => simp_all
  | case2 c rest token after read ih =>
    obtain ⟨more, found, rfl⟩ := Option.map_eq_some_iff.1 h
    simp [ih found, written_of_next read]
  | case3 => simp at h

end ModuleAudit.Markup
