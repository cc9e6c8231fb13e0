import ModuleAudit.Markup.Element
import ModuleAudit.Proofs.Text

/-! What a tag says: a name, and attributes with their values. The grammar relates what is written in a tag to what it
says, and reading a tag accepts exactly what the grammar derives (`ofTag?_eq_some_iff`). -/

namespace ModuleAudit
set_option autoImplicit false

namespace Markup

/-! ## Names -/

/-- A full name and what it is without its namespace. -/
inductive LocalName : List Char → List Char → Prop
  | plain {name : List Char} (h : ':' ∉ name) : LocalName name name
  | qualified {space name : List Char} (h : ':' ∉ space) : LocalName (space ++ ':' :: name) name

theorem localName_eq_iff {full name : List Char} : localName full = name ↔ LocalName full name := by
  constructor
  · rintro rfl
    unfold localName
    split
    case h_1 space rest hcut =>
      obtain ⟨hspace, rfl⟩ := Text.cutFirst_eq_some_iff.mp hcut
      exact .qualified hspace
    case h_2 hcut => exact .plain (Text.cutFirst_eq_none hcut)
  · intro h
    cases h with
    | plain h =>
      unfold localName
      split
      case h_1 space rest hcut =>
        obtain ⟨-, rfl⟩ := Text.cutFirst_eq_some_iff.mp hcut
        exact absurd (List.mem_append_right space List.mem_cons_self) h
      case h_2 => rfl
    | qualified h => rw [localName, Text.cutFirst_eq_some_iff.mpr ⟨h, rfl⟩]

/-! ## Values -/

/-- A value as it is written, and what it says. -/
inductive Resolved : List Char → List Char → Prop
  | nil : Resolved [] []
  | plain {c : Char} {raw value : List Char} (h : c ≠ '&') (more : Resolved raw value) :
      Resolved (c :: raw) (c :: value)
  | reference {name raw value : List Char} {c : Char} (inside : ∀ d ∈ name, d ≠ ';' ∧ d ≠ '&')
      (h : entity? name = some c) (more : Resolved raw value) : Resolved ('&' :: (name ++ ';' :: raw)) (c :: value)

theorem unescapeIn_of_resolved {raw value : List Char} (h : Resolved raw value) {room : Nat}
    (hroom : raw.length ≤ room) : unescapeIn room raw = some value := by
  induction h generalizing room with
  | nil => cases room <;> rfl
  | @plain c raw value hc more ih =>
    cases room with
    | zero => cases hroom
    | succ room =>
      rw [unescapeIn, if_neg hc, ih (Nat.le_of_succ_le_succ hroom)]
      rfl
  | @reference name raw value c inside hc more ih =>
    cases room with
    | zero => cases hroom
    | succ room =>
      have hlength : raw.length ≤ room := by
        rw [List.length_cons, List.length_append, List.length_cons] at hroom
        omega
      have hspan : (name ++ ';' :: raw).takeWhile (fun c => c ≠ ';' && c ≠ '&') = name ∧
          (name ++ ';' :: raw).dropWhile (fun c => c ≠ ';' && c ≠ '&') = ';' :: raw := by
        refine Text.span_append_cons (fun d hd => ?_) rfl
        simp [inside d hd]
      rw [unescapeIn, if_pos rfl, hspan.1, hspan.2]
      simp only [hc, ih hlength, Option.bind_eq_bind, Option.bind_some, Option.pure_def]

theorem resolved_of_unescapeIn {room : Nat} {raw value : List Char} (hroom : raw.length ≤ room)
    (h : unescapeIn room raw = some value) : Resolved raw value := by
  -- on the room and not on what is written: a reference takes several characters at once
  induction room generalizing raw value with
  | zero =>
    obtain rfl := List.eq_nil_of_length_eq_zero (Nat.le_zero.mp hroom)
    cases h
    exact .nil
  | succ room ih =>
    cases raw with
    | nil =>
      cases h
      exact .nil
    | cons c rest =>
      rw [List.length_cons] at hroom
      rw [unescapeIn] at h
      split at h
      case isFalse hc =>
        obtain ⟨more, hmore, rfl⟩ := Option.map_eq_some_iff.mp h
        exact .plain hc (ih (by omega) hmore)
      case isTrue hc =>
        subst hc
        split at h
        case h_2 => cases h
        case h_1 after hdrop =>
          obtain ⟨c, hc, hrest⟩ := Option.bind_eq_some_iff.mp h
          obtain ⟨more, hmore, hvalue⟩ := Option.bind_eq_some_iff.mp hrest
          cases hvalue
          have hsplit := List.takeWhile_append_dropWhile (p := fun c => c ≠ ';' && c ≠ '&') (l := rest)
          rw [hdrop] at hsplit
          have hlength : after.length ≤ room := by
            have hcount := congrArg List.length hsplit
            rw [List.length_append, List.length_cons] at hcount
            omega
          have hresolved : Resolved ('&' :: (rest.takeWhile (fun c => c ≠ ';' && c ≠ '&') ++ ';' :: after))
              (c :: more) := by
            refine .reference (fun d hd => ?_) hc (ih hlength hmore)
            simpa using List.all_eq_true.mp List.all_takeWhile d hd
          rwa [hsplit] at hresolved

theorem unescape?_eq_some_iff {raw value : List Char} : unescape? raw = some value ↔ Resolved raw value :=
  ⟨resolved_of_unescapeIn (Nat.le_refl _), fun h => unescapeIn_of_resolved h (Nat.le_refl _)⟩

/-! ## Attributes -/

/-- The name of an attribute goes on up to a blank or an equals sign, but may start with the sign. -/
def IsKey (name : List Char) : Prop :=
  ∃ first rest, name = first :: rest ∧ isTagBlank first = false ∧ ∀ c ∈ rest, c ≠ '=' ∧ isTagBlank c = false

/-- An attribute as it is written. -/
inductive Attribute.Written : Attribute → List Char → Prop
  | intro {name before after raw value : List Char} {quote : Char} (is_key : IsKey name)
      (blank_before : ∀ c ∈ before, isTagBlank c = true) (blank_after : ∀ c ∈ after, isTagBlank c = true)
      (quoted : isQuote quote = true) (closed : quote ∉ raw) (resolved : Resolved raw value) :
      Written ⟨name, value⟩ (name ++ (before ++ '=' :: (after ++ quote :: (raw ++ [quote]))))

theorem Attribute.Written.length_pos {found : Attribute} {chars : List Char} (h : found.Written chars) :
    0 < chars.length := by
  cases h with
  | intro =>
    simp only [List.length_append, List.length_cons]
    omega

theorem isTagBlank_of_isQuote {c : Char} (h : isQuote c = true) : isTagBlank c = false := by
  rcases Bool.or_eq_true_iff.mp h with hc | hc
  · rw [eq_of_beq hc]
    rfl
  · rw [eq_of_beq hc]
    rfl

theorem readAttribute_of_written {found : Attribute} {chars : List Char} (h : found.Written chars)
    (after : List Char) : ∃ first rest, isTagBlank first = false ∧ chars ++ after = first :: rest ∧
      readAttribute first rest = some (found, after) := by
  cases h with
  | @intro name before gap raw value quote is_key blank_before blank_after quoted closed resolved =>
    obtain ⟨first, rest, rfl, hfirst, hrest⟩ := is_key
    -- the name ends at the first blank, or at the equals sign if none stands before it
    have hstop : ∀ c ∈ (before ++ '=' :: (gap ++ quote :: (raw ++ quote :: after))).head?,
        (c != '=' && !isTagBlank c) = false := by
      intro c hc
      cases before with
      | nil =>
        obtain rfl := Option.some.inj hc
        rfl
      | cons b before =>
        obtain rfl := Option.some.inj hc
        simp [blank_before b List.mem_cons_self]
    have hinside : ∀ c ∈ rest, (c != '=' && !isTagBlank c) = true := fun c hc => by simp [hrest c hc]
    have hname := Text.span_append hinside hstop
    have hbefore : ((before ++ '=' :: (gap ++ quote :: (raw ++ quote :: after))).dropWhile isTagBlank) =
        '=' :: (gap ++ quote :: (raw ++ quote :: after)) := (Text.span_append_cons blank_before rfl).2
    have hgap : ((gap ++ quote :: (raw ++ quote :: after)).dropWhile isTagBlank) = quote :: (raw ++ quote :: after) :=
      (Text.span_append_cons blank_after (isTagBlank_of_isQuote quoted)).2
    have hcut : Text.cutFirst quote (raw ++ quote :: after) = some (raw, after) :=
      Text.cutFirst_eq_some_iff.mpr ⟨closed, rfl⟩
    refine ⟨first, rest ++ (before ++ '=' :: (gap ++ quote :: (raw ++ quote :: after))), hfirst, by simp, ?_⟩
    rw [readAttribute]
    simp only [hname, hbefore, hgap, if_pos quoted, hcut, unescape?_eq_some_iff.mpr resolved, Option.bind_eq_bind,
      Option.bind_some, Option.pure_def]

theorem written_of_readAttribute {first : Char} {rest after : List Char} {found : Attribute}
    (hfirst : isTagBlank first = false) (h : readAttribute first rest = some (found, after)) :
    ∃ chars, found.Written chars ∧ first :: rest = chars ++ after := by
  obtain ⟨name, tail, rfl, hname, htail⟩ := Text.exists_span (fun c => c != '=' && !isTagBlank c) rest
  obtain ⟨before, tail', rfl, hbefore, htail'⟩ := Text.exists_span isTagBlank tail
  have hspan := Text.span_append hname htail
  have hspan' := Text.span_append hbefore htail'
  rw [readAttribute] at h
  simp only [hspan, hspan'] at h
  split at h
  case h_2 => cases h
  case h_1 _ equal =>
    obtain ⟨gap, tail'', rfl, hgap, htail''⟩ := Text.exists_span isTagBlank equal
    have hspan'' := Text.span_append hgap htail''
    simp only [hspan''] at h
    split at h
    case h_2 => cases h
    case h_1 _ quote quoted =>
      split at h
      case isFalse => cases h
      case isTrue isQuoted =>
        obtain ⟨⟨raw, after'⟩, hcut, hvalue⟩ := Option.bind_eq_some_iff.mp h
        obtain ⟨value, hresolved, hfound⟩ := Option.bind_eq_some_iff.mp hvalue
        cases hfound
        obtain ⟨closed, rfl⟩ := Text.cutFirst_eq_some_iff.mp hcut
        refine ⟨_, .intro ⟨first, name, rfl, hfirst, fun c hc => ?_⟩ hbefore hgap isQuoted closed
          (unescape?_eq_some_iff.mp hresolved), by simp⟩
        simpa using hname c hc

/-- The attributes of a tag in a row: their full names, and what they say. -/
inductive Listed : List Char → List (List Char) → List (String × String) → Prop
  | nil {blanks : List Char} (h : ∀ c ∈ blanks, isTagBlank c = true) : Listed blanks [] []
  | cons {gap chars rest : List Char} {found : Attribute} {key : String} {names : List (List Char)}
      {pairs : List (String × String)} (h : ∀ c ∈ gap, isTagBlank c = true) (written : found.Written chars)
      (named : LocalName found.name key.toList) (fresh : found.name ∉ names) (more : Listed rest names pairs) :
      Listed (gap ++ (chars ++ rest)) (found.name :: names) ((key, String.ofList found.value) :: pairs)

/-- What an attribute says. -/
def Attribute.pair (found : Attribute) : String × String :=
  (String.ofList (localName found.name), String.ofList found.value)

theorem attributesIn_of_listed {chars : List Char} {names : List (List Char)} {pairs : List (String × String)}
    (h : Listed chars names pairs) {seen : List (List Char)} (hseen : ∀ name ∈ names, name ∉ seen) {room : Nat}
    (hroom : chars.length ≤ room) : ∃ attributes, attributesIn room seen chars = some attributes ∧
      attributes.map Attribute.pair = pairs := by
  induction h generalizing seen room with
  | nil h =>
    refine ⟨[], ?_, rfl⟩
    cases room with
    | zero => rfl
    | succ room => rw [attributesIn, List.dropWhile_eq_nil_iff.mpr h]
  | @cons gap chars rest found key names pairs h written named fresh more ih =>
    obtain ⟨first, tail, hfirst, hchars, hread⟩ := readAttribute_of_written written rest
    rw [hchars] at hroom ⊢
    cases room with
    | zero =>
      rw [List.length_append, List.length_cons] at hroom
      omega
    | succ room =>
      have hlength : rest.length ≤ room := by
        have hcount := congrArg List.length hchars
        have hpos := written.length_pos
        rw [List.length_append] at hcount hroom
        omega
      -- names are compared with those before them when they are read, and with those after them in a list
      have hnew : ∀ name ∈ names, name ∉ found.name :: seen := by
        intro name hname hmem
        rcases List.mem_cons.mp hmem with rfl | hmem
        · exact fresh hname
        · exact hseen name (List.mem_cons_of_mem _ hname) hmem
      obtain ⟨attributes, hattributes, rfl⟩ := ih hnew hlength
      refine ⟨found :: attributes, ?_, ?_⟩
      · rw [attributesIn, (Text.span_append_cons h hfirst).2]
        simp only [hread, Option.bind_eq_bind, Option.bind_some, if_neg (hseen _ List.mem_cons_self), hattributes,
          Option.pure_def]
      · rw [List.map_cons, Attribute.pair, localName_eq_iff.mpr named, String.ofList_toList]

theorem listed_of_attributesIn {room : Nat} {seen : List (List Char)} {chars : List Char}
    {attributes : List Attribute} (hroom : chars.length ≤ room)
    (h : attributesIn room seen chars = some attributes) :
    Listed chars (attributes.map Attribute.name) (attributes.map Attribute.pair) ∧
      ∀ found ∈ attributes, found.name ∉ seen := by
  induction room generalizing seen chars attributes with
  | zero =>
    obtain rfl := List.eq_nil_of_length_eq_zero (Nat.le_zero.mp hroom)
    cases h
    exact ⟨.nil fun _ hc => absurd hc List.not_mem_nil, fun _ hc => absurd hc List.not_mem_nil⟩
  | succ room ih =>
    obtain ⟨gap, tail, rfl, hgap, htail⟩ := Text.exists_span isTagBlank chars
    rw [attributesIn, (Text.span_append hgap htail).2] at h
    cases tail with
    | nil =>
      cases h
      rw [List.append_nil]
      exact ⟨.nil hgap, fun _ hc => absurd hc List.not_mem_nil⟩
    | cons first rest =>
      obtain ⟨⟨found, after⟩, hread, hmore⟩ := Option.bind_eq_some_iff.mp h
      obtain ⟨written, hwritten, hchars⟩ := written_of_readAttribute (htail first rfl) hread
      dsimp only at hmore
      split at hmore
      case isTrue => cases hmore
      case isFalse hnew =>
        obtain ⟨more, hattributes, hall⟩ := Option.bind_eq_some_iff.mp hmore
        cases hall
        have hlength : after.length ≤ room := by
          have hpos := hwritten.length_pos
          rw [hchars, List.length_append, List.length_append] at hroom
          omega
        obtain ⟨hlisted, hseen⟩ := ih hlength hattributes
        have hnamed : LocalName found.name (String.ofList (localName found.name)).toList := by
          rw [String.toList_ofList]
          exact localName_eq_iff.mp rfl
        rw [hchars]
        refine ⟨.cons hgap hwritten hnamed ?_ hlisted, ?_⟩
        · rw [List.mem_map]
          rintro ⟨other, hother, hname⟩
          exact hseen other hother (hname ▸ List.mem_cons_self)
        · intro other hother
          rcases List.mem_cons.mp hother with rfl | hother
          · exact hnew
          · exact fun hmem => hseen other hother (List.mem_cons_of_mem _ hmem)

/-! ## Tags -/

/-- What is written in a tag, and the name and the attributes that it says. -/
inductive TagSays : List Char → String → List (String × String) → Prop
  | intro {full chars : List Char} {name : String} {names : List (List Char)} {pairs : List (String × String)}
      (unbroken : ∀ c ∈ full, isTagBlank c = false) (parted : ∀ c ∈ chars.head?, isTagBlank c = true)
      (named : LocalName full name.toList) (listed : Listed chars names pairs) : TagSays (full ++ chars) name pairs

theorem ofTag?_eq_some_iff {content : List Char} {name : String} {pairs : List (String × String)} :
    Element.ofTag? content = some ⟨name, pairs, []⟩ ↔ TagSays content name pairs := by
  constructor
  · intro h
    obtain ⟨attributes, hattributes, helement⟩ := Option.map_eq_some_iff.mp h
    cases helement
    obtain ⟨full, chars, rfl, hfull, hchars⟩ := Text.exists_span (!isTagBlank ·) content
    have hspan := Text.span_append hfull hchars
    rw [attributes?, hspan.2] at hattributes
    rw [elementName, tagName, hspan.1]
    refine .intro (fun c hc => ?_) (fun c hc => ?_) ?_ (listed_of_attributesIn (Nat.le_refl _) hattributes).1
    · simpa using hfull c hc
    · simpa using hchars c hc
    · rw [String.toList_ofList]
      exact localName_eq_iff.mp rfl
  · intro h
    cases h with
    | @intro full chars name names pairs unbroken parted named listed =>
      have hfull : ∀ c ∈ full, (!isTagBlank c) = true := fun c hc => by simp [unbroken c hc]
      have hchars : ∀ c ∈ chars.head?, (!isTagBlank c) = false := fun c hc => by simp [parted c hc]
      have hspan := Text.span_append hfull hchars
      obtain ⟨attributes, hattributes, rfl⟩ :=
        attributesIn_of_listed listed (fun _ _ => List.not_mem_nil) (Nat.le_refl _)
      rw [Element.ofTag?, attributes?, hspan.2, hattributes, elementName, tagName, hspan.1,
        localName_eq_iff.mpr named, String.ofList_toList]
      rfl

end Markup

end ModuleAudit
