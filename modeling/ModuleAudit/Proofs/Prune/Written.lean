import ModuleAudit.Proofs.Prune.Cut

/-! The text that an edit leaves is read as the tokens that stay, because no two of them are glued and no new line end
comes about. The children that stay are in the frame that they were in, so the text can be edited again. -/

namespace ModuleAudit.Prune
set_option autoImplicit false

open Markup Node

/-! ## Line ends -/

/-- Two characters that make no line end. -/
def NoLineEnd (first second : Char) : Prop := ¬ (first = '\r' ∧ second = '\n')

theorem isChain_noLineEnd {chars : List Char} (h : ¬ ['\r', '\n'] <:+: chars) : chars.IsChain NoLineEnd := by
  refine List.isChain_iff_forall_rel_of_append_cons_cons.mpr ?_
  rintro first second front back rfl ⟨rfl, rfl⟩
  exact h ⟨front, back, by simp⟩

theorem not_lineEnd_of_isChain {chars : List Char} (h : chars.IsChain NoLineEnd) : ¬ ['\r', '\n'] <:+: chars := by
  rintro ⟨front, back, rfl⟩
  rw [List.append_assoc] at h
  exact List.isChain_iff_forall_rel_of_append_cons_cons.mp h rfl ⟨rfl, rfl⟩

theorem unifyLineEnds_of_isChain {chars : List Char} (h : chars.IsChain NoLineEnd) :
    Text.unifyLineEnds chars = chars := by
  fun_induction Text.unifyLineEnds chars with
  | case1 => rfl
  | case2 rest ih => exact absurd ⟨rfl, rfl⟩ h.rel
  | case3 c rest hother ih => rw [ih h.tail]

/-! ## Tokens that can be written and read -/

/-- Tokens that may stand side by side: text does not run on, and no line end comes about between them. -/
def Beside (left right : Token) : Prop :=
  Apart left right ∧ ∀ c ∈ left.written.getLast?, ∀ d ∈ right.written.head?, NoLineEnd c d

/-- What is no text ends with a mark, and may stand before anything. -/
theorem beside_of_isText {left : Token} (h : left.isText = false) (right : Token) : Beside left right := by
  refine ⟨fun htext => absurd htext (by rw [h]; exact Bool.false_ne_true), ?_⟩
  have hlast : left.written.getLast? = some '>' ∨ left.written.getLast? = some ';' := by
    cases left with
    | text content => cases h
    | _ => simp [Token.written, List.getLast?_cons]
  intro c hc d _ hend
  rcases hlast with hlast | hlast
  · rw [hlast, Option.mem_some_iff] at hc
    exact absurd (hc.trans hend.1) (by decide)
  · rw [hlast, Option.mem_some_iff] at hc
    exact absurd (hc.trans hend.1) (by decide)

/-- A row of tokens that is read back from what is written for it, line ends included. -/
structure Readable (row : List Token) : Prop where
  recognized : ∀ token ∈ row, Recognized token
  lines : ∀ token ∈ row, token.written.IsChain NoLineEnd
  beside : row.IsChain Beside

theorem isChain_written_iff {row : List Token} (h : ∀ token ∈ row, Recognized token) :
    (row.flatMap Token.written).IsChain NoLineEnd ↔ (∀ token ∈ row, token.written.IsChain NoLineEnd) ∧
      row.IsChain fun left right => ∀ c ∈ left.written.getLast?, ∀ d ∈ right.written.head?, NoLineEnd c d := by
  have hempty : [] ∉ row.map Token.written := by
    intro hmem
    obtain ⟨token, htoken, hnil⟩ := List.mem_map.mp hmem
    exact (h token htoken).written_ne_nil hnil
  rw [List.flatMap_def, List.isChain_flatten hempty, List.isChain_map]
  simp only [List.forall_mem_map]

theorem readable_of_tokens? {chars : List Char} {row : List Token} (h : tokens? chars = some row)
    (hlines : chars.IsChain NoLineEnd) : Readable row := by
  have hrecognized := recognized_of_tokens? h
  rw [← written_of_tokens? h, isChain_written_iff hrecognized] at hlines
  refine ⟨hrecognized, hlines.1, List.isChain_iff_forall_rel_of_append_cons_cons.mpr ?_⟩
  intro left right front back hrow
  exact ⟨List.isChain_iff_forall_rel_of_append_cons_cons.mp (apart_of_tokens? h) hrow,
    List.isChain_iff_forall_rel_of_append_cons_cons.mp hlines.2 hrow⟩

namespace Readable

theorem tokens?_eq {row : List Token} (h : Readable row) : tokens? (row.flatMap Token.written) = some row :=
  tokens?_written h.recognized (h.beside.imp fun _ _ => And.left)

theorem isChain_written {row : List Token} (h : Readable row) : (row.flatMap Token.written).IsChain NoLineEnd :=
  (isChain_written_iff h.recognized).mpr ⟨h.lines, h.beside.imp fun _ _ => And.right⟩

end Readable

/-! ## The tokens of an edit -/

theorem mem_of_mem_keptNodes {labels : List Label} {node : Node} (h : node ∈ keptNodes labels) :
    node ∈ labels.flatMap (·.1.1.nodes) := by
  obtain ⟨label, hlabel, hnode⟩ := List.mem_flatMap.mp h
  exact List.mem_flatMap.mpr ⟨label, (List.mem_filter.mp hlabel).1, hnode⟩

theorem mem_tokensOf_iff {nodes : List Node} {token : Token} :
    token ∈ tokensOf nodes ↔ ∃ node ∈ nodes, token ∈ node.tokens := by
  induction nodes with
  | nil => simp [tokensOf]
  | cons node rest ih => simp [tokensOf, ih]

theorem matchedAll_iff {nodes : List Node} : matchedAll nodes = true ↔ ∀ node ∈ nodes, node.matched = true := by
  induction nodes with
  | nil => simp [matchedAll]
  | cons node rest ih => simp [matchedAll, ih]

/-- Closing tags match in a row if they match in one that has other tokens from some place on. -/
theorem nests_append_of_nests {row other : List Token}
    (h : ∀ opened, nests opened row = true → nests opened other = true) {front : List Token}
    {opened : List (List Char)} (hrow : nests opened (front ++ row) = true) :
    nests opened (front ++ other) = true := by
  induction front generalizing opened with
  | nil => exact h opened hrow
  | cons token rest ih =>
    cases token with
    | openTag content => exact ih hrow
    | closeTag content =>
      cases opened with
      | nil => cases hrow
      | cons name opened =>
        obtain ⟨hname, hrest⟩ := Bool.and_eq_true_iff.mp hrow
        exact Bool.and_eq_true_iff.mpr ⟨hname, ih hrest⟩
    | _ => exact ih hrow

theorem read?_eq_some_iff {text : List Char} {row : List Token} :
    read? text = some row ↔ tokens? (dropMark text) = some row ∧ nests [] row := by
  rw [read?, Option.filter_eq_some_iff]

theorem dropMark_of_head? {chars : List Char} (h : chars.head? ≠ some byteOrderMark) : dropMark chars = chars := by
  cases chars with
  | nil => rfl
  | cons c rest =>
    rw [dropMark, if_neg]
    rintro rfl
    exact h rfl

theorem written_of_read? {text : List Char} {row : List Token} (h : read? text = some row)
    (hmark : text.head? ≠ some byteOrderMark) : row.flatMap Token.written = text := by
  have htokens := (read?_eq_some_iff.mp h).1
  rw [dropMark_of_head? hmark] at htokens
  exact written_of_tokens? htokens

namespace Frame

variable {frame : Frame} {labels : List Label}

theorem mem_row_of_kept {token : Token} (h : token ∈ frame.row (keptNodes labels)) :
    token ∈ frame.row (labels.flatMap (·.1.1.nodes)) := by
  have hinside : token ∈ tokensOf (keptNodes labels) → token ∈ tokensOf (labels.flatMap (·.1.1.nodes)) := by
    intro hmem
    obtain ⟨node, hnode, htoken⟩ := mem_tokensOf_iff.mp hmem
    exact mem_tokensOf_iff.mpr ⟨node, mem_of_mem_keptNodes hnode, htoken⟩
  rcases List.mem_append.mp h with hmem | hmem
  · exact List.mem_append_left _ hmem
  · refine List.mem_append_right _ ?_
    rcases List.mem_cons.mp hmem with rfl | hmem
    · exact List.mem_cons_self
    · rcases List.mem_append.mp hmem with hmem | hmem
      · exact List.mem_cons_of_mem _ (List.mem_append_left _ (hinside hmem))
      · exact List.mem_cons_of_mem _ (List.mem_append_right _ hmem)

/-- What stands in front of the children starts the text. -/
theorem head?_written (frame : Frame) (children : List Node) :
    ((frame.row children).flatMap Token.written).head? = frame.lead.head? := by
  have hlead : frame.lead ≠ [] := by
    rw [lead, List.flatMap_append]
    simp [Token.written]
  rw [written_row, List.head?_append_of_ne_nil _ hlead]

theorem readable_kept (hclear : labels.IsChain fun earlier later =>
      later.2 = true → earlier.2 = true ∨ earlier.1.1.kind ≠ some .text)
    (h : Readable (frame.row (labels.flatMap (·.1.1.nodes)))) : Readable (frame.row (keptNodes labels)) := by
  have hbeside := h.beside
  rw [row, List.isChain_split] at hbeside
  refine ⟨fun token hmem => h.recognized token (mem_row_of_kept hmem),
    fun token hmem => h.lines token (mem_row_of_kept hmem), ?_⟩
  -- the tag that opens the dependencies may stand before any child that comes first now
  rw [row, List.isChain_split]
  exact ⟨hbeside.1, isChain_kept (fun token other hfree => beside_of_isText hfree other) hclear
    (fun _ _ _ => rfl) hbeside.2⟩

theorem nests_kept (h : nests [] (frame.row (labels.flatMap (·.1.1.nodes)))) :
    nests [] (frame.row (keptNodes labels)) := by
  refine nests_append_of_nests (fun opened hrow => ?_) h
  rw [nests, nests_tokensOf, Bool.and_eq_true] at hrow ⊢
  exact ⟨matchedAll_iff.mpr fun node hnode => matchedAll_iff.mp hrow.1 node (mem_of_mem_keptNodes hnode), hrow.2⟩

/-! ## The edit -/

/-- What the editor does with the children in a frame. -/
structure Edited (frame : Frame) (children : List Node) (text : List Char) (unused : List String)
    (decisions : Decisions) (groups : List Group) (labels : List Label) : Prop where
  entries : children = groups.flatMap Group.nodes
  decided : decisions = Decisions.on text unused ((spread (byteLength frame.lead) groups).filterMap siblingOf)
  placed : labels.map Prod.fst = spread (byteLength frame.lead) groups
  marks : labels.filterMap markOf = decisions.marked.reverse
  kinds : ∀ label ∈ labels, label.2 = true → label.1.1.kind ≠ none

end Frame

/-- The edit that comes of decisions on a text. -/
def Decisions.edit (decisions : Decisions) (text : String) : Edit :=
  ⟨String.ofList (Text.unifyLineEnds (cutOut decisions.cuts text.toList)), decisions.removed, decisions.preserved⟩

/-- What comes of decisions on a text, which is no edit if a character would be torn. -/
def Decisions.outcome (decisions : Decisions) (text : String) : Except EditFault (Edit × List Note) :=
  if decisions.isWhole text.toList then .ok (decisions.edit text, decisions.notes) else .error .tornCharacter

theorem Decisions.outcome_of_isWhole {decisions : Decisions} {text : String}
    (h : decisions.isWhole text.toList = true) : decisions.outcome text = .ok (decisions.edit text, decisions.notes) :=
  if_pos h

theorem Decisions.eq_of_outcome {decisions : Decisions} {text : String} {edit : Edit} {notes : List Note}
    (h : decisions.outcome text = .ok (edit, notes)) : decisions.edit text = edit ∧ decisions.notes = notes := by
  rw [outcome] at h
  split at h
  · exact Prod.mk.inj (Except.ok.inj h)
  · cases h

theorem removeDependencies_eq {text : String} {siblings : List Sibling}
    (h : siblings? text.toList = some (some siblings)) (unused : List String) :
    removeDependencies text unused = (Decisions.on text.toList unused siblings).outcome text := by
  rw [removeDependencies, h]
  rfl

theorem text_edit_of_no_decisions {text : String} (hends : ¬ ['\r', '\n'] <:+: text.toList) :
    (Decisions.edit {} text).text = text := by
  have hall : cutOut [] text.toList = text.toList := selectFrom_uniform fun _ _ _ => rfl
  change String.ofList (Text.unifyLineEnds (cutOut [] text.toList)) = text
  rw [hall, unifyLineEnds_of_isChain (isChain_noLineEnd hends), String.ofList_toList]

theorem Frame.exists_labels (frame : Frame) (groups : List Group) (text : List Char) (unused : List String) :
    ∃ labels, frame.Edited (groups.flatMap Group.nodes) text unused
      (Decisions.on text unused ((spread (byteLength frame.lead) groups).filterMap siblingOf)) groups labels := by
  obtain ⟨labels, hplaced, hmarks, hkinds⟩ := Prune.exists_labels (Decisions.sound_on text unused _).all
  exact ⟨labels, rfl, rfl, hplaced, hmarks, hkinds⟩

theorem Frame.exists_edited {text : String} {frame : Frame} {children : List Node}
    (hread : read? text.toList = some (frame.row children)) (hnames : ∀ node ∈ children, Nameable node)
    (unused : List String) :
    ∃ decisions groups labels, frame.Edited children text.toList unused decisions groups labels ∧
      removeDependencies text unused = decisions.outcome text := by
  obtain ⟨groups, rfl, hsiblings⟩ := frame.siblings?_eq hread hnames
  obtain ⟨labels, hedited⟩ := frame.exists_labels groups text.toList unused
  exact ⟨_, groups, labels, hedited, removeDependencies_eq hsiblings unused⟩

namespace Frame.Edited

variable {frame : Frame} {children : List Node} {unused : List String} {decisions : Decisions} {groups : List Group}
  {labels : List Label}

theorem sound {text : List Char} (h : frame.Edited children text unused decisions groups labels) :
    decisions.Sound unused ((spread (byteLength frame.lead) groups).filterMap siblingOf) :=
  h.decided ▸ Decisions.sound_on text unused _

/-- Behind no mark, what is read and cut out are whole characters. -/
theorem isWhole {text : List Char} (h : frame.Edited children text unused decisions groups labels)
    (hread : read? text = some (frame.row children)) (hmark : text.head? ≠ some byteOrderMark) :
    decisions.isWhole text = true := by
  rw [h.decided]
  refine Decisions.isWhole_on (fun sibling hsibling => ?_) unused
  obtain ⟨placed, hplaced, hof⟩ := List.mem_filterMap.mp hsibling
  obtain ⟨kind, -, rfl⟩ := Option.map_eq_some_iff.mp hof
  rw [← written_of_read? hread hmark, written_row, h.entries]
  exact isWhole_of_mem_spread hplaced _

theorem nodes_labels {text : List Char} (h : frame.Edited children text unused decisions groups labels) :
    labels.flatMap (·.1.1.nodes) = children := by
  have hgroups : (labels.map Prod.fst).map Prod.fst = groups := by rw [h.placed, map_fst_spread]
  rw [h.entries, ← hgroups, List.flatMap_map, List.flatMap_map]

/-- Cutting the siblings that go out of the text leaves the text of the children that stay. -/
theorem cutOut_eq {text : List Char} (h : frame.Edited children text unused decisions groups labels)
    (hwritten : (frame.row children).flatMap Token.written = text) :
    cutOut decisions.cuts text = (frame.row (keptNodes labels)).flatMap Token.written := by
  rw [← hwritten, h.entries, written_row, written_row, cutOut_labels h.placed h.marks h.kinds]

/-- The text that an edit leaves is that of the children that stay, and is read as their tokens. -/
theorem text_edit {text : String} (h : frame.Edited children text.toList unused decisions groups labels)
    (hread : read? text.toList = some (frame.row children)) (hends : ¬ ['\r', '\n'] <:+: text.toList)
    (hmark : text.toList.head? ≠ some byteOrderMark) :
    (decisions.edit text).text.toList = (frame.row (keptNodes labels)).flatMap Token.written ∧
      (decisions.edit text).text.toList.head? ≠ some byteOrderMark ∧
      Readable (frame.row (keptNodes labels)) ∧
      read? (decisions.edit text).text.toList = some (frame.row (keptNodes labels)) := by
  obtain ⟨htokens, hnests⟩ := read?_eq_some_iff.mp hread
  rw [dropMark_of_head? hmark] at htokens
  have hwritten := written_of_read? hread hmark
  have hclear : labels.IsChain fun earlier later =>
      later.2 = true → earlier.2 = true ∨ earlier.1.1.kind ≠ some .text := by
    refine clear_labels ?_ h.kinds
    rw [h.marks, List.isChain_reverse]
    exact h.sound.clear
  have hreadable : Readable (frame.row (keptNodes labels)) := by
    refine readable_kept hclear ?_
    rw [h.nodes_labels]
    exact readable_of_tokens? htokens (isChain_noLineEnd hends)
  have htext : (decisions.edit text).text.toList = (frame.row (keptNodes labels)).flatMap Token.written := by
    rw [Decisions.edit, String.toList_ofList, h.cutOut_eq hwritten]
    exact unifyLineEnds_of_isChain hreadable.isChain_written
  -- the text starts as it did, so there is no mark to drop
  have hhead : ((frame.row (keptNodes labels)).flatMap Token.written).head? ≠ some byteOrderMark := by
    rwa [head?_written, ← frame.head?_written children, hwritten]
  refine ⟨htext, htext ▸ hhead, hreadable, ?_⟩
  rw [htext, read?_eq_some_iff, dropMark_of_head? hhead]
  exact ⟨hreadable.tokens?_eq, nests_kept (h.nodes_labels.symm ▸ hnests)⟩

end Frame.Edited

/-- A text without a mark at its start is edited as it was decided. -/
theorem removeDependencies_of_unmarked {text : String} {siblings : List Sibling}
    (h : siblings? text.toList = some (some siblings)) (hmark : text.toList.head? ≠ some byteOrderMark)
    (unused : List String) :
    removeDependencies text unused = .ok ((Decisions.on text.toList unused siblings).edit text,
      (Decisions.on text.toList unused siblings).notes) := by
  rw [removeDependencies_eq h]
  refine Decisions.outcome_of_isWhole ?_
  rcases exists_frame h with rfl | ⟨frame, children, hread, hnames⟩
  · rfl
  · obtain ⟨groups, rfl, hfound⟩ := frame.siblings?_eq hread hnames
    obtain rfl := Option.some.inj (Option.some.inj (h.symm.trans hfound))
    obtain ⟨labels, hedited⟩ := frame.exists_labels groups text.toList unused
    exact hedited.isWhole hread hmark

theorem removeDependencies_ne_torn {text : String} (hmark : text.toList.head? ≠ some byteOrderMark)
    (unused : List String) : removeDependencies text unused ≠ .error .tornCharacter := by
  intro htorn
  rcases hsiblings : siblings? text.toList with _ | _ | siblings
  · rw [removeDependencies, hsiblings] at htorn
    cases htorn
  · rw [removeDependencies, hsiblings] at htorn
    cases htorn
  · rw [removeDependencies_of_unmarked hsiblings hmark] at htorn
    cases htorn

theorem head?_unifyLineEnds (chars : List Char) :
    (Text.unifyLineEnds chars).head? = chars.head? ∨ (Text.unifyLineEnds chars).head? = some '\n' := by
  fun_cases Text.unifyLineEnds chars with
  | case1 => exact .inl rfl
  | case2 rest => exact .inr rfl
  | case3 c rest => exact .inl rfl

/-- An edit puts no mark at the start of a text. -/
theorem head?_edit {text : String} (hmark : text.toList.head? ≠ some byteOrderMark) {unused : List String}
    {edit : Edit} {notes : List Note} (h : removeDependencies text unused = .ok (edit, notes)) :
    edit.text.toList.head? ≠ some byteOrderMark := by
  rcases hsiblings : siblings? text.toList with _ | _ | siblings
  · rw [removeDependencies, hsiblings] at h
    cases h
  · rw [removeDependencies, hsiblings] at h
    cases h
  · rw [removeDependencies_of_unmarked hsiblings hmark] at h
    obtain ⟨rfl, -⟩ := Prod.mk.inj (Except.ok.inj h)
    -- what stands in front of the children is not cut
    have hhead : (cutOut (Decisions.on text.toList unused siblings).cuts text.toList).head? = text.toList.head? := by
      rcases exists_frame hsiblings with rfl | ⟨frame, children, hread, hnames⟩
      · exact congrArg List.head? (selectFrom_uniform fun _ _ _ => rfl)
      · obtain ⟨groups, rfl, hfound⟩ := frame.siblings?_eq hread hnames
        obtain rfl := Option.some.inj (Option.some.inj (hsiblings.symm.trans hfound))
        have hwritten := written_of_read? hread hmark
        obtain ⟨labels, hedited⟩ := frame.exists_labels groups text.toList unused
        rw [hedited.cutOut_eq hwritten, frame.head?_written, ← frame.head?_written, hwritten]
    rw [Decisions.edit, String.toList_ofList]
    rcases head?_unifyLineEnds (cutOut (Decisions.on text.toList unused siblings).cuts text.toList) with hsame | hfeed
    · rw [hsame, hhead]
      exact hmark
    · rw [hfeed]
      decide

end ModuleAudit.Prune
