import Mathlib.Data.List.Induction
import ModuleAudit.Proofs.Markup.Nodes
import ModuleAudit.Prune.Sibling

/-! The walk through a descriptor, node by node. Away from the children of the dependencies a node leaves the walk as
it was. A child adds itself to the siblings, and pieces of text that touch become one sibling, so the siblings are
groups of children. -/

namespace ModuleAudit.Prune
set_option autoImplicit false

open Markup Node

/-! ## Lengths and places -/

theorem byteLength_cons (c : Char) (chars : List Char) : byteLength (c :: chars) = c.utf8Size + byteLength chars := by
  have hfold : ∀ (sizes : List Nat) (start : Nat), sizes.foldl (· + ·) start = start + sizes.foldl (· + ·) 0 := by
    intro sizes
    induction sizes with
    | nil => intro start; rfl
    | cons size rest ih =>
      intro start
      rw [List.foldl_cons, List.foldl_cons, ih, ih (0 + size)]
      omega
  rw [byteLength, List.map_cons, List.foldl_cons, hfold, Nat.zero_add]
  rfl

theorem byteLength_append (front back : List Char) :
    byteLength (front ++ back) = byteLength front + byteLength back := by
  induction front with
  | nil => exact (Nat.zero_add _).symm
  | cons c rest ih => rw [List.cons_append, byteLength_cons, ih, byteLength_cons, Nat.add_assoc]

theorem byteLength_pos {chars : List Char} (h : chars ≠ []) : 0 < byteLength chars := by
  obtain ⟨c, rest, rfl⟩ := List.exists_cons_of_ne_nil h
  rw [byteLength_cons]
  exact Nat.add_pos_left c.utf8Size_pos _

/-- The text of nodes. -/
def textOf (nodes : List Node) : List Char := (tokensOf nodes).flatMap Token.written

theorem textOf_append (front back : List Node) : textOf (front ++ back) = textOf front ++ textOf back := by
  rw [textOf, tokensOf_append, List.flatMap_append]
  rfl

theorem textOf_leaf (token : Token) (isLeaf : token.isLeaf) : textOf [.leaf token isLeaf] = token.written := by
  rw [textOf, tokensOf, tokens, tokensOf, List.append_nil, List.flatMap_singleton]

theorem locate_append (offset : Nat) (front back : List Token) : Markup.locate offset (front ++ back) =
    Markup.locate offset front ++ Markup.locate (offset + byteLength (front.flatMap Token.written)) back := by
  induction front generalizing offset with
  | nil => rfl
  | cons token rest ih =>
    rw [List.cons_append, Markup.locate, Markup.locate, ih, List.flatMap_cons, byteLength_append, Nat.add_assoc]
    rfl

theorem locate_tokensOf_append (offset : Nat) (front back : List Node) :
    Markup.locate offset (tokensOf (front ++ back)) =
      Markup.locate offset (tokensOf front) ++ Markup.locate (offset + byteLength (textOf front)) (tokensOf back) := by
  rw [tokensOf_append, locate_append]
  rfl

/-- The walk through an element enters it, walks through what is inside, and leaves it. -/
theorem walk_element (content : List Char) (children : List Node) (closing : List Char) (walk : Walk) (offset : Nat) :
    (Markup.locate offset (Node.element content children closing).tokens).foldlM Walk.step walk =
      (walk.enter content ⟨offset, offset + byteLength (Token.openTag content).written⟩).bind fun entered =>
        ((Markup.locate (offset + byteLength (Token.openTag content).written) (tokensOf children)).foldlM
          Walk.step entered).map fun inner =>
            inner.leave ⟨offset + byteLength (Token.openTag content).written + byteLength (textOf children),
              offset + byteLength (textOf [.element content children closing])⟩ := by
  have hwhole : offset + byteLength (textOf [.element content children closing]) =
      offset + byteLength (Token.openTag content).written + byteLength (textOf children) +
        byteLength (Token.closeTag closing).written := by
    rw [textOf, tokensOf, tokens, tokensOf, List.append_nil, List.flatMap_cons, List.flatMap_append,
      List.flatMap_singleton, byteLength_append, byteLength_append, textOf]
    omega
  rw [tokens, Markup.locate, List.foldlM_cons, Walk.step, hwhole]
  cases walk.enter content ⟨offset, offset + byteLength (Token.openTag content).written⟩ with
  | none => rfl
  | some entered =>
    rw [Option.bind_some, Option.bind_eq_bind, Option.bind_some, locate_append, List.foldlM_append]
    cases (Markup.locate (offset + byteLength (Token.openTag content).written) (tokensOf children)).foldlM
      Walk.step entered with
    | none => rfl
    | some inner => rfl

/-! ## Nodes that are no children of the dependencies -/

/-- The walk is below a child of the dependencies, or where the dependencies cannot be met any more. -/
structure Walk.Quiet (walk : Walk) : Prop where
  deep : walk.inside = true → 3 ≤ walk.depth
  past : walk.found = false → 2 ≤ walk.depth

theorem Walk.Quiet.amongSiblings {walk : Walk} (h : walk.Quiet) : walk.amongSiblings = false := by
  cases hinside : walk.inside with
  | false => rw [Walk.amongSiblings, hinside, Bool.false_and]
  | true =>
    have hdepth : walk.depth ≠ 2 := by
      have hdeep := h.deep hinside
      omega
    rw [Walk.amongSiblings, beq_false_of_ne hdepth, Bool.and_false]

theorem Walk.Quiet.unmet {walk : Walk} (h : walk.Quiet) (same : Bool) :
    (!walk.found && walk.depth == 1 && same) = false := by
  cases hfound : walk.found with
  | true => rfl
  | false =>
    have hdepth : walk.depth ≠ 1 := by
      have hpast := h.past hfound
      omega
    rw [beq_false_of_ne hdepth, Bool.and_false, Bool.false_and]

/-- What opens and closes nothing leaves the walk as it was where there are no siblings. -/
theorem step_leaf {walk : Walk} (hamong : walk.amongSiblings = false) {token : Token}
    (htag : ∀ content, token ≠ .emptyTag content) (hleaf : token.isLeaf) (span : Span) :
    walk.step (token, span) = some walk := by
  cases token with
  | openTag content => cases hleaf
  | closeTag content => cases hleaf
  | emptyTag content => exact absurd rfl (htag content)
  | declaration content => rfl
  | doctype content => rfl
  | _ => rw [Walk.step, hamong]; rfl

mutual

theorem walk_tokens_of_quiet (node : Node) {walk : Walk} (h : walk.Quiet) (offset : Nat) :
    (Markup.locate offset node.tokens).foldlM Walk.step walk = some walk := by
  cases node with
  | leaf token isLeaf =>
    rw [tokens, Markup.locate, List.foldlM_cons]
    by_cases htag : ∃ content, token = .emptyTag content
    · obtain ⟨content, rfl⟩ := htag
      rw [Walk.step, Walk.meetEmpty, h.amongSiblings, h.unmet]
      rfl
    · rw [step_leaf h.amongSiblings (fun content heq => htag ⟨content, heq⟩) isLeaf]
      rfl
  | element content children closing =>
    have hdeeper : ({ walk with depth := walk.depth + 1 } : Walk).Quiet :=
      ⟨fun hinside => Nat.le_succ_of_le (h.deep hinside), fun hfound => Nat.le_succ_of_le (h.past hfound)⟩
    have hleave : ∀ span, ({ walk with depth := walk.depth + 1 } : Walk).leave span = walk := by
      intro span
      have hthird : (walk.inside && walk.depth + 1 == 3) = false := by
        cases hinside : walk.inside with
        | false => rfl
        | true =>
          have hdeep := h.deep hinside
          exact beq_false_of_ne (by omega)
      rw [Walk.leave]
      simp only [hthird, hdeeper.amongSiblings]
      rfl
    rw [walk_element, Walk.enter, h.amongSiblings, h.unmet]
    simp only [Bool.false_eq_true, if_false, Option.bind_some, walk_tokensOf_of_quiet children hdeeper,
      Option.map_some, hleave]

theorem walk_tokensOf_of_quiet (nodes : List Node) {walk : Walk} (h : walk.Quiet) (offset : Nat) :
    (Markup.locate offset (tokensOf nodes)).foldlM Walk.step walk = some walk := by
  cases nodes with
  | nil => rfl
  | cons node rest =>
    rw [tokensOf, locate_append, List.foldlM_append, walk_tokens_of_quiet node h]
    exact walk_tokensOf_of_quiet rest h _

end

/-- Outside of the root, nodes that are no tags leave the walk as it was. -/
theorem walk_of_no_elements {nodes : List Node} (h : elementsOf? nodes = some []) {walk : Walk}
    (hamong : walk.amongSiblings = false) (offset : Nat) :
    (Markup.locate offset (tokensOf nodes)).foldlM Walk.step walk = some walk := by
  induction nodes generalizing offset with
  | nil => rfl
  | cons node rest ih =>
    obtain ⟨own, hown, hmore⟩ := Option.bind_eq_some_iff.mp h
    obtain ⟨more, hrest, hnone⟩ := Option.map_eq_some_iff.mp hmore
    obtain ⟨rfl, rfl⟩ := List.append_eq_nil_iff.mp hnone
    have hnode : (Markup.locate offset node.tokens).foldlM Walk.step walk = some walk := by
      cases node with
      | leaf token isLeaf =>
        have htag : ∀ content, token ≠ .emptyTag content := by
          rintro content rfl
          obtain ⟨tag, -, hsome⟩ := Option.map_eq_some_iff.mp hown
          cases hsome
        rw [tokens, Markup.locate, List.foldlM_cons, step_leaf hamong htag isLeaf]
        rfl
      | element content children closing =>
        obtain ⟨tag, -, hinside⟩ := Option.bind_eq_some_iff.mp hown
        obtain ⟨inside, -, hsome⟩ := Option.map_eq_some_iff.mp hinside
        cases hsome
    rw [tokensOf, locate_append, List.foldlM_append, hnode]
    exact ih hrest _

/-- The name of an element is the name of its tag. -/
theorem name_of_ofTag? {content : List Char} {element : Element} (h : Element.ofTag? content = some element) :
    element.name = elementName content := by
  obtain ⟨attributes, -, rfl⟩ := Option.map_eq_some_iff.mp h
  rfl

/-- Inside the root, nodes that are not the dependencies leave the walk as it was. -/
theorem walk_of_no_dependencies {nodes : List Node} {elements : List Element} (h : elementsOf? nodes = some elements)
    (hnames : ∀ element ∈ elements, element.name ≠ "dependencies") (offset : Nat) :
    (Markup.locate offset (tokensOf nodes)).foldlM Walk.step { depth := 1 } = some { depth := 1 } := by
  induction nodes generalizing offset elements with
  | nil => rfl
  | cons node rest ih =>
    obtain ⟨own, hown, hmore⟩ := Option.bind_eq_some_iff.mp h
    obtain ⟨more, hrest, rfl⟩ := Option.map_eq_some_iff.mp hmore
    have hnode : (Markup.locate offset node.tokens).foldlM Walk.step { depth := 1 } = some { depth := 1 } := by
      cases node with
      | leaf token isLeaf =>
        rw [tokens, Markup.locate, List.foldlM_cons]
        by_cases htag : ∃ content, token = .emptyTag content
        · obtain ⟨content, rfl⟩ := htag
          obtain ⟨tag, hofTag, rfl⟩ := Option.map_eq_some_iff.mp hown
          have hname : elementName content ≠ "dependencies" := by
            rw [← name_of_ofTag? hofTag]
            exact hnames tag (List.mem_append_left _ (List.mem_singleton_self tag))
          rw [Walk.step, Walk.meetEmpty, beq_false_of_ne hname]
          rfl
        · rw [step_leaf rfl (fun content heq => htag ⟨content, heq⟩) isLeaf]
          rfl
      | element content children closing =>
        obtain ⟨tag, hofTag, hinside⟩ := Option.bind_eq_some_iff.mp hown
        obtain ⟨inside, -, rfl⟩ := Option.map_eq_some_iff.mp hinside
        have hname : elementName content ≠ "dependencies" := by
          rw [← name_of_ofTag? hofTag]
          exact hnames { tag with children := inside } (List.mem_append_left _ (List.mem_singleton_self _))
        have hquiet : ({ depth := 2 } : Walk).Quiet := ⟨(fun hdeep => nomatch hdeep), fun _ => Nat.le_refl 2⟩
        have hentered : Walk.enter { depth := 1 } content
            ⟨offset, offset + byteLength (Token.openTag content).written⟩ = some { depth := 2 } := by
          rw [Walk.enter, beq_false_of_ne hname]
          rfl
        rw [walk_element, hentered, Option.bind_some, walk_tokensOf_of_quiet children hquiet]
        rfl
    rw [tokensOf, locate_append, List.foldlM_append, hnode]
    exact ih hrest (fun element hmem => hnames element (List.mem_append_right _ hmem)) _

/-- The walk has left the dependencies, with these siblings. -/
structure Walk.Past (walk : Walk) (siblings : List Sibling) : Prop where
  found : walk.found = true
  inside : walk.inside = false
  same : walk.siblings = siblings

theorem Walk.Past.step {walk : Walk} {siblings : List Sibling} (h : walk.Past siblings) (located : Token × Span) :
    ∃ next, walk.step located = some next ∧ next.Past siblings := by
  have hamong : walk.amongSiblings = false := by rw [Walk.amongSiblings, h.inside, Bool.false_and]
  obtain ⟨token, span⟩ := located
  cases token with
  | openTag content =>
    refine ⟨{ walk with depth := walk.depth + 1 }, ?_, ⟨h.found, h.inside, h.same⟩⟩
    rw [Walk.step, Walk.enter, hamong, h.found]
    rfl
  | emptyTag content =>
    refine ⟨walk, ?_, h⟩
    rw [Walk.step, Walk.meetEmpty, hamong, h.found]
    rfl
  | closeTag content =>
    refine ⟨{ walk with depth := walk.depth - 1 }, ?_, ⟨h.found, h.inside, h.same⟩⟩
    rw [Walk.step, Walk.leave]
    simp only [hamong, h.inside, Bool.false_and, Bool.false_eq_true, if_false]
  | _ => exact ⟨walk, step_leaf hamong (fun _ heq => Token.noConfusion heq) rfl span, h⟩

/-- After the dependencies, no token adds to the siblings. -/
theorem Walk.Past.walk {walk : Walk} {siblings : List Sibling} (h : walk.Past siblings)
    (located : List (Token × Span)) : ∃ last, located.foldlM Walk.step walk = some last ∧ last.Past siblings := by
  induction located generalizing walk with
  | nil => exact ⟨walk, rfl, h⟩
  | cons token rest ih =>
    obtain ⟨next, hnext, hpast⟩ := h.step token
    obtain ⟨last, hlast, hend⟩ := ih hpast
    refine ⟨last, ?_, hend⟩
    rw [List.foldlM_cons, hnext]
    exact hlast

/-! ## Groups of children -/

/-- The content of the tag that a node starts with. -/
def tag? : Node → Option (List Char)
  | .leaf (.emptyTag content) _ => some content
  | .leaf _ _ => none
  | .element content _ _ => some content

/-- Whether a token is part of the text of an element. -/
def isTextual : Token → Bool
  | .text _ | .verbatim _ | .reference _ => true
  | _ => false

/-- The nodes that one sibling stands for. What the walk passes over is a group of no kind. -/
inductive Shape : Option SiblingKind → List Node → Prop where
  | declaration (content : List Char) (isLeaf : (Token.declaration content).isLeaf) :
    Shape none [.leaf (.declaration content) isLeaf]
  | doctype (content : List Char) (isLeaf : (Token.doctype content).isLeaf) :
    Shape none [.leaf (.doctype content) isLeaf]
  | text (token : Token) (isLeaf : token.isLeaf) (h : isTextual token) : Shape (some .text) [.leaf token isLeaf]
  | textAfter {nodes : List Node} (before : Shape (some .text) nodes) (token : Token) (isLeaf : token.isLeaf)
      (h : isTextual token) : Shape (some .text) (nodes ++ [.leaf token isLeaf])
  | comment (content : List Char) (isLeaf : (Token.comment content).isLeaf) :
    Shape (some .comment) [.leaf (.comment content) isLeaf]
  | other (content : List Char) (isLeaf : (Token.instruction content).isLeaf) :
    Shape (some .other) [.leaf (.instruction content) isLeaf]
  | element (node : Node) (content : List Char) (module : Option String) (htag : tag? node = some content)
      (hmodule : dependencyName? content = some module) : Shape (some (.element module)) [node]

theorem textual_of_shape {nodes : List Node} (h : Shape (some .text) nodes) :
    ∀ node ∈ nodes, ∃ token isLeaf, node = .leaf token isLeaf ∧ isTextual token := by
  generalize hkind : some SiblingKind.text = kind at h
  induction h with
  | text token isLeaf h =>
    intro node hmem
    exact ⟨token, isLeaf, List.mem_singleton.mp hmem, h⟩
  | textAfter before token isLeaf h ih =>
    intro node hmem
    rcases List.mem_append.mp hmem with hmem | hmem
    · exact ih hkind node hmem
    · exact ⟨token, isLeaf, List.mem_singleton.mp hmem, h⟩
  | _ => cases hkind

/-- Children that one sibling stands for, or one that the walk passes over. -/
structure Group where
  kind : Option SiblingKind
  nodes : List Node
  shape : Shape kind nodes

/-- Groups with their spans, when the first starts at an offset. -/
def spread : Nat → List Group → List (Group × Span)
  | _, [] => []
  | offset, group :: rest =>
    (group, ⟨offset, offset + byteLength (textOf group.nodes)⟩) ::
      spread (offset + byteLength (textOf group.nodes)) rest

/-- The sibling of a group. -/
def siblingOf (placed : Group × Span) : Option Sibling := placed.1.kind.map (⟨·, placed.2⟩)

theorem map_fst_spread (offset : Nat) (groups : List Group) : (spread offset groups).map Prod.fst = groups := by
  induction groups generalizing offset with
  | nil => rfl
  | cons group rest ih => rw [spread, List.map_cons, ih]

theorem spread_append (offset : Nat) (front back : List Group) : spread offset (front ++ back) =
    spread offset front ++ spread (offset + byteLength (textOf (front.flatMap Group.nodes))) back := by
  induction front generalizing offset with
  | nil => rfl
  | cons group rest ih =>
    rw [List.cons_append, spread, spread, ih, List.flatMap_cons, textOf_append, byteLength_append, Nat.add_assoc]
    rfl

theorem bounds_of_mem_spread {offset : Nat} {groups : List Group} {placed : Group × Span}
    (h : placed ∈ spread offset groups) : offset ≤ placed.2.start ∧
      placed.2.stop = placed.2.start + byteLength (textOf placed.1.nodes) ∧
      placed.2.stop ≤ offset + byteLength (textOf (groups.flatMap Group.nodes)) := by
  induction groups generalizing offset with
  | nil => cases h
  | cons group rest ih =>
    rw [List.flatMap_cons, textOf_append, byteLength_append]
    rcases List.mem_cons.mp h with rfl | hrest
    · exact ⟨Nat.le_refl _, rfl, by dsimp only; omega⟩
    · obtain ⟨hstart, hstop, hend⟩ := ih hrest
      exact ⟨by omega, hstop, by omega⟩

/-! ## The walk among the children -/

/-- The walk stands between two children of the dependencies. -/
structure Walk.AtEntries (walk : Walk) : Prop where
  found : walk.found = true
  inside : walk.inside = true
  depth : walk.depth = 2
  opened : walk.opened = none

/-- The walk after a child of some kind. -/
def Walk.meet (walk : Walk) (kind : Option SiblingKind) (span : Span) : Walk :=
  match kind with
  | none => walk
  | some .text => walk.pushText span
  | some kind => walk.push kind span

theorem Walk.AtEntries.amongSiblings {walk : Walk} (h : walk.AtEntries) : walk.amongSiblings = true := by
  rw [Walk.amongSiblings, h.inside, h.depth]
  rfl

theorem Walk.AtEntries.with_siblings {walk : Walk} (h : walk.AtEntries) (siblings : List Sibling) :
    ({ walk with siblings } : Walk).AtEntries :=
  ⟨h.found, h.inside, h.depth, h.opened⟩

theorem Walk.AtEntries.meet {walk : Walk} (h : walk.AtEntries) (kind : Option SiblingKind) (span : Span) :
    (walk.meet kind span).AtEntries := by
  have hpush : ∀ kind, (walk.push kind span).AtEntries := fun _ => h.with_siblings _
  unfold Walk.meet
  split
  · exact h
  · unfold Walk.pushText
    split
    · split
      · exact h.with_siblings _
      · exact hpush _
    · exact hpush _
  · exact hpush _

/-- A node that may be a child: if it is an entry, its attributes are not broken. -/
def Nameable (node : Node) : Prop :=
  ∀ content, tag? node = some content → ∃ module, dependencyName? content = some module

theorem dependencyName?_of_ofTag? {content : List Char} {tag : Element} (h : Element.ofTag? content = some tag) :
    ∃ module, dependencyName? content = some module := by
  rw [dependencyName?, h]
  split
  · exact ⟨_, rfl⟩
  · exact ⟨none, rfl⟩

theorem nameable_of_elements? {node : Node} {elements : List Element} (h : node.elements? = some elements) :
    Nameable node := by
  intro content htag
  cases node with
  | leaf token isLeaf =>
    cases token with
    | emptyTag own =>
      obtain rfl := Option.some.inj htag
      obtain ⟨tag, hofTag, -⟩ := Option.map_eq_some_iff.mp h
      exact dependencyName?_of_ofTag? hofTag
    | _ => cases htag
  | element own children closing =>
    obtain rfl := Option.some.inj htag
    obtain ⟨tag, hofTag, -⟩ := Option.bind_eq_some_iff.mp h
    exact dependencyName?_of_ofTag? hofTag

theorem nameable_of_elementsOf? {nodes : List Node} {elements : List Element} (h : elementsOf? nodes = some elements) :
    ∀ node ∈ nodes, Nameable node := by
  induction nodes generalizing elements with
  | nil =>
    intro node hmem
    cases hmem
  | cons first rest ih =>
    obtain ⟨own, hown, hmore⟩ := Option.bind_eq_some_iff.mp h
    obtain ⟨more, hrest, -⟩ := Option.map_eq_some_iff.mp hmore
    exact List.forall_mem_cons.mpr ⟨nameable_of_elements? hown, ih hrest⟩

/-- One child is a group of its own. -/
theorem exists_shape_of_walk {walk : Walk} (hwalk : walk.AtEntries) {node : Node} (h : Nameable node) (offset : Nat) :
    ∃ kind, Shape kind [node] ∧ (Markup.locate offset node.tokens).foldlM Walk.step walk =
      some (walk.meet kind ⟨offset, offset + byteLength (textOf [node])⟩) := by
  cases node with
  | leaf token isLeaf =>
    rw [textOf_leaf, tokens, Markup.locate, List.foldlM_cons]
    cases token with
    | openTag content => cases isLeaf
    | closeTag content => cases isLeaf
    | emptyTag content =>
      obtain ⟨module, hmodule⟩ := h content rfl
      refine ⟨some (.element module), .element _ content module rfl hmodule, ?_⟩
      rw [Walk.step, Walk.meetEmpty, if_pos hwalk.amongSiblings, hmodule]
      rfl
    | declaration content => exact ⟨none, .declaration content isLeaf, rfl⟩
    | doctype content => exact ⟨none, .doctype content isLeaf, rfl⟩
    | comment content =>
      refine ⟨some .comment, .comment content isLeaf, ?_⟩
      rw [Walk.step, hwalk.amongSiblings]
      rfl
    | instruction content =>
      refine ⟨some .other, .other content isLeaf, ?_⟩
      rw [Walk.step, hwalk.amongSiblings]
      rfl
    | _ =>
      refine ⟨some .text, .text _ isLeaf rfl, ?_⟩
      rw [Walk.step, hwalk.amongSiblings]
      rfl
  | element content children closing =>
    obtain ⟨module, hmodule⟩ := h content rfl
    refine ⟨some (.element module), .element _ content module rfl hmodule, ?_⟩
    have hquiet : ({ walk with depth := walk.depth + 1, opened := some (offset, module) } : Walk).Quiet := by
      refine ⟨fun _ => ?_, fun hfound => ?_⟩
      · exact Nat.succ_le_succ (Nat.le_of_eq hwalk.depth.symm)
      · exact absurd hfound (by rw [hwalk.found]; decide)
    rw [walk_element, Walk.enter, if_pos hwalk.amongSiblings, hmodule, Option.map_some, Option.bind_some,
      walk_tokensOf_of_quiet children hquiet]
    obtain ⟨depth, found, inside, opened, siblings⟩ := walk
    obtain ⟨rfl, rfl, rfl, rfl⟩ := hwalk
    rfl

/-- Where nodes stand that follow groups. -/
def placeAfter (offset : Nat) (groups : List Group) (nodes : List Node) : Span :=
  ⟨offset + byteLength (textOf (groups.flatMap Group.nodes)),
    offset + byteLength (textOf (groups.flatMap Group.nodes)) + byteLength (textOf nodes)⟩

theorem siblings_spread_append (offset : Nat) (front : List Group) (group : Group) :
    (spread offset (front ++ [group])).filterMap siblingOf = (spread offset front).filterMap siblingOf ++
      (siblingOf (group, placeAfter offset front group.nodes)).toList := by
  rw [spread_append, List.filterMap_append, placeAfter]
  cases hkind : group.kind with
  | none => simp [spread, siblingOf, hkind]
  | some kind => simp [spread, siblingOf, hkind]

/-- What the walk passes over is not empty. -/
theorem length_pos_of_passed {nodes : List Node} (h : Shape none nodes) : 0 < byteLength (textOf nodes) := by
  cases h with
  | declaration content isLeaf =>
    rw [textOf_leaf]
    exact byteLength_pos (List.cons_ne_nil _ _)
  | doctype content isLeaf =>
    rw [textOf_leaf]
    exact byteLength_pos (List.cons_ne_nil _ _)

/-- Text that becomes one sibling with the text before extends the last group. -/
theorem last_group_of_text {offset : Nat} {groups : List Group} {last : Span}
    (hlast : ((spread offset groups).filterMap siblingOf).getLast? = some ⟨.text, last⟩)
    (hstop : last.stop = offset + byteLength (textOf (groups.flatMap Group.nodes))) :
    ∃ front group, groups = front ++ [group] ∧ group.kind = some .text ∧
      last = placeAfter offset front group.nodes := by
  rcases List.eq_nil_or_concat groups with rfl | ⟨front, group, rfl⟩
  · cases hlast
  · refine ⟨front, group, List.concat_eq_append .., ?_⟩
    rw [List.concat_eq_append] at hlast hstop
    rw [siblings_spread_append] at hlast
    rcases hkind : group.kind with _ | kind
    · -- a group of no kind stands after every sibling, and is not empty
      have hshape := group.shape
      rw [hkind] at hshape
      have hpos := length_pos_of_passed hshape
      rw [siblingOf, hkind, Option.map_none, Option.toList_none, List.append_nil] at hlast
      obtain ⟨placed, hplaced, hsibling⟩ := List.mem_filterMap.mp (List.mem_of_getLast? hlast)
      obtain ⟨kind, -, hsame⟩ := Option.map_eq_some_iff.mp hsibling
      have hspan : placed.2 = last := congrArg Sibling.span hsame
      have hbounds := (bounds_of_mem_spread hplaced).2.2
      rw [hspan] at hbounds
      rw [List.flatMap_append, List.flatMap_singleton, textOf_append, byteLength_append] at hstop
      omega
    · rw [siblingOf, hkind, Option.map_some, Option.toList_some, List.getLast?_append,
        List.getLast?_singleton, Option.some_or] at hlast
      obtain ⟨rfl, rfl⟩ := Sibling.mk.inj (Option.some.inj hlast)
      exact ⟨rfl, rfl⟩

/-- A child that follows groups makes a group of its own, or extends the last one. -/
theorem exists_groups_of_meet {walk : Walk} {offset : Nat} {groups : List Group}
    (h : walk.siblings = (spread offset groups).filterMap siblingOf) {kind : Option SiblingKind} {node : Node}
    (hshape : Shape kind [node]) :
    ∃ grown, groups.flatMap Group.nodes ++ [node] = grown.flatMap Group.nodes ∧
      (walk.meet kind (placeAfter offset groups [node])).siblings = (spread offset grown).filterMap siblingOf := by
  have hown : ∀ met : Walk, met.siblings = walk.siblings ++
      (kind.map (⟨·, placeAfter offset groups [node]⟩ : SiblingKind → Sibling)).toList →
      ∃ grown, groups.flatMap Group.nodes ++ [node] = grown.flatMap Group.nodes ∧
        met.siblings = (spread offset grown).filterMap siblingOf := by
    intro met hmet
    refine ⟨groups ++ [⟨kind, [node], hshape⟩], ?_, ?_⟩
    · rw [List.flatMap_append, List.flatMap_singleton]
    · rw [siblings_spread_append, hmet, h]
      rfl
  unfold Walk.meet
  split
  · exact hown walk (List.append_nil _).symm
  · unfold Walk.pushText
    split
    · rename_i last hlast
      split
      · rename_i hstop
        rw [h] at hlast
        -- text right behind a sibling that is text belongs to its group
        obtain ⟨front, group, rfl, hkind, rfl⟩ := last_group_of_text hlast hstop
        obtain ⟨token, isLeaf, rfl, htextual⟩ := textual_of_shape hshape node (List.mem_singleton_self node)
        have hgroup := group.shape
        rw [hkind] at hgroup
        refine ⟨front ++ [⟨some .text, _, hgroup.textAfter token isLeaf htextual⟩], ?_, ?_⟩
        · simp [List.append_assoc]
        · have hjoined : (placeAfter offset (front ++ [group]) [.leaf token isLeaf]).stop =
              (placeAfter offset front (group.nodes ++ [.leaf token isLeaf])).stop := by
            rw [placeAfter, placeAfter, List.flatMap_append, List.flatMap_singleton, textOf_append, textOf_append,
              byteLength_append, byteLength_append]
            dsimp only
            omega
          rw [siblings_spread_append, siblingOf, hkind, Option.map_some, Option.toList_some] at h
          rw [siblings_spread_append]
          dsimp only
          rw [h, List.dropLast_concat, hjoined]
          rfl
      · exact hown _ rfl
    · exact hown _ rfl
  · exact hown _ rfl

/-- The siblings that the walk finds are those of groups of the children. -/
theorem exists_groups {walk : Walk} (hwalk : walk.AtEntries) (hnone : walk.siblings = []) {entries : List Node}
    (h : ∀ node ∈ entries, Nameable node) (offset : Nat) :
    ∃ last groups, (Markup.locate offset (tokensOf entries)).foldlM Walk.step walk = some last ∧
      last.AtEntries ∧ entries = groups.flatMap Group.nodes ∧
      last.siblings = (spread offset groups).filterMap siblingOf := by
  -- from the end, since a child may join the group before it
  induction entries using List.reverseRecOn with
  | nil => exact ⟨walk, [], rfl, hwalk, rfl, hnone⟩
  | append_singleton entries node ih =>
    obtain ⟨hbefore, hlast⟩ := List.forall_mem_append.mp h
    obtain ⟨middle, groups, hmiddle, hentries, rfl, hsiblings⟩ := ih hbefore
    obtain ⟨kind, hshape, hnode⟩ := exists_shape_of_walk hentries (hlast node (List.mem_singleton_self node))
      (offset + byteLength (textOf (groups.flatMap Group.nodes)))
    obtain ⟨grown, hnodes, hgrown⟩ := exists_groups_of_meet hsiblings hshape
    refine ⟨_, grown, ?_, hentries.meet kind (placeAfter offset groups [node]), hnodes, hgrown⟩
    rw [locate_tokensOf_append, List.foldlM_append, hmiddle, tokensOf, tokensOf, List.append_nil]
    exact hnode

end ModuleAudit.Prune
