import ModuleAudit.Proofs.Markup.Nodes
import ModuleAudit.Proofs.Markup.Tags

/-! Trees and their traversals. A traversal gives an element as an empty tag, or as an opening tag, a traversal of what
is inside and a closing tag, with other tokens anywhere between. The stack of open elements rebuilds the trees: at any
time it holds what a traversal has opened and not closed, with the children that are complete
(`foldlM_add_of_opens`). -/

namespace ModuleAudit.Markup
set_option autoImplicit false

def Token.isTag : Token → Bool
  | .openTag _ | .emptyTag _ | .closeTag _ => true
  | _ => false

/-- The tokens of a traversal of trees, one tree after the other. -/
inductive Traverses : List Element → List Token → Prop
  | nil : Traverses [] []
  | pass {token : Token} {forest : List Element} {row : List Token} (h : token.isTag = false)
      (more : Traverses forest row) : Traverses forest (token :: row)
  | empty {content : List Char} {name : String} {attributes : List (String × String)} {forest : List Element}
      {row : List Token} (tag : TagSays content name attributes) (more : Traverses forest row) :
      Traverses (⟨name, attributes, []⟩ :: forest) (.emptyTag content :: row)
  | element {content closing : List Char} {name : String} {attributes : List (String × String)}
      {children forest : List Element} {inside row : List Token} (tag : TagSays content name attributes)
      (within : Traverses children inside) (more : Traverses forest row) :
      Traverses (⟨name, attributes, children⟩ :: forest) (.openTag content :: (inside ++ .closeTag closing :: row))

/-- The tokens of elements that are opened one inside the other and stay open, above those that are open at first. The
innermost element comes first, and its children are those that are complete. -/
inductive Opens : List Element → List Token → List Element → Prop
  | nil (opened : List Element) : Opens opened [] opened
  | cons {content : List Char} {name : String} {attributes : List (String × String)}
      {children below opened : List Element} {inside row : List Token} (tag : TagSays content name attributes)
      (within : Traverses children inside) (more : Opens (⟨name, attributes, children⟩ :: below) row opened) :
      Opens below (.openTag content :: (inside ++ row)) opened

/-! ## From traversals to trees -/

theorem add_of_not_tag {token : Token} (h : token.isTag = false) (growth : Growth) :
    growth.add token = some growth := by
  cases token with
  | openTag content => cases h
  | emptyTag content => cases h
  | closeTag content => cases h
  | _ => rfl

theorem add_openTag {content : List Char} {name : String} {attributes : List (String × String)}
    (h : TagSays content name attributes) (growth : Growth) :
    growth.add (.openTag content) = some ⟨⟨name, attributes, []⟩ :: growth.opened, growth.root⟩ := by
  rw [Growth.add, ofTag?_eq_some_iff.mpr h]
  rfl

theorem add_emptyTag {content : List Char} {name : String} {attributes : List (String × String)}
    (h : TagSays content name attributes) (growth : Growth) :
    growth.add (.emptyTag content) = some (growth.attach ⟨name, attributes, []⟩) := by
  rw [Growth.add, ofTag?_eq_some_iff.mpr h]
  rfl

theorem foldlM_add_of_traverses {forest : List Element} {row : List Token} (h : Traverses forest row)
    (growth : Growth) : row.foldlM Growth.add growth = some (forest.foldl Growth.attach growth) := by
  induction h generalizing growth with
  | nil => rfl
  | pass h more ih => rw [List.foldlM_cons, add_of_not_tag h, Option.bind_eq_bind, Option.bind_some, ih]
  | empty tag more ih =>
    rw [List.foldlM_cons, add_emptyTag tag, Option.bind_eq_bind, Option.bind_some, ih, List.foldl_cons]
  | @element content closing name attributes children forest inside row tag within more ihWithin ihMore =>
    -- the children go to the element on top of the stack, and the closing tag hands it to the one below
    have hinside := ihWithin ⟨⟨name, attributes, []⟩ :: growth.opened, growth.root⟩
    rw [Node.foldl_attach_opened, List.nil_append] at hinside
    have hclose : Growth.add ⟨⟨name, attributes, children⟩ :: growth.opened, growth.root⟩ (.closeTag closing) =
        some (growth.attach ⟨name, attributes, children⟩) := rfl
    rw [List.foldlM_cons, add_openTag tag, Option.bind_eq_bind, Option.bind_some, List.foldlM_append, hinside,
      Option.bind_eq_bind, Option.bind_some, List.foldlM_cons, hclose, Option.bind_eq_bind, Option.bind_some, ihMore,
      List.foldl_cons]

theorem foldlM_add_of_opens {below opened : List Element} {row : List Token} (h : Opens below row opened)
    (root : Option Element) : row.foldlM Growth.add ⟨below, root⟩ = some ⟨opened, root⟩ := by
  induction h with
  | nil opened => rfl
  | @cons content name attributes children below opened inside row tag within more ih =>
    have hinside := foldlM_add_of_traverses within ⟨⟨name, attributes, []⟩ :: below, root⟩
    rw [Node.foldl_attach_opened, List.nil_append] at hinside
    rw [List.foldlM_cons, add_openTag tag, Option.bind_eq_bind, Option.bind_some, List.foldlM_append, hinside,
      Option.bind_eq_bind, Option.bind_some, ih]

theorem rootOf?_of_traverses {forest opened : List Element} {row rest : List Token} (h : Traverses forest row)
    (hrest : Opens [] rest opened) : rootOf? (row ++ rest) = some forest.head? := by
  rw [rootOf?, List.foldlM_append, foldlM_add_of_traverses h, Node.foldl_attach_outermost, Option.bind_eq_bind,
    Option.bind_some, foldlM_add_of_opens hrest]
  rfl

/-! ## From trees to traversals -/

theorem exists_tagSays_of_ofTag? {content : List Char} {tag : Element} (h : Element.ofTag? content = some tag) :
    ∃ name attributes, tag = ⟨name, attributes, []⟩ ∧ TagSays content name attributes := by
  obtain ⟨name, attributes, children⟩ := tag
  obtain rfl : children = [] := Node.children_of_ofTag? h
  exact ⟨name, attributes, rfl, ofTag?_eq_some_iff.mp h⟩

mutual

theorem traverses_tokens (node : Node) {elements forest : List Element} {row : List Token}
    (h : node.elements? = some elements) (hmore : Traverses forest row) :
    Traverses (elements ++ forest) (node.tokens ++ row) := by
  cases node with
  | leaf token isLeaf =>
    cases token with
    | openTag content => cases isLeaf
    | closeTag content => cases isLeaf
    | emptyTag content =>
      obtain ⟨tag, htag, rfl⟩ := Option.map_eq_some_iff.mp h
      obtain ⟨name, attributes, rfl, hsays⟩ := exists_tagSays_of_ofTag? htag
      exact .empty hsays hmore
    | _ =>
      obtain rfl := Option.some.inj h
      exact .pass rfl hmore
  | element content children closing =>
    obtain ⟨tag, htag, hinside⟩ := Option.bind_eq_some_iff.mp h
    obtain ⟨inside, hchildren, rfl⟩ := Option.map_eq_some_iff.mp hinside
    obtain ⟨name, attributes, rfl, hsays⟩ := exists_tagSays_of_ofTag? htag
    have hwithin := traverses_tokensOf children hchildren .nil
    rw [List.append_nil, List.append_nil] at hwithin
    have hrow : (Node.element content children closing).tokens ++ row =
        .openTag content :: (Node.tokensOf children ++ .closeTag closing :: row) := by
      rw [Node.tokens, List.cons_append, List.append_assoc, List.singleton_append]
    rw [hrow]
    exact .element hsays hwithin hmore

theorem traverses_tokensOf (nodes : List Node) {elements forest : List Element} {row : List Token}
    (h : Node.elementsOf? nodes = some elements) (hmore : Traverses forest row) :
    Traverses (elements ++ forest) (Node.tokensOf nodes ++ row) := by
  cases nodes with
  | nil =>
    obtain rfl := Option.some.inj h
    exact hmore
  | cons node nodes =>
    obtain ⟨own, hown, hrest⟩ := Option.bind_eq_some_iff.mp h
    obtain ⟨more, hnodes, rfl⟩ := Option.map_eq_some_iff.mp hrest
    rw [Node.tokensOf, List.append_assoc, List.append_assoc]
    exact traverses_tokens node hown (traverses_tokensOf nodes hnodes hmore)

end

theorem traverses_of_elementsOf? {nodes : List Node} {elements : List Element}
    (h : Node.elementsOf? nodes = some elements) : Traverses elements (Node.tokensOf nodes) := by
  have hmore := traverses_tokensOf nodes h .nil
  rwa [List.append_nil, List.append_nil] at hmore

theorem opens_of_unclosed {row : List Token} (h : Node.Unclosed row) {growth grown : Growth}
    (hgrown : row.foldlM Growth.add growth = some grown) : Opens growth.opened row grown.opened := by
  induction h generalizing growth with
  | nil =>
    obtain rfl := Option.some.inj hgrown
    exact .nil growth.opened
  | cons content nodes h ih =>
    rw [List.foldlM_cons] at hgrown
    obtain ⟨entered, hentered, hrest⟩ := Option.bind_eq_some_iff.mp hgrown
    obtain ⟨tag, htag, rfl⟩ := Option.map_eq_some_iff.mp hentered
    obtain ⟨name, attributes, rfl, hsays⟩ := exists_tagSays_of_ofTag? htag
    rw [List.foldlM_append, Node.foldlM_tokensOf] at hrest
    obtain ⟨inside, hinside, hmore⟩ := Option.bind_eq_some_iff.mp hrest
    obtain ⟨elements, helements, rfl⟩ := Option.map_eq_some_iff.mp hinside
    rw [Node.foldl_attach_opened, List.nil_append] at hmore
    exact .cons hsays (traverses_of_elementsOf? helements) (ih hmore)

theorem exists_traversal_of_rootOf? {row : List Token} {root : Option Element} (hnests : nests [] row)
    (h : rootOf? row = some root) : ∃ forest front rest opened, row = front ++ rest ∧ Traverses forest front ∧
      Opens [] rest opened ∧ root = forest.head? := by
  obtain ⟨nodes, rest, rfl, hrest⟩ := Node.exists_nodes row
  rcases hrest with hunclosed | ⟨content, after, rfl⟩
  · obtain ⟨grown, hgrown, rfl⟩ := Option.map_eq_some_iff.mp h
    rw [List.foldlM_append, Node.foldlM_tokensOf] at hgrown
    obtain ⟨complete, hcomplete, hafter⟩ := Option.bind_eq_some_iff.mp hgrown
    obtain ⟨elements, helements, rfl⟩ := Option.map_eq_some_iff.mp hcomplete
    rw [Node.foldl_attach_outermost] at hafter
    refine ⟨elements, Node.tokensOf nodes, rest, grown.opened, rfl, traverses_of_elementsOf? helements,
      opens_of_unclosed hunclosed hafter, ?_⟩
    rw [hunclosed.root_eq hafter]
    rfl
  · -- a closing tag that no element is open for does not nest
    rw [Node.nests_tokensOf, nests, Bool.and_false] at hnests
    cases hnests

/-- The tokens of a traversal make the first of its trees, whatever stays open after them. A text is read as a tree, or
as none, exactly if its tokens are such a traversal. -/
theorem root_of_traversal :
    (∀ forest row rest opened, Traverses forest row → Opens [] rest opened →
      rootOf? (row ++ rest) = some forest.head?) ∧
    ∀ text root, root? text = some root ↔ ∃ forest row rest opened, read? text.toList = some (row ++ rest) ∧
      Traverses forest row ∧ Opens [] rest opened ∧ root = forest.head? := by
  refine ⟨fun forest row rest opened h hrest => rootOf?_of_traverses h hrest, fun text root => ⟨fun h => ?_, ?_⟩⟩
  · obtain ⟨row, hread, hroot⟩ := Option.bind_eq_some_iff.mp h
    have hnests : nests [] row = true := (Option.filter_eq_some_iff.mp hread).2
    obtain ⟨forest, front, rest, opened, rfl, hfront, hrest, hhead⟩ := exists_traversal_of_rootOf? hnests hroot
    exact ⟨forest, front, rest, opened, hread, hfront, hrest, hhead⟩
  · rintro ⟨forest, row, rest, opened, hread, hrow, hrest, rfl⟩
    rw [root?, hread, Option.bind_some]
    exact rootOf?_of_traverses hrow hrest

/-- A shelf with two boxes, one written with two tags, and after it another root and an element that stays open. -/
theorem root_of_traversal_shelf :
    rootOf? ([.declaration "version='1.0'".toList, .openTag "s:shelf a='1'".toList, .comment "x".toList,
      .openTag "box".toList, .text "y".toList, .closeTag "box".toList, .reference "z".toList,
      .emptyTag "s:box n=\"&lt;\" ".toList, .verbatim "<".toList, .closeTag "s:shelf".toList,
      .emptyTag "late".toList] ++ [.openTag "open".toList, .emptyTag "box".toList]) =
    some (some ⟨"shelf", [("a", "1")], [⟨"box", [], []⟩, ⟨"box", [("n", "<")], []⟩]⟩) := by
  refine root_of_traversal.1 [_, ⟨"late", [], []⟩] _ _ [⟨"open", [], [⟨"box", [], []⟩]⟩] ?_ ?_
  · have hshelf : TagSays "s:shelf a='1'".toList "shelf" [("a", "1")] := ofTag?_eq_some_iff.mp (by rfl)
    have hbox : TagSays "box".toList "box" [] := ofTag?_eq_some_iff.mp (by rfl)
    have hother : TagSays "s:box n=\"&lt;\" ".toList "box" [("n", "<")] := ofTag?_eq_some_iff.mp (by rfl)
    have hlate : TagSays "late".toList "late" [] := ofTag?_eq_some_iff.mp (by rfl)
    have htext : Traverses [] [.text "y".toList] := .pass rfl .nil
    have hinside : Traverses [⟨"box", [], []⟩, ⟨"box", [("n", "<")], []⟩] [.comment "x".toList,
        .openTag "box".toList, .text "y".toList, .closeTag "box".toList, .reference "z".toList,
        .emptyTag "s:box n=\"&lt;\" ".toList, .verbatim "<".toList] :=
      .pass rfl (.element hbox htext (.pass rfl (.empty hother (.pass rfl .nil))))
    exact .pass rfl (.element hshelf hinside (.empty hlate .nil))
  · have hopen : TagSays "open".toList "open" [] := ofTag?_eq_some_iff.mp (by rfl)
    have hbox : TagSays "box".toList "box" [] := ofTag?_eq_some_iff.mp (by rfl)
    exact .cons hopen (.empty hbox .nil) (.nil _)

end ModuleAudit.Markup
