import ModuleAudit.Markup.Element

/-! Tokens as a row of nodes. A node is a token that stands for itself, or an opening tag with the nodes up to its
closing tag. Every row of tokens is a row of nodes, up to a closing tag too many or tags that are never closed.
Nesting and the making of the tree are folds over tokens; over the tokens of nodes they are recursions on the
nodes. -/

namespace ModuleAudit.Markup
set_option autoImplicit false

/-- Whether a token opens or closes nothing. -/
def Token.isLeaf : Token → Bool
  | .openTag _ | .closeTag _ => false
  | _ => true

inductive Node where
  | leaf (token : Token) (isLeaf : token.isLeaf)
  | element (content : List Char) (children : List Node) (closing : List Char)

namespace Node

mutual

def tokens : Node → List Token
  | .leaf token _ => [token]
  | .element content children closing => .openTag content :: (tokensOf children ++ [.closeTag closing])

def tokensOf : List Node → List Token
  | [] => []
  | node :: rest => node.tokens ++ tokensOf rest

end

theorem tokensOf_append (front back : List Node) : tokensOf (front ++ back) = tokensOf front ++ tokensOf back := by
  induction front with
  | nil => rfl
  | cons node rest ih => rw [List.cons_append, tokensOf, ih, tokensOf, List.append_assoc]

/-! ## Nodes in a row of tokens -/

/-- Opening tags that are never closed, with nodes after each. -/
inductive Unclosed : List Token → Prop where
  | nil : Unclosed []
  | cons (content : List Char) (nodes : List Node) {rest : List Token} (h : Unclosed rest) :
    Unclosed (.openTag content :: (tokensOf nodes ++ rest))

/-- Tokens are nodes up to the first tag that is not matched. -/
theorem exists_nodes (row : List Token) : ∃ nodes rest, row = tokensOf nodes ++ rest ∧
    (Unclosed rest ∨ ∃ content after, rest = .closeTag content :: after) := by
  -- by length: the nodes after an element are those of a rest that the nodes inside it left
  generalize hlength : row.length = length
  induction length using Nat.strongRecOn generalizing row with
  | ind length ih =>
    cases row with
    | nil => exact ⟨[], [], rfl, .inl .nil⟩
    | cons token row =>
      rw [List.length_cons] at hlength
      obtain ⟨nodes, rest, hrow, hrest⟩ := ih row.length (by omega) row rfl
      by_cases hleaf : token.isLeaf
      · refine ⟨.leaf token hleaf :: nodes, rest, ?_, hrest⟩
        rw [hrow]
        rfl
      · cases token with
        | closeTag content => exact ⟨[], .closeTag content :: row, rfl, .inr ⟨content, row, rfl⟩⟩
        | openTag content =>
          rcases hrest with hopen | ⟨closing, after, rfl⟩
          · refine ⟨[], _, ?_, .inl (.cons content nodes hopen)⟩
            rw [hrow]
            rfl
          · have hshorter : after.length < length := by
              have hcount := congrArg List.length hrow
              rw [List.length_append, List.length_cons] at hcount
              omega
            obtain ⟨more, rest', hafter, hrest'⟩ := ih after.length hshorter after rfl
            refine ⟨.element content nodes closing :: more, rest', ?_, hrest'⟩
            rw [hrow, hafter, tokensOf, tokens]
            simp
        | _ => exact absurd rfl hleaf

/-! ## Nesting -/

mutual

/-- Whether every closing tag inside a node has the name of its opening tag. -/
def matched : Node → Bool
  | .leaf _ _ => true
  | .element content children closing => matchedAll children && decide (tagName content = closeName closing)

def matchedAll : List Node → Bool
  | [] => true
  | node :: rest => node.matched && matchedAll rest

end

theorem nests_leaf {token : Token} (h : token.isLeaf) (opened : List (List Char)) (rest : List Token) :
    nests opened (token :: rest) = nests opened rest := by
  cases token with
  | openTag content => cases h
  | closeTag content => cases h
  | _ => rw [nests] <;> simp

mutual

theorem nests_tokens (node : Node) (opened : List (List Char)) (rest : List Token) :
    nests opened (node.tokens ++ rest) = (node.matched && nests opened rest) := by
  cases node with
  | leaf token isLeaf => exact nests_leaf isLeaf opened rest
  | element content children closing =>
    have hchildren := nests_tokensOf children (tagName content :: opened) (.closeTag closing :: rest)
    rw [nests] at hchildren
    rw [tokens, List.cons_append, List.append_assoc, List.singleton_append, nests, hchildren, matched,
      Bool.and_assoc]

theorem nests_tokensOf (nodes : List Node) (opened : List (List Char)) (rest : List Token) :
    nests opened (tokensOf nodes ++ rest) = (matchedAll nodes && nests opened rest) := by
  cases nodes with
  | nil => rfl
  | cons node nodes =>
    rw [tokensOf, List.append_assoc, nests_tokens node, nests_tokensOf nodes, matchedAll, Bool.and_assoc]

end

/-! ## The tree -/

mutual

/-- The element that a node stands for, if it is a tag, unless attributes are broken. -/
def elements? : Node → Option (List Element)
  | .leaf (.emptyTag content) _ => (Element.ofTag? content).map fun element => [element]
  | .leaf _ _ => some []
  | .element content children _ =>
    (Element.ofTag? content).bind fun element =>
      (elementsOf? children).map fun children => [{ element with children }]

def elementsOf? : List Node → Option (List Element)
  | [] => some []
  | node :: rest => node.elements?.bind fun elements => (elementsOf? rest).map (elements ++ ·)

end

theorem children_of_ofTag? {content : List Char} {element : Element} (h : Element.ofTag? content = some element) :
    element.children = [] := by
  obtain ⟨attributes, -, rfl⟩ := Option.map_eq_some_iff.mp h
  rfl

/-- Elements below an open one become its children. -/
theorem foldl_attach_opened (elements : List Element) (parent : Element) (opened : List Element)
    (root : Option Element) : elements.foldl Growth.attach ⟨parent :: opened, root⟩ =
      ⟨{ parent with children := parent.children ++ elements } :: opened, root⟩ := by
  induction elements generalizing parent with
  | nil =>
    cases parent with
    | mk name attributes children => rw [List.append_nil, List.foldl_nil]
  | cons element rest ih =>
    rw [List.foldl_cons, Growth.attach, ih, List.append_assoc, List.singleton_append]

mutual

theorem foldlM_tokens (node : Node) (growth : Growth) : node.tokens.foldlM Growth.add growth =
    node.elements?.map fun elements => elements.foldl Growth.attach growth := by
  cases node with
  | leaf token isLeaf =>
    cases token with
    | openTag content => cases isLeaf
    | closeTag content => cases isLeaf
    | emptyTag content =>
      rw [tokens, List.foldlM_cons, elements?, Growth.add]
      cases Element.ofTag? content with
      | none => rfl
      | some element => rfl
    | _ => rfl
  | element content children closing =>
    rw [tokens, List.foldlM_cons, elements?, Growth.add]
    rcases htag : Element.ofTag? content with _ | element
    · rfl
    · have hinside := foldlM_tokensOf children { growth with opened := element :: growth.opened }
      simp only [Option.map_some, Option.bind_eq_bind, Option.bind_some, List.foldlM_append, hinside]
      cases elementsOf? children with
      | none => rfl
      | some elements =>
        simp only [Option.map_some, Option.bind_some, foldl_attach_opened, children_of_ofTag? htag, List.nil_append]
        rfl

theorem foldlM_tokensOf (nodes : List Node) (growth : Growth) : (tokensOf nodes).foldlM Growth.add growth =
    (elementsOf? nodes).map fun elements => elements.foldl Growth.attach growth := by
  cases nodes with
  | nil => rfl
  | cons node nodes =>
    rw [tokensOf, List.foldlM_append, foldlM_tokens node, elementsOf?]
    cases node.elements? with
    | none => rfl
    | some elements =>
      have hrest := foldlM_tokensOf nodes (elements.foldl Growth.attach growth)
      simp only [Option.map_some, Option.bind_eq_bind, Option.bind_some, hrest, Option.map_map]
      cases elementsOf? nodes with
      | none => rfl
      | some more =>
        simp only [Option.map_some, Function.comp_apply, List.foldl_append]

end

theorem elementsOf?_append (front back : List Node) : elementsOf? (front ++ back) =
    (elementsOf? front).bind fun before => (elementsOf? back).map (before ++ ·) := by
  induction front with
  | nil =>
    cases hback : elementsOf? back with
    | none => rw [List.nil_append, hback]; rfl
    | some after => rw [List.nil_append, hback]; rfl
  | cons node rest ih =>
    rw [List.cons_append, elementsOf?, elementsOf?, ih]
    cases node.elements? with
    | none => rfl
    | some elements =>
      cases elementsOf? rest with
      | none => rfl
      | some more =>
        cases elementsOf? back with
        | none => rfl
        | some after =>
          simp only [Option.bind_some, Option.map_some, List.append_assoc]

/-- A node that stands for an element is an empty tag or a tag with what is inside. -/
theorem tag_of_elements? {node : Node} {element : Element} (h : node.elements? = some [element]) :
    (∃ content isLeaf, node = .leaf (.emptyTag content) isLeaf ∧ Element.ofTag? content = some element) ∨
      ∃ content children closing tag inside, node = .element content children closing ∧
        Element.ofTag? content = some tag ∧ elementsOf? children = some inside ∧
        element = { tag with children := inside } := by
  cases node with
  | leaf token isLeaf =>
    cases token with
    | emptyTag content =>
      obtain ⟨tag, htag, hsame⟩ := Option.map_eq_some_iff.mp h
      obtain ⟨rfl, -⟩ := List.cons.inj hsame
      exact .inl ⟨content, isLeaf, rfl, htag⟩
    | _ => cases h
  | element content children closing =>
    obtain ⟨tag, htag, hrest⟩ := Option.bind_eq_some_iff.mp h
    obtain ⟨inside, hinside, hsame⟩ := Option.map_eq_some_iff.mp hrest
    obtain ⟨rfl, -⟩ := List.cons.inj hsame
    exact .inr ⟨content, children, closing, tag, inside, rfl, htag, hinside, rfl⟩

theorem elements?_length {node : Node} {elements : List Element} (h : node.elements? = some elements) :
    elements = [] ∨ ∃ element, elements = [element] := by
  cases node with
  | leaf token isLeaf =>
    cases token with
    | emptyTag content =>
      obtain ⟨tag, -, rfl⟩ := Option.map_eq_some_iff.mp h
      exact .inr ⟨tag, rfl⟩
    | _ => exact .inl (Option.some.inj h).symm
  | element content children closing =>
    obtain ⟨tag, -, hrest⟩ := Option.bind_eq_some_iff.mp h
    obtain ⟨inside, -, rfl⟩ := Option.map_eq_some_iff.mp hrest
    exact .inr ⟨_, rfl⟩

/-- The first element with a property comes from a node, and no node in front of it has one with the property. -/
theorem exists_node_of_find? {nodes : List Node} {elements : List Element} {p : Element → Bool} {found : Element}
    (h : elementsOf? nodes = some elements) (hfind : elements.find? p = some found) :
    ∃ front node back before after, nodes = front ++ node :: back ∧ elementsOf? front = some before ∧
      node.elements? = some [found] ∧ elementsOf? back = some after ∧ elements = before ++ found :: after ∧
      ∀ element ∈ before, p element = false := by
  induction nodes generalizing elements with
  | nil =>
    obtain rfl := Option.some.inj h
    cases hfind
  | cons node rest ih =>
    obtain ⟨own, hown, hmore⟩ := Option.bind_eq_some_iff.mp h
    obtain ⟨more, hrest, rfl⟩ := Option.map_eq_some_iff.mp hmore
    rcases elements?_length hown with rfl | ⟨element, rfl⟩
    · obtain ⟨front, found', back, before, after, rfl, hfront, hnode, hback, hsame, hbefore⟩ := ih hrest hfind
      refine ⟨node :: front, found', back, before, after, rfl, ?_, hnode, hback, hsame, hbefore⟩
      rw [elementsOf?, hown, hfront]
      rfl
    · by_cases hp : p element
      · rw [List.singleton_append, List.find?_cons_of_pos hp] at hfind
        obtain rfl := Option.some.inj hfind
        exact ⟨[], node, rest, [], more, rfl, rfl, hown, hrest, rfl, fun _ hmem => nomatch hmem⟩
      · rw [List.singleton_append, List.find?_cons_of_neg hp] at hfind
        obtain ⟨front, found', back, before, after, rfl, hfront, hnode, hback, hsame, hbefore⟩ := ih hrest hfind
        refine ⟨node :: front, found', back, element :: before, after, rfl, ?_, hnode, hback, ?_, ?_⟩
        · rw [elementsOf?, hown, hfront]
          rfl
        · rw [hsame]
          rfl
        · intro other hmem
          rcases List.mem_cons.mp hmem with rfl | hmem
          · exact Bool.eq_false_iff.mpr hp
          · exact hbefore other hmem

/-! ## The root -/

/-- Of elements that stand in no other one the first is the root. -/
theorem foldl_attach_outermost (elements : List Element) (root : Option Element) :
    elements.foldl Growth.attach ⟨[], root⟩ = ⟨[], root.or elements.head?⟩ := by
  induction elements generalizing root with
  | nil => cases root <;> rfl
  | cons element rest ih =>
    rw [List.foldl_cons, Growth.attach, ih]
    cases root <;> rfl

theorem root_foldl_attach (elements : List Element) (root : Option Element) :
    (elements.foldl Growth.attach ⟨[], root⟩).root = root.or elements.head? := by
  rw [foldl_attach_outermost]

/-- Tags that are never closed make no root. -/
theorem Unclosed.root_eq {rest : List Token} (h : Unclosed rest) {growth grown : Growth}
    (hgrown : rest.foldlM Growth.add growth = some grown) : grown.root = growth.root := by
  induction h generalizing growth with
  | nil =>
    obtain rfl := Option.some.inj hgrown
    rfl
  | cons content nodes h ih =>
    rw [List.foldlM_cons] at hgrown
    obtain ⟨entered, hentered, hrest⟩ := Option.bind_eq_some_iff.mp hgrown
    obtain ⟨tag, -, rfl⟩ := Option.map_eq_some_iff.mp hentered
    rw [List.foldlM_append, foldlM_tokensOf] at hrest
    obtain ⟨inside, hinside, hgrown'⟩ := Option.bind_eq_some_iff.mp hrest
    obtain ⟨elements, -, rfl⟩ := Option.map_eq_some_iff.mp hinside
    rw [ih hgrown', foldl_attach_opened]

theorem rootOf?_tokensOf (nodes : List Node) :
    rootOf? (tokensOf nodes) = (elementsOf? nodes).map List.head? := by
  rw [rootOf?, foldlM_tokensOf, Option.map_map]
  cases elementsOf? nodes with
  | none => rfl
  | some elements => exact congrArg some (root_foldl_attach elements none)

/-- The root of tokens that are markup comes from the first node that is a tag. -/
theorem exists_elements_of_rootOf? {row : List Token} {root : Element} (hnests : nests [] row)
    (hroot : rootOf? row = some (some root)) : ∃ nodes rest elements, row = tokensOf nodes ++ rest ∧
      Unclosed rest ∧ elementsOf? nodes = some (root :: elements) := by
  obtain ⟨nodes, rest, rfl, hrest⟩ := exists_nodes row
  rcases hrest with hopen | ⟨content, after, rfl⟩
  · obtain ⟨grown, hgrown, hrooted⟩ := Option.map_eq_some_iff.mp hroot
    rw [List.foldlM_append, foldlM_tokensOf] at hgrown
    obtain ⟨complete, hcomplete, hafter⟩ := Option.bind_eq_some_iff.mp hgrown
    obtain ⟨elements, helements, rfl⟩ := Option.map_eq_some_iff.mp hcomplete
    rw [hopen.root_eq hafter, root_foldl_attach, Option.none_or] at hrooted
    obtain ⟨more, rfl⟩ := List.head?_eq_some_iff.mp hrooted
    exact ⟨nodes, rest, more, rfl, hopen, helements⟩
  · rw [nests_tokensOf, nests, Bool.and_false] at hnests
    cases hnests

/-- The number of elements that stand in no other one, where `depth` elements are open at first. -/
def outermost : Nat → List Token → Nat
  | _, [] => 0
  | depth, .openTag _ :: rest => (if depth = 0 then 1 else 0) + outermost (depth + 1) rest
  | depth, .emptyTag _ :: rest => (if depth = 0 then 1 else 0) + outermost depth rest
  | depth, .closeTag _ :: rest => outermost (depth - 1) rest
  | depth, _ :: rest => outermost depth rest

mutual

theorem outermost_tokens (node : Node) {elements : List Element} (h : node.elements? = some elements)
    (depth : Nat) (rest : List Token) : outermost depth (node.tokens ++ rest) =
      (if depth = 0 then elements.length else 0) + outermost depth rest := by
  cases node with
  | leaf token isLeaf =>
    cases token with
    | openTag content => cases isLeaf
    | closeTag content => cases isLeaf
    | emptyTag content =>
      obtain ⟨tag, -, rfl⟩ := Option.map_eq_some_iff.mp h
      rfl
    | _ =>
      obtain rfl := Option.some.inj h
      rw [List.length_nil, ite_self, Nat.zero_add]
      rfl
  | element content children closing =>
    obtain ⟨tag, -, hrest⟩ := Option.bind_eq_some_iff.mp h
    obtain ⟨inside, hinside, rfl⟩ := Option.map_eq_some_iff.mp hrest
    rw [tokens, List.cons_append, List.append_assoc, List.singleton_append, outermost,
      outermost_tokensOf children hinside, if_neg (Nat.succ_ne_zero depth), Nat.zero_add, outermost,
      Nat.add_sub_cancel, List.length_singleton]

theorem outermost_tokensOf (nodes : List Node) {elements : List Element} (h : elementsOf? nodes = some elements)
    (depth : Nat) (rest : List Token) : outermost depth (tokensOf nodes ++ rest) =
      (if depth = 0 then elements.length else 0) + outermost depth rest := by
  cases nodes with
  | nil =>
    obtain rfl := Option.some.inj h
    rw [List.length_nil, ite_self, Nat.zero_add]
    rfl
  | cons node nodes =>
    obtain ⟨own, hown, hmore⟩ := Option.bind_eq_some_iff.mp h
    obtain ⟨more, hrest, rfl⟩ := Option.map_eq_some_iff.mp hmore
    rw [tokensOf, List.append_assoc, outermost_tokens node hown, outermost_tokensOf nodes hrest,
      List.length_append]
    split <;> omega

end

/-- Tokens with one outermost element that have a root are nodes, of which one is a tag. -/
theorem exists_single_root {row : List Token} {root : Element} (hnests : nests [] row)
    (hroot : rootOf? row = some (some root)) (hsingle : outermost 0 row = 1) :
    ∃ nodes, row = tokensOf nodes ∧ elementsOf? nodes = some [root] := by
  obtain ⟨nodes, rest, elements, rfl, hrest, helements⟩ := exists_elements_of_rootOf? hnests hroot
  rw [outermost_tokensOf nodes helements, if_pos rfl, List.length_cons] at hsingle
  have hnone : elements = [] := List.eq_nil_of_length_eq_zero (by omega)
  have hclosed : rest = [] := by
    cases hrest with
    | nil => rfl
    | cons content inside h =>
      rw [outermost, if_pos rfl] at hsingle
      omega
  subst hnone hclosed
  exact ⟨nodes, List.append_nil _, helements⟩

end Node

end ModuleAudit.Markup
