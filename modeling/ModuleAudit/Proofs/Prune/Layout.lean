import ModuleAudit.Proofs.Prune.Frame

/-! Where the dependencies stand in a descriptor. A layout names everything around the children of the first
`dependencies` element of the root, so that other children can be put in their place. The walk finds the siblings
of a layout's children, and the tree has the elements of the children in the same place. -/

namespace ModuleAudit.Prune
set_option autoImplicit false

open Markup Node

structure Layout where
  before : List Node
  rootTag : List Char
  front : List Node
  tag : List Char
  entries : List Node
  closing : List Char
  back : List Node
  rootClosing : List Char
  after : List Node
  rest : List Token
  noElements : elementsOf? before = some []
  named : elementName tag = "dependencies"
  first : ∃ elements, elementsOf? front = some elements ∧ ∀ element ∈ elements, element.name ≠ "dependencies"

namespace Layout

/-- The tokens up to the children of the dependencies. -/
def lead (layout : Layout) : List Token :=
  tokensOf layout.before ++ (.openTag layout.rootTag :: (tokensOf layout.front ++ [.openTag layout.tag]))

/-- The tokens from the end of the dependencies on. -/
def trail (layout : Layout) : List Token :=
  .closeTag layout.closing :: (tokensOf layout.back ++
    (.closeTag layout.rootClosing :: (tokensOf layout.after ++ layout.rest)))

def tokens (layout : Layout) : List Token := layout.lead ++ (tokensOf layout.entries ++ layout.trail)

def nodes (layout : Layout) : List Node :=
  layout.before ++ .element layout.rootTag
    (layout.front ++ .element layout.tag layout.entries layout.closing :: layout.back) layout.rootClosing ::
      layout.after

theorem tokens_eq (layout : Layout) : layout.tokens = tokensOf layout.nodes ++ layout.rest := by
  rw [tokens, lead, trail, nodes, tokensOf_append, tokensOf, Node.tokens, tokensOf_append, tokensOf, Node.tokens]
  simp only [List.append_assoc, List.cons_append, List.nil_append]

/-! ## The walk -/

/-- The walk up to a node inside the root. -/
theorem walk_front {before front : List Node} (hbefore : elementsOf? before = some []) {elements : List Element}
    (hfront : elementsOf? front = some elements) (hnames : ∀ element ∈ elements, element.name ≠ "dependencies")
    (rootTag : List Char) (row : List Token) :
    (Markup.locate 0 (tokensOf before ++ (.openTag rootTag :: (tokensOf front ++ row)))).foldlM Walk.step {} =
      (Markup.locate (byteLength ((tokensOf before ++ (.openTag rootTag :: tokensOf front)).flatMap Token.written))
        row).foldlM Walk.step { depth := 1 } := by
  have hplace : tokensOf before ++ (.openTag rootTag :: (tokensOf front ++ row)) =
      (tokensOf before ++ (.openTag rootTag :: tokensOf front)) ++ row := by simp
  have hlead : (Markup.locate 0 (tokensOf before ++ (.openTag rootTag :: tokensOf front))).foldlM Walk.step {} =
      some { depth := 1 } := by
    rw [locate_append, List.foldlM_append, walk_of_no_elements hbefore rfl]
    exact walk_of_no_dependencies hfront hnames _
  rw [hplace, locate_append, List.foldlM_append, hlead, Nat.zero_add]
  rfl

/-- Everything around the children of the dependencies. -/
def frame (layout : Layout) : Frame where
  front := tokensOf layout.before ++ (.openTag layout.rootTag :: tokensOf layout.front)
  tag := layout.tag
  trail := layout.trail
  enters := by
    obtain ⟨elements, hfront, hnames⟩ := layout.first
    rw [List.append_assoc, List.cons_append, walk_front layout.noElements hfront hnames, Markup.locate,
      List.foldlM_cons, Walk.step, Walk.enter, layout.named]
    rfl
  closes := closes_closeTag _ _

theorem row_frame (layout : Layout) : layout.frame.row layout.entries = layout.tokens := by
  rw [Frame.row, tokens, frame, lead]
  simp only [List.append_assoc, List.cons_append, List.nil_append]

theorem siblings?_of_past {text : List Char} {row : List Token} (hread : read? text = some row) {last : Walk}
    {siblings : List Sibling} (hwalk : (Markup.locate 0 row).foldlM Walk.step {} = some last)
    (hpast : last.Past siblings) : siblings? text = some (some siblings) := by
  rw [siblings?, hread, Option.bind_eq_bind, Option.bind_some, hwalk, Option.bind_eq_bind, Option.bind_some,
    hpast.found, hpast.same]
  rfl

/-! ## The tree -/

/-- The elements that the parts of a layout stand for. -/
structure Elements (layout : Layout) where
  root : Element
  front : List Element
  dependencies : Element
  inside : List Element
  back : List Element
  after : List Element
  root_eq : Element.ofTag? layout.rootTag = some root
  front_eq : elementsOf? layout.front = some front
  dependencies_eq : Element.ofTag? layout.tag = some dependencies
  inside_eq : elementsOf? layout.entries = some inside
  back_eq : elementsOf? layout.back = some back
  after_eq : elementsOf? layout.after = some after

namespace Elements

variable {layout : Layout}

/-- The dependencies with what is inside. -/
def filled (elements : Elements layout) : Element := { elements.dependencies with children := elements.inside }

/-- The root with what is inside. -/
def whole (elements : Elements layout) : Element :=
  { elements.root with children := elements.front ++ elements.filled :: elements.back }

theorem elementsOf?_nodes (elements : Elements layout) :
    elementsOf? layout.nodes = some (elements.whole :: elements.after) := by
  rw [nodes, elementsOf?_append, layout.noElements, elementsOf?, elements?, elements.root_eq, elementsOf?_append,
    elements.front_eq, elementsOf?, elements?, elements.dependencies_eq, elements.inside_eq, elements.back_eq,
    elements.after_eq]
  rfl

theorem name_filled (elements : Elements layout) : elements.filled.name = "dependencies" :=
  (name_of_ofTag? elements.dependencies_eq).trans layout.named

end Elements

end Layout

/-- The node of the root, and nodes in front of it that are no tags. -/
theorem exists_root_node {nodes : List Node} {root : Element} {more : List Element}
    (h : elementsOf? nodes = some (root :: more)) : ∃ before node after, nodes = before ++ node :: after ∧
      elementsOf? before = some [] ∧ node.elements? = some [root] ∧ elementsOf? after = some more := by
  obtain ⟨before, node, after, passed, others, hnodes, hbefore, hnode, hafter, hsame, hpassed⟩ :=
    exists_node_of_find? h (List.find?_cons_of_pos (p := fun _ => true) rfl)
  cases passed with
  | nil =>
    obtain ⟨-, rfl⟩ := List.cons.inj hsame
    exact ⟨before, node, after, hnodes, hbefore, hnode, hafter⟩
  | cons element rest => cases hpassed element List.mem_cons_self

/-- Where the dependencies of a root stand: they are an empty tag, or the tokens have a layout. -/
theorem exists_layout {nodes : List Node} (rest : List Token) {root : Element} {more : List Element}
    (helements : elementsOf? nodes = some (root :: more)) {dependencies : Element}
    (hchild : root.child? "dependencies" = some dependencies) :
    (dependencies.children = [] ∧ ∀ text, read? text = some (tokensOf nodes ++ rest) →
        siblings? text = some (some [])) ∨
      ∃ (layout : Layout) (elements : layout.Elements), layout.tokens = tokensOf nodes ++ rest ∧
        layout.rest = rest ∧ elements.whole = root ∧ elements.filled = dependencies := by
  obtain ⟨before, node, after, rfl, hbefore, hnode, hafter⟩ := exists_root_node helements
  rcases tag_of_elements? hnode with ⟨content, isLeaf, rfl, htag⟩ |
    ⟨rootTag, children, rootClosing, rootElement, inside, rfl, hroot, hinside, rfl⟩
  · rw [Element.child?, children_of_ofTag? htag] at hchild
    cases hchild
  · have hfind : inside.find? (fun element => decide (element.name = "dependencies")) = some dependencies := hchild
    obtain ⟨front, place, back, passed, others, rfl, hfront, hplace, hback, rfl, hpassed⟩ :=
      exists_node_of_find? hinside hfind
    have hnames : ∀ element ∈ passed, element.name ≠ "dependencies" :=
      fun element hmem => of_decide_eq_false (hpassed element hmem)
    have hname : dependencies.name = "dependencies" := by
      have hfound := List.find?_some hfind
      exact of_decide_eq_true hfound
    rcases tag_of_elements? hplace with ⟨content, isLeaf, rfl, htag⟩ |
      ⟨tag, entries, closing, dependencyTag, own, rfl, htag, hentries, rfl⟩
    · refine .inl ⟨children_of_ofTag? htag, fun text hread => ?_⟩
      rw [name_of_ofTag? htag] at hname
      have hpast : ({ depth := 1, found := true } : Walk).Past [] := ⟨rfl, rfl, rfl⟩
      obtain ⟨last, hlast, hend⟩ := hpast.walk (Markup.locate
        (byteLength ((tokensOf before ++ (.openTag rootTag :: tokensOf front)).flatMap Token.written) +
          byteLength (Token.emptyTag content).written)
        (tokensOf back ++ (.closeTag rootClosing :: (tokensOf after ++ rest))))
      have hrow : tokensOf (before ++ .element rootTag (front ++ .leaf (.emptyTag content) isLeaf :: back)
          rootClosing :: after) ++ rest = tokensOf before ++ (.openTag rootTag :: (tokensOf front ++
            (.emptyTag content :: (tokensOf back ++ (.closeTag rootClosing :: (tokensOf after ++ rest)))))) := by
        rw [tokensOf_append, tokensOf, tokens, tokensOf_append, tokensOf, tokens]
        simp only [List.append_assoc, List.cons_append, List.nil_append]
      refine Layout.siblings?_of_past hread ?_ hend
      rw [hrow, Layout.walk_front hbefore hfront hnames, Markup.locate, List.foldlM_cons, Walk.step,
        Walk.meetEmpty, hname]
      exact hlast
    · have hnamed : elementName tag = "dependencies" := (name_of_ofTag? htag).symm.trans hname
      let layout : Layout := ⟨before, rootTag, front, tag, entries, closing, back, rootClosing, after, rest, hbefore,
        hnamed, passed, hfront, hnames⟩
      let elements : layout.Elements := ⟨rootElement, passed, dependencyTag, own, others, more, hroot, hfront, htag,
        hentries, hback, hafter⟩
      exact .inr ⟨layout, elements, layout.tokens_eq, rfl, rfl, rfl⟩

/-- Without dependencies in the only root, the walk finds none. -/
theorem siblings?_of_no_child {text : List Char} {nodes : List Node} {root : Element}
    (hread : read? text = some (tokensOf nodes)) (helements : elementsOf? nodes = some [root])
    (hchild : root.child? "dependencies" = none) : siblings? text = some none := by
  obtain ⟨before, node, after, rfl, hbefore, hnode, hafter⟩ := exists_root_node helements
  have hwalk : ∀ place, (Markup.locate place node.tokens).foldlM Walk.step {} = some {} := by
    intro place
    rcases tag_of_elements? hnode with ⟨content, isLeaf, rfl, htag⟩ |
      ⟨rootTag, children, rootClosing, rootElement, inside, rfl, hroot, hinside, rfl⟩
    · rfl
    · have hnames : ∀ element ∈ inside, element.name ≠ "dependencies" := by
        intro element hmem hname
        exact List.find?_eq_none.mp hchild element hmem (decide_eq_true hname)
      have hentered : Walk.enter {} rootTag ⟨place, place + byteLength (Token.openTag rootTag).written⟩ =
          some { depth := 1 } := rfl
      rw [walk_element, hentered, Option.bind_some, walk_of_no_dependencies hinside hnames]
      rfl
  have hend : (Markup.locate 0 (tokensOf (before ++ node :: after))).foldlM Walk.step {} = some {} := by
    rw [locate_tokensOf_append, List.foldlM_append, walk_of_no_elements hbefore rfl, Option.bind_eq_bind,
      Option.bind_some, tokensOf, locate_append, List.foldlM_append, hwalk]
    exact walk_of_no_elements hafter rfl _
  rw [siblings?, hread, Option.bind_eq_bind, Option.bind_some, hend]
  rfl

end ModuleAudit.Prune
