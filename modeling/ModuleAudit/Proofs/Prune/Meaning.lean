import ModuleAudit.Proofs.Prune.Entries

/-! What an edit leaves of a descriptor means what it meant. The text that is left is read as the tokens that stay. So
the tree is the same but for the entries that are gone, and the descriptor is the same but for their dependencies. -/

namespace ModuleAudit.Prune
set_option autoImplicit false

open Markup Node
open ModuleDescriptor (dependencyOf entriesOf IsModule)

/-! ## The module of a layout -/

namespace Layout

variable {layout : Layout} {labels : List Label}

/-- The layout with the children that stay. -/
def kept (layout : Layout) (labels : List Label) : Layout := { layout with entries := keptNodes labels }

/-- What the editor does with the children of the dependencies in a layout. -/
abbrev Edited (layout : Layout) (text : List Char) (unused : List String) (decisions : Decisions)
    (groups : List Group) (labels : List Label) : Prop :=
  layout.frame.Edited layout.entries text unused decisions groups labels

/-- The text that an edit leaves is read as the tokens that stay. -/
theorem Edited.read?_text {text : String} {unused : List String} {decisions : Decisions} {groups : List Group}
    (h : layout.Edited text.toList unused decisions groups labels) (hread : read? text.toList = some layout.tokens)
    (hends : ¬ ['\r', '\n'] <:+: text.toList) (hmark : text.toList.head? ≠ some byteOrderMark) :
    read? (decisions.edit text).text.toList = some (layout.kept labels).tokens := by
  rw [← row_frame] at hread ⊢
  exact (h.text_edit hread hends hmark).2.2.2

end Layout

namespace Layout.Elements

variable {layout other : Layout}

theorem root?_of_read? {text : String} (elements : layout.Elements) (hrest : layout.rest = [])
    (h : read? text.toList = some layout.tokens) : root? text = some (some elements.whole) := by
  rw [root?, h, Option.bind_some, tokens_eq, hrest, List.append_nil, rootOf?_tokensOf, elements.elementsOf?_nodes]
  rfl

theorem child?_whole (elements : layout.Elements) {name : String} (h : name ≠ "dependencies") :
    elements.whole.child? name = (elements.front ++ elements.back).find? (·.name = name) := by
  have hother : decide (elements.filled.name = name) = false := by
    rw [elements.name_filled]
    exact decide_eq_false h.symm
  rw [Element.child?, whole, List.find?_append, List.find?_cons, hother, List.find?_append]

theorem entriesOf_whole (elements : layout.Elements) : entriesOf elements.whole "dependencies" = elements.inside := by
  obtain ⟨passed, hfront, hnames⟩ := layout.first
  obtain rfl := Option.some.inj (hfront.symm.trans elements.front_eq)
  have hnone : elements.front.find? (fun element => decide (element.name = "dependencies")) = none := by
    refine List.find?_eq_none.mpr fun element hmem => ?_
    rw [decide_eq_true_eq]
    exact hnames element hmem
  have hfound : elements.whole.child? "dependencies" = some elements.filled := by
    rw [Element.child?, whole, List.find?_append, hnone, Option.none_or, List.find?_cons,
      decide_eq_true elements.name_filled]
  rw [entriesOf, hfound]
  rfl

/-- Other entries of the dependencies leave the rest of a module as it is. -/
theorem isModule_of_inside (elements : layout.Elements) (others : other.Elements)
    (hroot : others.root = elements.root) (hfront : others.front = elements.front)
    (hback : others.back = elements.back) {name : String} {mainClass : Option String}
    {resources : List ModuleDescriptor.Resource} {dependencies found : List Dependency}
    (h : IsModule elements.whole name mainClass resources dependencies)
    (hfound : others.inside.mapM dependencyOf = .ok found) :
    IsModule others.whole name mainClass resources (.onOwn :: found) := by
  have hchild : ∀ name, name ≠ "dependencies" → others.whole.child? name = elements.whole.child? name := by
    intro name hname
    rw [others.child?_whole hname, elements.child?_whole hname, hfront, hback]
  have hname : others.whole.name = elements.whole.name := by
    rw [whole, hroot, whole]
  have hvalue : ∀ key, others.whole.value? key = elements.whole.value? key := by
    intro key
    rw [Element.value?, whole, hroot, Element.value?, whole]
  refine ⟨hname.trans h.tag, ?_, ?_, ?_, found, ?_, rfl⟩
  · rw [← h.name, ModuleDescriptor.nameFrom, ModuleDescriptor.nameFrom, ModuleDescriptor.required,
      ModuleDescriptor.required, hvalue, hvalue, hname]
  · rw [← h.mainClass, ModuleDescriptor.mainClassOf, ModuleDescriptor.mainClassOf, hchild _ (by decide)]
  · obtain ⟨all, hall, hresources⟩ := h.resources
    refine ⟨all, ?_, hresources⟩
    rw [← hall, entriesOf, entriesOf, hchild _ (by decide)]
  · rw [entriesOf_whole]
    exact hfound

/-- The editor decides on the dependencies of the module. -/
theorem exists_edited {text : String} (elements : layout.Elements) (hread : read? text.toList = some layout.tokens)
    {name : String} {mainClass : Option String} {resources : List ModuleDescriptor.Resource}
    {dependencies : List Dependency} (h : IsModule elements.whole name mainClass resources dependencies)
    (unused : List String) :
    ∃ decisions groups labels, layout.Edited text.toList unused decisions groups labels ∧
      removeDependencies text unused = decisions.outcome text ∧
      ∃ choices inside, dependencies = .onOwn :: choices.map Prod.fst ∧
        (∀ flag, (chosen flag choices).map Dependency.moduleName? = modules flag (labels.filterMap markOf)) ∧
        elementsOf? (keptNodes labels) = some inside ∧ inside.mapM dependencyOf = .ok (chosen false choices) := by
  rw [← row_frame] at hread
  obtain ⟨decisions, groups, labels, hedited, hdecided⟩ :=
    Frame.exists_edited hread (nameable_of_elementsOf? elements.inside_eq) unused
  obtain ⟨found, hfound, rfl⟩ := h.dependencies
  rw [elements.entriesOf_whole] at hfound
  obtain ⟨choices, inside, rfl, hchoices⟩ := exists_choices (hedited.nodes_labels ▸ elements.inside_eq) hfound
  exact ⟨decisions, groups, labels, hedited, hdecided, choices, inside, rfl, hchoices⟩

/-- The elements of the children that stay, with everything around them. -/
def kept (elements : layout.Elements) {labels : List Label} {inside : List Element}
    (h : elementsOf? (keptNodes labels) = some inside) : (layout.kept labels).Elements :=
  { elements with inside, inside_eq := h }

end Layout.Elements

/-! ## The main result -/

/-- Whether a text is a document with one outermost element. -/
def SingleRoot (text : String) : Prop :=
  ∃ tokens, read? text.toList = some tokens ∧ Node.outermost 0 tokens = 1

/-- What an edit leaves of a descriptor is the descriptor without the dependencies that were removed. They are those of
the modules that the edit names as removed, in order; of the other unused ones, the edit names all as preserved. -/
theorem parse_edit {text : String} (hroot : SingleRoot text) (hends : ¬ ['\r', '\n'] <:+: text.toList)
    (hmark : text.toList.head? ≠ some byteOrderMark) {unused : List String} {edit : Edit} {notes : List Note}
    (hedit : removeDependencies text unused = .ok (edit, notes)) {name : String} {mainClass : Option String}
    {resources : List ModuleDescriptor.Resource} {dependencies : List Dependency}
    (hparse : ModuleDescriptor.parse text = .ok (.module name mainClass resources dependencies)) :
    ∃ choices : List (Dependency × Bool), choices.map Prod.fst = dependencies ∧
      ModuleDescriptor.parse edit.text = .ok (.module name mainClass resources (chosen false choices)) ∧
      (chosen true choices).map Dependency.moduleName? = edit.removed.map some ∧
      unusedIn unused ((chosen false choices).map Dependency.moduleName?) = edit.preserved ∧
      ∀ module ∈ edit.removed, module ∈ unused := by
  obtain ⟨root, hfound, hmodule⟩ := ModuleDescriptor.parse_eq_module_iff.mp hparse
  obtain ⟨row, hread, hsingle⟩ := hroot
  rw [root?, hread, Option.bind_some] at hfound
  obtain ⟨nodes, rfl, hnodes⟩ := exists_single_root (read?_eq_some_iff.mp hread).2 hfound hsingle
  rcases hchild : root.child? "dependencies" with _ | child
  · rw [removeDependencies, siblings?_of_no_child hread hnodes hchild] at hedit
    cases hedit
  rcases exists_layout [] hnodes hchild with ⟨hempty, hsiblings⟩ |
    ⟨layout, elements, htokens, hrest, rfl, rfl⟩
  · -- an empty tag holds no entries, and nothing is cut
    rw [removeDependencies_eq (hsiblings _ (by rw [List.append_nil]; exact hread))] at hedit
    obtain ⟨rfl, -⟩ := Decisions.eq_of_outcome hedit
    obtain ⟨all, hall, rfl⟩ := hmodule.dependencies
    rw [entriesOf, hchild, Option.map_some, Option.getD_some, hempty] at hall
    obtain rfl := Except.ok.inj hall
    refine ⟨[(.onOwn, false)], rfl, ?_, rfl, rfl, fun _ hmem => absurd hmem List.not_mem_nil⟩
    exact (congrArg ModuleDescriptor.parse (text_edit_of_no_decisions hends)).trans hparse
  · rw [List.append_nil] at htokens
    rw [← htokens] at hread
    obtain ⟨decisions, groups, labels, hedited, hdecided, choices, inside, rfl, hnames, hinside, hkept⟩ :=
      elements.exists_edited hread hmodule unused
    obtain ⟨rfl, rfl⟩ := Decisions.eq_of_outcome (hdecided.symm.trans hedit)
    have hleft := (elements.kept hinside).root?_of_read? hrest (hedited.read?_text hread hends hmark)
    have hmodule' := elements.isModule_of_inside (elements.kept hinside) rfl rfl rfl hmodule hkept
    refine ⟨(.onOwn, false) :: choices, rfl, ModuleDescriptor.parse_eq_module_iff.mpr ⟨_, hleft, hmodule'⟩, ?_, ?_,
      hedited.sound.isUnused⟩
    · rw [chosen_cons, if_neg Bool.false_ne_true, List.nil_append, hnames, hedited.marks, hedited.sound.removed]
      rfl
    · rw [chosen_cons, if_pos rfl, List.map_append, unusedIn_append, hnames, hedited.marks, hedited.sound.preserved]
      rfl

/-- A comment keeps the first entry for `a`. In front of the second one stand words, which go with it. -/
def shopRow : List Token :=
  [.openTag "module name=\"shop\"".toList, .emptyTag "main-class name=\"Shop\"".toList,
    .openTag "dependencies".toList, .comment " keep ".toList, .emptyTag "module name=\"a\"".toList,
    .text " words ".toList, .verbatim "<x/>".toList, .openTag "module name=\"a\" services=\"import\"".toList,
    .closeTag "module".toList, .instruction "mark".toList, .openTag "module name=\"b\"".toList,
    .openTag "imports".toList, .emptyTag "include path=\"p\"".toList, .closeTag "imports".toList,
    .closeTag "module".toList, .closeTag "dependencies".toList, .closeTag "module".toList, .text ['\n']]

def shop : String := String.ofList (shopRow.flatMap Token.written)

def shopEdit : Edit where
  text := String.ofList ((shopRow.take 5 ++ shopRow.drop 9).flatMap Token.written)
  removed := ["a"]
  preserved := ["a"]

def shopDependencies : List Dependency :=
  [.onOwn, .onModule "a", { Dependency.onModule "a" with imports := .defaultImportWithServices },
    { Dependency.onModule "b" with imports := ModuleDescriptor.importFilter .none [(.ofPattern "p", true)] }]

theorem parse_edit_shop : SingleRoot shop ∧
    removeDependencies shop ["a"] = .ok (shopEdit, [.preserved "a", .lostText "a"]) ∧
    ModuleDescriptor.parse shop = .ok (.module "shop" (some "Shop") [] shopDependencies) ∧
    ∃ choices : List (Dependency × Bool), choices.map Prod.fst = shopDependencies ∧
      ModuleDescriptor.parse shopEdit.text = .ok (.module "shop" (some "Shop") [] (chosen false choices)) ∧
      (chosen true choices).map Dependency.moduleName? = [some "a"] ∧
      unusedIn ["a"] ((chosen false choices).map Dependency.moduleName?) = ["a"] ∧
      ∀ module ∈ ["a"], module ∈ ["a"] := by
  have hchars : shop.toList = shopRow.flatMap Token.written := String.toList_ofList
  have hread : read? shop.toList = some shopRow := by
    rw [hchars]
    decide +kernel
  have hsingle : SingleRoot shop := ⟨shopRow, hread, by decide⟩
  have hends : ¬ ['\r', '\n'] <:+: shop.toList := by
    rw [hchars]
    decide +kernel
  have hmark : shop.toList.head? ≠ some byteOrderMark := by
    rw [hchars]
    decide +kernel
  have hedit : removeDependencies shop ["a"] = .ok (shopEdit, [.preserved "a", .lostText "a"]) := by
    rw [removeDependencies, hchars]
    decide +kernel
  have hparse : ModuleDescriptor.parse shop = .ok (.module "shop" (some "Shop") [] shopDependencies) := by
    refine ModuleDescriptor.parse_eq_module_iff.mpr ⟨⟨"module", [("name", "shop")],
      [⟨"main-class", [("name", "Shop")], []⟩, ⟨"dependencies", [], [⟨"module", [("name", "a")], []⟩,
        ⟨"module", [("name", "a"), ("services", "import")], []⟩,
        ⟨"module", [("name", "b")], [⟨"imports", [], [⟨"include", [("path", "p")], []⟩]⟩]⟩]⟩]⟩, ?_,
      ⟨rfl, rfl, rfl, ⟨[], rfl, rfl⟩, ⟨shopDependencies.tail, rfl, rfl⟩⟩⟩
    rw [root?, hread]
    rfl
  exact ⟨hsingle, hedit, hparse, parse_edit hsingle hends hmark hedit hparse⟩

def markedRow : List Token :=
  [.openTag "module name=\"m\"".toList, .openTag "dependencies".toList, .emptyTag "module name=\"a\"".toList,
    .closeTag "dependencies".toList, .closeTag "module".toList]

/-- A text that starts with a mark. -/
def marked : String := String.ofList (byteOrderMark :: markedRow.flatMap Token.written)

/-- Spans do not count the mark that a text may start with. What is cut out of such a text is not the entry that was
found, and what is left need not be markup. -/
theorem malformed_edit_marked : SingleRoot marked ∧ ¬ ['\r', '\n'] <:+: marked.toList ∧
    ModuleDescriptor.parse marked = .ok (.module "m" none [] [.onOwn, .onModule "a"]) ∧
    ∃ edit notes, removeDependencies marked ["a"] = .ok (edit, notes) ∧ edit.removed = ["a"] ∧
      ModuleDescriptor.parse edit.text = .error .malformed := by
  have hchars : marked.toList = byteOrderMark :: markedRow.flatMap Token.written := String.toList_ofList
  have hread : read? marked.toList = some markedRow := by
    rw [hchars]
    decide +kernel
  have hsiblings : siblings? marked.toList = some (some [⟨.element (some "a"), ⟨31, 49⟩⟩]) := by
    rw [hchars]
    decide +kernel
  refine ⟨⟨markedRow, hread, by decide⟩, ?_, ?_, _, _, removeDependencies_eq hsiblings ["a"], ?_, ?_⟩
  · rw [hchars]
    decide +kernel
  · refine ModuleDescriptor.parse_eq_module_iff.mpr ⟨⟨"module", [("name", "m")],
      [⟨"dependencies", [], [⟨"module", [("name", "a")], []⟩]⟩]⟩, ?_,
      ⟨rfl, rfl, rfl, ⟨[], rfl, rfl⟩, ⟨[.onModule "a"], rfl, rfl⟩⟩⟩
    rw [root?, hread]
    rfl
  · rw [hchars]
    decide +kernel
  · have hleft : read? ((Decisions.on marked.toList ["a"] [⟨.element (some "a"), ⟨31, 49⟩⟩]).edit
        marked).text.toList = none := by
      rw [Decisions.edit, String.toList_ofList, hchars]
      decide +kernel
    rw [ModuleDescriptor.parse, ModuleDescriptor.rootOf, root?, hleft]
    rfl

end ModuleAudit.Prune
