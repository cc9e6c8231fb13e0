import ModuleAudit.Proofs.Descriptor
import ModuleAudit.Proofs.Prune.Layout
import ModuleAudit.Proofs.Prune.Written

/-! The entries of the dependencies, as the editor and as the descriptor see them. The editor decides on siblings,
and a descriptor has a dependency for every sibling that is an element. So the decisions are choices of
dependencies, and the names that the editor reports are the names of the dependencies chosen. -/

namespace ModuleAudit.Prune
set_option autoImplicit false

open Markup Node
open ModuleDescriptor (dependencyOf)

/-! ## Elements of groups -/

theorem elementsOf?_textual {nodes : List Node}
    (h : ∀ node ∈ nodes, ∃ token isLeaf, node = .leaf token isLeaf ∧ isTextual token) :
    elementsOf? nodes = some [] := by
  induction nodes with
  | nil => rfl
  | cons node rest ih =>
    obtain ⟨token, isLeaf, rfl, htextual⟩ := h node List.mem_cons_self
    have hnone : (Node.leaf token isLeaf).elements? = some [] := by
      cases token with
      | emptyTag content => cases htextual
      | _ => rfl
    rw [elementsOf?, hnone, ih fun node hmem => h node (List.mem_cons_of_mem _ hmem)]
    rfl

/-- A group stands for one element if its sibling is an element, and for none otherwise. The dependency of the element
is on the module that the sibling names. -/
theorem elements_of_group (group : Group) {elements : List Element} (h : elementsOf? group.nodes = some elements) :
    (elements = [] ∧ ∀ module, group.kind ≠ some (.element module)) ∨
      ∃ element module, elements = [element] ∧ group.kind = some (.element module) ∧
        ∀ dependency, dependencyOf element = .ok dependency → dependency.moduleName? = module := by
  obtain ⟨kind, nodes, shape⟩ := group
  have htextual : kind = some .text → elements = [] := by
    rintro rfl
    exact Option.some.inj (h.symm.trans (elementsOf?_textual (textual_of_shape shape)))
  cases shape with
  | text token isLeaf _ => exact .inl ⟨htextual rfl, fun module hkind => nomatch hkind⟩
  | textAfter before token isLeaf _ => exact .inl ⟨htextual rfl, fun module hkind => nomatch hkind⟩
  | element node content module htag hmodule =>
    refine .inr ?_
    obtain ⟨own, hown, hrest⟩ := Option.bind_eq_some_iff.mp h
    obtain rfl : own = elements := (List.append_nil own).symm.trans (Option.some.inj hrest)
    cases node with
    | leaf token isLeaf =>
      cases token with
      | emptyTag content =>
        obtain rfl := Option.some.inj htag
        obtain ⟨tag, hofTag, rfl⟩ := Option.map_eq_some_iff.mp hown
        exact ⟨tag, module, rfl, rfl, fun dependency hdependency =>
          ModuleDescriptor.moduleName?_of_dependencyOf hofTag rfl rfl hmodule hdependency⟩
      | _ => cases htag
    | element content children closing =>
      obtain rfl := Option.some.inj htag
      obtain ⟨tag, hofTag, hchildren⟩ := Option.bind_eq_some_iff.mp hown
      obtain ⟨inside, -, rfl⟩ := Option.map_eq_some_iff.mp hchildren
      refine ⟨_, module, rfl, rfl, fun dependency hdependency => ?_⟩
      refine ModuleDescriptor.moduleName?_of_dependencyOf hofTag ?_ ?_ hmodule hdependency
      · rfl
      · rfl
  | _ => exact .inl ⟨(Option.some.inj h).symm, fun module hkind => nomatch hkind⟩

/-! ## Choices of dependencies -/

/-- The dependencies with a mark. -/
def chosen (flag : Bool) (choices : List (Dependency × Bool)) : List Dependency :=
  (choices.filter (·.2 == flag)).map Prod.fst

theorem chosen_cons (flag : Bool) (choice : Dependency × Bool) (choices : List (Dependency × Bool)) :
    chosen flag (choice :: choices) = (if choice.2 = flag then [choice.1] else []) ++ chosen flag choices := by
  by_cases hflag : choice.2 = flag
  · simp [chosen, hflag]
  · simp [chosen, hflag]

theorem mem_chosen_iff {choices : List (Dependency × Bool)} {dependency : Dependency} :
    dependency ∈ choices.map Prod.fst ↔ ∃ flag, dependency ∈ chosen flag choices := by
  constructor
  · intro h
    obtain ⟨choice, hmem, rfl⟩ := List.mem_map.mp h
    exact ⟨choice.2, List.mem_map.mpr ⟨choice, List.mem_filter.mpr ⟨hmem, beq_self_eq_true _⟩, rfl⟩⟩
  · rintro ⟨flag, h⟩
    obtain ⟨choice, hmem, rfl⟩ := List.mem_map.mp h
    exact List.mem_map_of_mem (List.mem_filter.mp hmem).1

theorem keptNodes_cons (label : Label) (labels : List Label) :
    keptNodes (label :: labels) = (if label.2 = true then [] else label.1.1.nodes) ++ keptNodes labels := by
  obtain ⟨placed, removed⟩ := label
  cases removed with
  | true => rfl
  | false => rfl

/-- A group that is no element names no module. -/
theorem modules_labels_cons_of_ne {label : Label} (h : ∀ module, label.1.1.kind ≠ some (.element module))
    (labels : List Label) (flag : Bool) :
    modules flag ((label :: labels).filterMap markOf) = modules flag (labels.filterMap markOf) := by
  rcases hkind : label.1.1.kind with _ | kind
  · have hmark : markOf label = none := by
      rw [markOf, siblingOf, hkind]
      rfl
    rw [List.filterMap_cons_none hmark]
  · have hmark : markOf label = some (⟨kind, label.1.2⟩, label.2) := by
      rw [markOf, siblingOf, hkind]
      rfl
    have hnone : module? ⟨kind, label.1.2⟩ = none := by
      cases kind with
      | element module => exact absurd hkind (h module)
      | _ => rfl
    rw [List.filterMap_cons_some hmark, modules_cons, hnone, Option.toList_none, ite_self, List.nil_append]

theorem modules_labels_cons {label : Label} {module : Option String} (h : label.1.1.kind = some (.element module))
    (labels : List Label) (flag : Bool) : modules flag ((label :: labels).filterMap markOf) =
      (if label.2 = flag then [module] else []) ++ modules flag (labels.filterMap markOf) := by
  have hmark : markOf label = some (⟨.element module, label.1.2⟩, label.2) := by
    rw [markOf, siblingOf, h]
    rfl
  rw [List.filterMap_cons_some hmark, modules_cons]
  rfl

/-- Labels on groups are choices of the dependencies that the groups stand for. -/
theorem exists_choices {labels : List Label} {inside : List Element}
    (h : elementsOf? (labels.flatMap (·.1.1.nodes)) = some inside) {found : List Dependency}
    (hfound : inside.mapM dependencyOf = .ok found) :
    ∃ choices kept, choices.map Prod.fst = found ∧
      (∀ flag, (chosen flag choices).map Dependency.moduleName? = modules flag (labels.filterMap markOf)) ∧
      elementsOf? (keptNodes labels) = some kept ∧ kept.mapM dependencyOf = .ok (chosen false choices) := by
  induction labels generalizing inside found with
  | nil =>
    obtain rfl := Option.some.inj h
    obtain rfl := Except.ok.inj hfound
    exact ⟨[], [], rfl, fun _ => rfl, rfl, rfl⟩
  | cons label labels ih =>
    rw [List.flatMap_cons, elementsOf?_append] at h
    obtain ⟨own, hown, hrest⟩ := Option.bind_eq_some_iff.mp h
    obtain ⟨more, hmore, rfl⟩ := Option.map_eq_some_iff.mp hrest
    rcases elements_of_group label.1.1 hown with ⟨rfl, hkind⟩ | ⟨element, module, rfl, hkind, hnamed⟩
    · -- a group without an element has no dependency, so there is nothing to choose
      obtain ⟨choices, kept, hall, hnames, hkept, hparsed⟩ := ih hmore hfound
      refine ⟨choices, kept, hall, fun flag => ?_, ?_, hparsed⟩
      · rw [hnames, modules_labels_cons_of_ne hkind]
      · rw [keptNodes_cons, elementsOf?_append, hkept]
        cases label.2 with
        | true => rfl
        | false => exact congrArg (Option.bind · _) hown
    · obtain ⟨dependency, rest, hdependency, hothers, rfl⟩ := ModuleDescriptor.mapM_cons_eq_ok.mp hfound
      obtain ⟨choices, kept, rfl, hnames, hkept, hparsed⟩ := ih hmore hothers
      have hnames' : ∀ flag, (chosen flag ((dependency, label.2) :: choices)).map Dependency.moduleName? =
          modules flag ((label :: labels).filterMap markOf) := by
        intro flag
        rw [chosen_cons, List.map_append, hnames, modules_labels_cons hkind, ← hnamed dependency hdependency]
        split <;> rfl
      cases hremoved : label.2 with
      | true =>
        refine ⟨(dependency, true) :: choices, kept, rfl, hremoved ▸ hnames', ?_, ?_⟩
        · rw [keptNodes_cons, if_pos hremoved, List.nil_append, hkept]
        · rw [chosen_cons, if_neg Bool.noConfusion, List.nil_append, hparsed]
      | false =>
        refine ⟨(dependency, false) :: choices, element :: kept, rfl, hremoved ▸ hnames', ?_, ?_⟩
        · rw [keptNodes_cons, if_neg (by rw [hremoved]; exact Bool.false_ne_true), elementsOf?_append, hown, hkept]
          rfl
        · exact ModuleDescriptor.mapM_cons_eq_ok.mpr ⟨dependency, _, hdependency, hparsed, rfl⟩

/-- The editor acts on the unused modules that dependencies name. -/
theorem Frame.Edited.acted_iff {frame : Frame} {children : List Node} {text : List Char} {unused : List String}
    {decisions : Decisions} {groups : List Group} {labels : List Label}
    (h : frame.Edited children text unused decisions groups labels) {choices : List (Dependency × Bool)}
    (hnames : ∀ flag, (chosen flag choices).map Dependency.moduleName? = modules flag (labels.filterMap markOf))
    (module : String) : (module ∈ decisions.removed ∨ module ∈ decisions.preserved) ↔
      module ∈ unused ∧ ∃ dependency ∈ choices.map Prod.fst, dependency.moduleName? = some module := by
  have hchosen : ∀ flag, some module ∈ modules flag decisions.marked.reverse ↔
      ∃ dependency ∈ chosen flag choices, dependency.moduleName? = some module := by
    intro flag
    rw [← h.marks, ← hnames, List.mem_map]
  have hremoved : module ∈ decisions.removed ↔
      ∃ dependency ∈ chosen true choices, dependency.moduleName? = some module := by
    rw [← hchosen, h.sound.removed]
    simp
  have hpreserved : module ∈ decisions.preserved ↔
      module ∈ unused ∧ ∃ dependency ∈ chosen false choices, dependency.moduleName? = some module := by
    rw [← hchosen, ← h.sound.preserved, unusedIn]
    simp [and_comm]
  constructor
  · rintro (hmem | hmem)
    · obtain ⟨dependency, hdependency, hname⟩ := hremoved.mp hmem
      exact ⟨h.sound.isUnused module hmem, dependency, mem_chosen_iff.mpr ⟨true, hdependency⟩, hname⟩
    · obtain ⟨hunused, dependency, hdependency, hname⟩ := hpreserved.mp hmem
      exact ⟨hunused, dependency, mem_chosen_iff.mpr ⟨false, hdependency⟩, hname⟩
  · rintro ⟨hunused, dependency, hdependency, hname⟩
    obtain ⟨flag, hflag⟩ := mem_chosen_iff.mp hdependency
    cases flag with
    | true => exact .inl (hremoved.mpr ⟨dependency, hflag, hname⟩)
    | false => exact .inr (hpreserved.mpr ⟨hunused, dependency, hflag, hname⟩)

end ModuleAudit.Prune
