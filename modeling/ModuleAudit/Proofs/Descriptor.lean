import ModuleAudit.ModuleDescriptor.Basic
import ModuleAudit.Proofs.Prune.Siblings

/-! What a descriptor that was parsed says about its root element, and how the entries of the dependencies name
modules. Reading only the name of a descriptor agrees with reading it whole (`readName_of_parse`,
`parse_of_readName`). -/

namespace ModuleAudit.ModuleDescriptor
set_option autoImplicit false

open Markup (Element)

theorem bind_eq_ok {ε α β : Type} {value : Except ε α} {next : α → Except ε β} {b : β} :
    (value >>= next) = .ok b ↔ ∃ a, value = .ok a ∧ next a = .ok b := by
  constructor
  · intro h
    cases value with
    | error failure => cases h
    | ok a => exact ⟨a, rfl, h⟩
  · rintro ⟨a, rfl, h⟩
    exact h

theorem mapM_cons_eq_ok {ε α β : Type} {f : α → Except ε β} {item : α} {items : List α} {results : List β} :
    (item :: items).mapM f = .ok results ↔
      ∃ result rest, f item = .ok result ∧ items.mapM f = .ok rest ∧ results = result :: rest := by
  rw [List.mapM_cons, bind_eq_ok]
  constructor
  · rintro ⟨result, hresult, h⟩
    obtain ⟨rest, hrest, h⟩ := bind_eq_ok.mp h
    exact ⟨result, rest, hresult, hrest, (Except.ok.inj h).symm⟩
  · rintro ⟨result, rest, hresult, hrest, rfl⟩
    exact ⟨result, hresult, bind_eq_ok.mpr ⟨rest, hrest, rfl⟩⟩

/-! ## Roots -/

/-- What makes a descriptor of a module: its root. -/
structure IsModule (root : Element) (name : String) (mainClass : Option String) (resources : List Resource)
    (dependencies : List Dependency) : Prop where
  tag : root.name = "module"
  name : nameFrom root "name" "slot" = .ok name
  mainClass : mainClassOf root = .ok mainClass
  resources : ∃ found, (entriesOf root "resources").mapM resourceOf = .ok found ∧ resources = found.filterMap id
  dependencies : ∃ found, (entriesOf root "dependencies").mapM dependencyOf = .ok found ∧
    dependencies = .onOwn :: found

theorem ofRoot_eq_module_iff {root : Element} {name : String} {mainClass : Option String}
    {resources : List Resource} {dependencies : List Dependency} :
    ofRoot root = .ok (.module name mainClass resources dependencies) ↔
      IsModule root name mainClass resources dependencies := by
  constructor
  · intro h
    unfold ofRoot at h
    split at h
    · rename_i htag
      obtain ⟨name', hname, h⟩ := bind_eq_ok.mp h
      obtain ⟨mainClass', hmain, h⟩ := bind_eq_ok.mp h
      obtain ⟨found, hfound, h⟩ := bind_eq_ok.mp h
      obtain ⟨entries, hentries, h⟩ := bind_eq_ok.mp h
      obtain ⟨rfl, rfl, rfl, rfl⟩ := Descriptor.module.inj (Except.ok.inj h)
      exact ⟨htag, hname, hmain, ⟨found, hfound, rfl⟩, ⟨entries, hentries, rfl⟩⟩
    · obtain ⟨name', -, h⟩ := bind_eq_ok.mp h
      obtain ⟨target, -, h⟩ := bind_eq_ok.mp h
      cases h
    · cases h
  · rintro ⟨htag, hname, hmain, ⟨found, hfound, rfl⟩, ⟨entries, hentries, rfl⟩⟩
    rw [ofRoot, htag]
    exact bind_eq_ok.mpr ⟨name, hname, bind_eq_ok.mpr ⟨mainClass, hmain, bind_eq_ok.mpr ⟨found, hfound,
      bind_eq_ok.mpr ⟨entries, hentries, rfl⟩⟩⟩⟩

theorem parse_eq_module_iff {text name : String} {mainClass : Option String} {resources : List Resource}
    {dependencies : List Dependency} :
    parse text = .ok (.module name mainClass resources dependencies) ↔
      ∃ root, Markup.root? text = some (some root) ∧ IsModule root name mainClass resources dependencies := by
  have hroot : ∀ root, rootOf text = .ok root ↔ Markup.root? text = some (some root) := by
    intro root
    unfold rootOf
    split <;> simp_all
  rw [parse, bind_eq_ok]
  constructor
  · rintro ⟨root, hfound, h⟩
    refine ⟨root, (hroot root).mp hfound, ofRoot_eq_module_iff.mp ?_⟩
    cases hparsed : ofRoot root with
    | error problem => rw [hparsed] at h; cases h
    | ok descriptor => rw [hparsed] at h; exact congrArg Except.ok (Except.ok.inj h)
  · rintro ⟨root, hfound, h⟩
    refine ⟨root, (hroot root).mpr hfound, ?_⟩
    rw [ofRoot_eq_module_iff.mpr h]
    rfl

/-! ## Entries -/

/-- The name that attributes give, in terms of the attributes. -/
theorem value?_of_nameFrom {element : Element} {nameKey slotKey name : String}
    (h : nameFrom element nameKey slotKey = .ok name) :
    (element.value? nameKey).map (ModuleName.compose · (element.value? slotKey)) = some name := by
  unfold nameFrom required at h
  cases hvalue : element.value? nameKey with
  | none =>
    rw [hvalue] at h
    cases h
  | some value =>
    rw [hvalue] at h
    exact congrArg some (Except.ok.inj h)

theorem moduleName?_of_moduleDependency {element : Element} {dependency : Dependency}
    (h : moduleDependency element = .ok dependency) :
    ∃ name, nameFrom element "name" "slot" = .ok name ∧ dependency.moduleName? = some name := by
  obtain ⟨name, hname, h⟩ := bind_eq_ok.mp h
  obtain ⟨exported, -, h⟩ := bind_eq_ok.mp h
  obtain ⟨optional, -, h⟩ := bind_eq_ok.mp h
  obtain ⟨services, -, h⟩ := bind_eq_ok.mp h
  obtain ⟨importRules, -, h⟩ := bind_eq_ok.mp h
  obtain ⟨exportRules, -, h⟩ := bind_eq_ok.mp h
  obtain rfl := Except.ok.inj h
  exact ⟨name, hname, rfl⟩

theorem moduleName?_of_systemDependency {element : Element} {dependency : Dependency}
    (h : systemDependency element = .ok dependency) : dependency.moduleName? = none := by
  obtain ⟨exported, -, h⟩ := bind_eq_ok.mp h
  obtain ⟨paths, -, h⟩ := bind_eq_ok.mp h
  obtain ⟨exportRules, -, h⟩ := bind_eq_ok.mp h
  obtain rfl := Except.ok.inj h
  rfl

/-- The module that the tag of an entry names is the one that its dependency is on. -/
theorem moduleName?_of_dependencyOf {content : List Char} {tag element : Element}
    (htag : Element.ofTag? content = some tag) (hname : element.name = tag.name)
    (hattributes : element.attributes = tag.attributes) {module : Option String}
    (hmodule : Prune.dependencyName? content = some module) {dependency : Dependency}
    (h : dependencyOf element = .ok dependency) : dependency.moduleName? = module := by
  rw [Prune.name_of_ofTag? htag] at hname
  rw [Prune.dependencyName?, htag, ← hname] at hmodule
  unfold dependencyOf at h
  split at h
  · rename_i hentry
    rw [if_pos hentry] at hmodule
    obtain rfl := Option.some.inj hmodule
    obtain ⟨name, hfrom, hdependency⟩ := moduleName?_of_moduleDependency h
    have hvalue : ∀ key, element.value? key = tag.value? key := by
      intro key
      rw [Element.value?, hattributes, Element.value?]
    rw [hdependency, ← value?_of_nameFrom hfrom, hvalue, hvalue]
  · rename_i hentry
    rw [if_neg (by rw [hentry]; decide)] at hmodule
    obtain rfl := Option.some.inj hmodule
    exact moduleName?_of_systemDependency h
  · cases h

/-! ## Names -/

section Names

variable {root : Element}

theorem nameOfRoot_of_ofRoot {descriptor : Descriptor} (h : ofRoot root = .ok descriptor) :
    nameOfRoot root = .ok descriptor.name := by
  rw [ofRoot] at h
  split at h
  · rename_i htag
    obtain ⟨name, hname, h⟩ := bind_eq_ok.mp h
    obtain ⟨mainClass, -, h⟩ := bind_eq_ok.mp h
    obtain ⟨resources, -, h⟩ := bind_eq_ok.mp h
    obtain ⟨dependencies, -, h⟩ := bind_eq_ok.mp h
    obtain rfl := Except.ok.inj h
    rw [nameOfRoot, htag]
    exact hname
  · rename_i htag
    obtain ⟨name, hname, h⟩ := bind_eq_ok.mp h
    obtain ⟨target, -, h⟩ := bind_eq_ok.mp h
    obtain rfl := Except.ok.inj h
    rw [nameOfRoot, htag]
    exact hname
  · cases h

/-- The name is read before all else, so nothing hides its faults. -/
theorem ofRoot_of_nameOfRoot {problem : Problem} (h : nameOfRoot root = .error problem) :
    ofRoot root = .error problem := by
  rw [nameOfRoot] at h
  split at h
  · rename_i htag
    rw [ofRoot, htag]
    change ofModule root = _
    rw [ofModule, h]
    rfl
  · rename_i htag
    rw [ofRoot, htag]
    change ofAlias root = _
    rw [ofAlias, h]
    rfl
  · rename_i hmodule halias
    rw [ofRoot]
    split
    · rename_i htag
      exact absurd htag hmodule
    · rename_i htag
      exact absurd htag halias
    · exact congrArg Except.error (Except.error.inj h)

theorem readName_of_parse {text : String} {descriptor : Descriptor} (h : parse text = .ok descriptor) :
    readName text = .ok descriptor.name := by
  obtain ⟨root, hroot, h⟩ := bind_eq_ok.mp h
  rw [readName, hroot]
  change (nameOfRoot root).mapError _ = _
  cases hdescriptor : ofRoot root with
  | error problem =>
    rw [hdescriptor] at h
    cases h
  | ok found =>
    rw [hdescriptor] at h
    obtain rfl := Except.ok.inj h
    rw [nameOfRoot_of_ofRoot hdescriptor]
    rfl

theorem parse_of_readName {text : String} {fault : Fault} (h : readName text = .error fault) :
    parse text = .error fault := by
  rw [readName] at h
  rw [parse]
  cases hroot : rootOf text with
  | error early =>
    rw [hroot] at h
    exact congrArg Except.error (Except.error.inj h)
  | ok root =>
    rw [hroot] at h
    change (nameOfRoot root).mapError _ = _ at h
    change (ofRoot root).mapError _ = _
    cases hname : nameOfRoot root with
    | error problem =>
      rw [hname] at h
      rw [ofRoot_of_nameOfRoot hname]
      exact congrArg Except.error (Except.error.inj h)
    | ok name =>
      rw [hname] at h
      cases h

end Names

end ModuleAudit.ModuleDescriptor
