import ModuleAudit.Proofs.Descriptor
import ModuleAudit.Proofs.Filter.Glob
import ModuleAudit.Proofs.Text

/-! The masks of a dependency on a module, in terms of the rules that its element writes. The first rule that matches
a path decides. Where none does, the import mask leaves out `META-INF` and what is below it, services apart, and the
export mask follows the attribute; whether there are rules at all makes no other difference. -/

namespace ModuleAudit.ModuleDescriptor
set_option autoImplicit false

open Markup (Element)

/-! ## Rules as they are written -/

/-- Whether the rule that an element writes matches a path: its pattern does, or the path is one of its set. -/
def RuleMatches (rule : Element) (path : String) : Prop :=
  (rule.name = "include" ∨ rule.name = "exclude") ∧
      (∃ pattern, rule.value? "path" = some pattern ∧ Glob.Splits (Glob.ofText pattern).tokens path.toList) ∨
    (rule.name = "include-set" ∨ rule.name = "exclude-set") ∧
      ∃ entry ∈ rule.children, entry.name = "path" ∧ entry.value? "name" = some path

/-- Whether the rule that an element writes includes what it matches. -/
def RuleIncludes (rule : Element) : Prop := rule.name = "include" ∨ rule.name = "include-set"

/-- The first rule that matches the path includes it. -/
def FirstIncludes (rules : List Element) (path : String) : Prop :=
  ∃ before rule after, rules = before ++ rule :: after ∧ (∀ earlier ∈ before, ¬RuleMatches earlier path) ∧
    RuleMatches rule path ∧ RuleIncludes rule

/-- No rule matches the path. -/
def Unmatched (rules : List Element) (path : String) : Prop := ∀ rule ∈ rules, ¬RuleMatches rule path

/-- What a rule was read as. -/
structure ReadAs (element : Element) (rule : PathFilter × Bool) : Prop where
  accepts : ∀ path, rule.1.accepts path = true ↔ RuleMatches element path
  decision : rule.2 = true ↔ RuleIncludes element

theorem required_eq_ok {element : Element} {key value : String} (h : required element key = .ok value) :
    element.value? key = some value := by
  unfold required at h
  split at h
  · rename_i hvalue
    rw [hvalue, Except.ok.inj h]
  · cases h

theorem map_eq_ok {ε α β : Type} {f : α → β} {result : Except ε α} {b : β} (h : result.map f = .ok b) :
    ∃ a, result = .ok a ∧ f a = b := by
  cases result with
  | error failure => cases h
  | ok a => exact ⟨a, rfl, Except.ok.inj h⟩

theorem mapM_eq_ok {ε α β : Type} {f : α → Except ε β} {items : List α} {results : List β}
    (h : items.mapM f = .ok results) : List.Forall₂ (fun item result => f item = .ok result) items results := by
  induction items generalizing results with
  | nil =>
    obtain rfl := Except.ok.inj h
    exact .nil
  | cons item items ih =>
    obtain ⟨result, rest, hresult, hrest, rfl⟩ := mapM_cons_eq_ok.mp h
    exact .cons hresult (ih hrest)

theorem mem_of_pathNames {element : Element} {paths : List String} (h : pathNames element = .ok paths)
    (path : String) :
    path ∈ paths ↔ ∃ entry ∈ element.children, entry.name = "path" ∧ entry.value? "name" = some path := by
  have hread := (mapM_eq_ok h).imp fun _ _ => required_eq_ok
  have hvalues : (element.childrenNamed "path").map (·.value? "name") = paths.map some := by
    rw [← List.forall₂_eq_eq_eq, List.forall₂_map_left_iff, List.forall₂_map_right_iff]
    exact hread
  have hmem : path ∈ paths ↔ some path ∈ paths.map some := by simp
  rw [hmem, ← hvalues]
  simp [Element.childrenNamed, and_assoc]

section Read

variable {element : Element} {decision : Bool} (hdecision : decision = true ↔ RuleIncludes element)
include hdecision

theorem readAs_pattern {pattern : String} (hname : element.name = "include" ∨ element.name = "exclude")
    (hvalue : element.value? "path" = some pattern) : ReadAs element (.ofPattern pattern, decision) := by
  refine ⟨fun path => ?_, hdecision⟩
  have hset : ¬(element.name = "include-set" ∨ element.name = "exclude-set") := by
    rcases hname with hname | hname <;> simp [hname]
  rw [Glob.accepts_ofPattern_iff]
  simp [RuleMatches, hname, hset, hvalue]

theorem readAs_set {paths : List String} (hname : element.name = "include-set" ∨ element.name = "exclude-set")
    (hpaths : pathNames element = .ok paths) : ReadAs element (.oneOf paths, decision) := by
  refine ⟨fun path => ?_, hdecision⟩
  have hpattern : ¬(element.name = "include" ∨ element.name = "exclude") := by
    rcases hname with hname | hname <;> simp [hname]
  rw [PathFilter.accepts, decide_eq_true_iff, mem_of_pathNames hpaths]
  simp [RuleMatches, hname, hpattern]

end Read

theorem readAs_of_rule {parent : String} {element : Element} {rule : PathFilter × Bool}
    (h : ModuleDescriptor.rule parent element = .ok rule) : ReadAs element rule := by
  unfold ModuleDescriptor.rule at h
  split at h
  · rename_i hname
    obtain ⟨pattern, hpattern, rfl⟩ := map_eq_ok h
    exact readAs_pattern (by simp [RuleIncludes, hname]) (Or.inl hname) (required_eq_ok hpattern)
  · rename_i hname
    obtain ⟨pattern, hpattern, rfl⟩ := map_eq_ok h
    exact readAs_pattern (by simp [RuleIncludes, hname]) (Or.inr hname) (required_eq_ok hpattern)
  · rename_i hname
    obtain ⟨paths, hpaths, rfl⟩ := map_eq_ok h
    exact readAs_set (by simp [RuleIncludes, hname]) (Or.inl hname) hpaths
  · rename_i hname
    obtain ⟨paths, hpaths, rfl⟩ := map_eq_ok h
    exact readAs_set (by simp [RuleIncludes, hname]) (Or.inr hname) hpaths
  · cases h

theorem readAs_of_rulesIn {element : Element} {name : String} {rules : List (PathFilter × Bool)}
    (h : rulesIn (element.child? name) = .ok rules) : List.Forall₂ ReadAs (entriesOf element name) rules := by
  unfold entriesOf
  cases hchild : element.child? name with
  | none =>
    rw [hchild] at h
    obtain rfl := Except.ok.inj h
    exact .nil
  | some child =>
    rw [hchild] at h
    exact (mapM_eq_ok h).imp fun _ _ => readAs_of_rule

/-! ## Decisions -/

theorem firstIncludes_cons {rule : Element} {rules : List Element} {path : String} :
    FirstIncludes (rule :: rules) path ↔
      RuleMatches rule path ∧ RuleIncludes rule ∨ ¬RuleMatches rule path ∧ FirstIncludes rules path := by
  constructor
  · rintro ⟨before, first, after, he, hbefore, hmatches, hincludes⟩
    cases before with
    | nil =>
      obtain ⟨rfl, rfl⟩ := List.cons.inj he
      exact Or.inl ⟨hmatches, hincludes⟩
    | cons earlier before =>
      obtain ⟨rfl, rfl⟩ := List.cons.inj he
      rw [List.forall_mem_cons] at hbefore
      exact Or.inr ⟨hbefore.1, before, first, after, rfl, hbefore.2, hmatches, hincludes⟩
  · rintro (⟨hmatches, hincludes⟩ | ⟨hmatches, before, first, after, rfl, hbefore, hfirst⟩)
    · exact ⟨[], rule, rules, rfl, by simp, hmatches, hincludes⟩
    · exact ⟨rule :: before, first, after, rfl, List.forall_mem_cons.mpr ⟨hmatches, hbefore⟩, hfirst⟩

/-- Rules decide about the paths they match, and what follows them about the others. -/
theorem firstDecision_append {elements : List Element} {rules : List (PathFilter × Bool)}
    (h : List.Forall₂ ReadAs elements rules) (following : List (PathFilter × Bool)) (otherwise : Bool) (path : String) :
    PathFilter.firstDecision (rules ++ following) otherwise path = true ↔
      FirstIncludes elements path ∨
        Unmatched elements path ∧ PathFilter.firstDecision following otherwise path = true := by
  induction h with
  | nil => simp [FirstIncludes, Unmatched]
  | @cons element rule elements rules hread hrest ih =>
    rw [List.cons_append, PathFilter.firstDecision, firstIncludes_cons, Unmatched, List.forall_mem_cons]
    by_cases hmatches : RuleMatches element path
    · rw [if_pos ((hread.accepts path).mpr hmatches), hread.decision]
      simp [hmatches]
    · rw [if_neg fun ha => hmatches ((hread.accepts path).mp ha), ih]
      simp [hmatches, Unmatched]

/-! ## What is left to the defaults -/

/-- The path is `META-INF` or starts with `META-INF/` and is longer than that. -/
def InMetaInf (path : String) : Prop :=
  path = "META-INF" ∨ ∃ rest, rest ≠ [] ∧ path.toList = "META-INF/".toList ++ rest

theorem isBelow_iff (parent path : String) :
    PathFilter.isBelow parent path = true ↔ ∃ rest, rest ≠ [] ∧ path.toList = parent.toList ++ '/' :: rest := by
  unfold PathFilter.isBelow
  constructor
  · intro h
    split at h
    · rename_i c rest hafter
      exact ⟨c :: rest, by simp, Text.append_of_afterMark? hafter⟩
    · cases h
  · rintro ⟨rest, hne, he⟩
    obtain ⟨c, others, rfl⟩ := List.exists_cons_of_ne_nil hne
    rw [he, Text.afterMark?_append]
    rfl

theorem inMetaInf_iff (path : String) :
    InMetaInf path ↔ PathFilter.metaInf.accepts path = true ∨ PathFilter.belowMetaInf.accepts path = true := by
  rw [PathFilter.metaInf, PathFilter.accepts, decide_eq_true_iff, PathFilter.belowMetaInf, PathFilter.accepts,
    isBelow_iff, eq_comm (a := PathFilter.metaInfPath)]
  rfl

theorem ofRules_accepts (rules : List (PathFilter × Bool)) (otherwise : Bool) (path : String) :
    (PathFilter.ofRules rules otherwise).accepts path = PathFilter.firstDecision rules otherwise path := by
  cases rules with
  | nil => cases otherwise <;> rfl
  | cons rule rules => rfl

theorem services_accepts (path : String) :
    PathFilter.services.accepts path = true ↔ path = PathFilter.servicesPath := by
  rw [PathFilter.services, PathFilter.accepts, decide_eq_true_iff, eq_comm]

/-- The rules that follow those of an import mask. -/
def importDefaults (services : Services) : List (PathFilter × Bool) :=
  (if services = .none then [] else [(PathFilter.services, true)]) ++
    [(PathFilter.belowMetaInf, false), (PathFilter.metaInf, false)]

theorem importDefaults_iff (services : Services) (path : String) :
    PathFilter.firstDecision (importDefaults services) true path = true ↔
      services ≠ .none ∧ path = PathFilter.servicesPath ∨ ¬InMetaInf path := by
  have hmetaInf : PathFilter.firstDecision [(PathFilter.belowMetaInf, false), (PathFilter.metaInf, false)] true path =
      true ↔ ¬InMetaInf path := by
    rw [inMetaInf_iff]
    simp only [PathFilter.firstDecision]
    split
    · simp_all
    · split <;> simp_all
  by_cases hnone : services = .none
  · simpa [importDefaults, hnone] using hmetaInf
  · rw [importDefaults, if_neg hnone, List.singleton_append, PathFilter.firstDecision]
    by_cases hpath : path = PathFilter.servicesPath
    · rw [if_pos ((services_accepts path).mpr hpath)]
      simp [hnone, hpath]
    · rw [if_neg fun ha => hpath ((services_accepts path).mp ha), hmetaInf]
      simp [hpath]

/-- The masks that need no rules accept the same paths. -/
theorem importDefaults_of_no_rules (services : Services) (path : String) :
    (if services = .none then PathFilter.defaultImport else .defaultImportWithServices).accepts path = true ↔
      services ≠ .none ∧ path = PathFilter.servicesPath ∨ ¬InMetaInf path := by
  have hdefault : PathFilter.defaultImport.accepts path = true ↔ ¬InMetaInf path := by
    rw [inMetaInf_iff]
    simp [PathFilter.defaultImport, PathFilter.accepts, PathFilter.anyAccepts]
  split
  · rename_i hnone
    simp [hdefault, hnone]
  · rename_i hnone
    simp [PathFilter.defaultImportWithServices, PathFilter.accepts, PathFilter.anyAccepts, hdefault, services_accepts,
      hnone]

theorem importFilter_accepts (services : Services) (rules : List (PathFilter × Bool)) (path : String) :
    (importFilter services rules).accepts path =
      PathFilter.firstDecision (rules ++ importDefaults services) true path := by
  cases rules with
  | nil =>
    rw [Bool.eq_iff_iff, List.nil_append, importDefaults_iff]
    exact importDefaults_of_no_rules services path
  | cons rule rules =>
    rw [importDefaults, ← List.append_assoc, ← ofRules_accepts]
    rfl

theorem exportFilter_accepts_iff (services : Services) (exported : Bool) (rules : List (PathFilter × Bool))
    (path : String) : (exportFilter services exported rules).accepts path = true ↔
      services = .exported ∧ path = PathFilter.servicesPath ∨
        ¬(services = .exported ∧ path = PathFilter.servicesPath) ∧
          PathFilter.firstDecision rules exported path = true := by
  rw [exportFilter, ofRules_accepts]
  by_cases hexported : services = .exported
  · rw [if_pos hexported, List.singleton_append, PathFilter.firstDecision]
    by_cases hpath : path = PathFilter.servicesPath
    · rw [if_pos ((services_accepts path).mpr hpath)]
      simp [hexported, hpath]
    · rw [if_neg fun ha => hpath ((services_accepts path).mp ha)]
      simp [hpath]
  · rw [if_neg hexported]
    simp [hexported]

/-! ## Dependencies -/

/-- What a dependency on a module is read from. -/
structure ReadMasks (element : Element) (dependency : Dependency) (services : Services) (exported : Bool) : Prop where
  servicesOf_eq : servicesOf element = .ok services
  flag_eq : flag element "export" = .ok exported
  imports : ∃ rules, List.Forall₂ ReadAs (entriesOf element "imports") rules ∧
    dependency.imports = importFilter services rules
  exports : ∃ rules, List.Forall₂ ReadAs (entriesOf element "exports") rules ∧
    dependency.exports = exportFilter services exported rules

theorem readMasks_of_moduleDependency {element : Element} {dependency : Dependency}
    (h : moduleDependency element = .ok dependency) :
    ∃ services exported, ReadMasks element dependency services exported := by
  obtain ⟨name, -, h⟩ := bind_eq_ok.mp h
  obtain ⟨exported, hexported, h⟩ := bind_eq_ok.mp h
  obtain ⟨optional, -, h⟩ := bind_eq_ok.mp h
  obtain ⟨services, hservices, h⟩ := bind_eq_ok.mp h
  obtain ⟨importRules, himports, h⟩ := bind_eq_ok.mp h
  obtain ⟨exportRules, hexports, h⟩ := bind_eq_ok.mp h
  obtain rfl := Except.ok.inj h
  exact ⟨services, exported, hservices, hexported, ⟨importRules, readAs_of_rulesIn himports, rfl⟩,
    ⟨exportRules, readAs_of_rulesIn hexports, rfl⟩⟩

section Masks

variable {element : Element} {dependency : Dependency} {services : Services} {exported : Bool}
  (h : ReadMasks element dependency services exported) (path : String)
include h

theorem ReadMasks.imports_iff : dependency.imports.accepts path = true ↔
    FirstIncludes (entriesOf element "imports") path ∨
      Unmatched (entriesOf element "imports") path ∧
        (services ≠ .none ∧ path = PathFilter.servicesPath ∨ ¬InMetaInf path) := by
  obtain ⟨rules, hread, he⟩ := h.imports
  rw [he, importFilter_accepts, firstDecision_append hread, importDefaults_iff]

theorem ReadMasks.exports_iff : dependency.exports.accepts path = true ↔
    services = .exported ∧ path = PathFilter.servicesPath ∨
      ¬(services = .exported ∧ path = PathFilter.servicesPath) ∧
        (FirstIncludes (entriesOf element "exports") path ∨
          Unmatched (entriesOf element "exports") path ∧ exported = true) := by
  obtain ⟨rules, hread, he⟩ := h.exports
  have hrules := firstDecision_append hread [] exported path
  rw [List.append_nil, PathFilter.firstDecision] at hrules
  rw [he, exportFilter_accepts_iff, hrules]

theorem ReadMasks.imports_of_unmatched (hnone : Unmatched (entriesOf element "imports") path) :
    dependency.imports.accepts path = true ↔
      services ≠ .none ∧ path = PathFilter.servicesPath ∨ ¬InMetaInf path := by
  have hfirst : ¬FirstIncludes (entriesOf element "imports") path := by
    rintro ⟨before, rule, after, he, -, hmatches, -⟩
    exact hnone rule (by simp [he]) hmatches
  rw [h.imports_iff]
  simp [hfirst, hnone]

end Masks

/-- A dependency that exports services and leaves out all of `META-INF` by a rule. -/
def exportingServices : Element :=
  { name := "module"
    attributes := [("name", "a"), ("services", "export")]
    children := [
      { name := "imports", children := [{ name := "exclude", attributes := [("path", "META-INF/**")] }] },
      { name := "exports", children := [{ name := "exclude", attributes := [("path", "**")] }] }] }

end ModuleAudit.ModuleDescriptor
