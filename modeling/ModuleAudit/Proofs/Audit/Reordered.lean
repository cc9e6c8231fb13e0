import Mathlib.Data.List.Pairwise
import ModuleAudit.Proofs.Audit.Views
import ModuleAudit.Proofs.Build.Lineage

/-! The order of a module's entries does not matter to the audits, as long as no two of its class files describe
classes of the same name. The index of findings is told by them up to the order of classes
(`ofFindings_recorded`), spreading sees sets of packages (`SameView.spreadAll`), and what a module refers to is told
by class records instead of their numbers (`Refers.drawn`). -/

namespace ModuleAudit
set_option autoImplicit false

/-! ## Entries -/

/-- The name and the contents of an entry. -/
def ResourceItem.entry? : ResourceItem → Option (String × Except String Bytes)
  | .entry name contents => some (name, contents)
  | .notice _ => none

namespace Finding

/-- The entries of the module that was found, without what there was to say on the way. -/
def entries (finding : Finding) : List (String × Except String Bytes) := finding.items.filterMap ResourceItem.entry?

/-- The names of the classes that the class files of the module describe. -/
def classNames (finding : Finding) : List String :=
  (finding.items.filterMap (ResourceItem.class? 0)).filterMap (·.name)

/-- Two findings of the same module or alias with the same entries, in whatever order and under whatever roots. -/
structure Reordered (finding other : Finding) : Prop extends Alike finding other where
  entries_perm : finding.entries.Perm other.entries

/-- Every entry as the item that it was listed as. -/
def ofEntry (entry : String × Except String Bytes) : ResourceItem := .entry entry.1 entry.2

theorem filterMap_items {α : Type} {f : ResourceItem → Option α} (hf : ∀ message, f (.notice message) = none)
    (finding : Finding) : finding.items.filterMap f = finding.entries.filterMap (f ∘ ofEntry) := by
  rw [entries, List.filterMap_filterMap]
  refine List.filterMap_congr fun item _ => ?_
  cases item with
  | entry name contents => rfl
  | notice message => exact hf message

theorem mem_items_flatMap {α : Type} {f : ResourceItem → List α} (hf : ∀ message, f (.notice message) = [])
    (finding : Finding) (a : α) : a ∈ finding.items.flatMap f ↔ ∃ entry ∈ finding.entries, a ∈ f (ofEntry entry) := by
  rw [List.mem_flatMap]
  simp only [entries, List.mem_filterMap]
  constructor
  · rintro ⟨item, hi, ha⟩
    cases item with
    | entry name contents => exact ⟨(name, contents), ⟨_, hi, rfl⟩, ha⟩
    | notice message =>
      rw [hf] at ha
      exact absurd ha List.not_mem_nil
  · rintro ⟨entry, ⟨item, hi, he⟩, ha⟩
    cases item with
    | entry name contents =>
      obtain rfl := Option.some.inj he
      exact ⟨_, hi, ha⟩
    | notice message => cases he

namespace Reordered

variable {finding other : Finding} (h : finding.Reordered other)
include h

theorem filterMap_perm {α : Type} {f : ResourceItem → Option α} (hf : ∀ message, f (.notice message) = none) :
    (finding.items.filterMap f).Perm (other.items.filterMap f) := by
  rw [filterMap_items hf, filterMap_items hf]
  exact h.entries_perm.filterMap _

theorem mem_flatMap_iff {α : Type} {f : ResourceItem → List α} (hf : ∀ message, f (.notice message) = []) (a : α) :
    a ∈ finding.items.flatMap f ↔ a ∈ other.items.flatMap f := by
  rw [mem_items_flatMap hf, mem_items_flatMap hf]
  simp only [h.entries_perm.mem_iff]

theorem mem_texts_iff (text : String) : text ∈ finding.texts ↔ text ∈ other.texts :=
  h.mem_flatMap_iff (fun _ => rfl) text

theorem classesIn_perm (names : List String) : (finding.classesIn names).Perm (other.classesIn names) := by
  rw [classesIn, classesIn, ← h.moduleName?_eq]
  cases finding.moduleName? with
  | none => exact .nil
  | some name => exact h.filterMap_perm fun _ => rfl

end Reordered

/-- What a finding names for a module, told by its entries. -/
theorem mem_namedFor_iff (finding : Finding) (name typeName : String) : typeName ∈ finding.namedFor name ↔
    finding.moduleName? = some name ∧ (typeName ∈ finding.mainClass?.toList.map slashed ∨
      typeName ∈ finding.items.flatMap ResourceItem.registered) := by
  have hroot : ∀ root : ResourceRoot, root.registered = root.items.flatMap ResourceItem.registered := by
    intro root
    cases root <;> rfl
  cases ho : finding.outcome with
  | error error => simp [namedFor, moduleName?, spec?, ho]
  | ok found =>
    cases found with
    | none => simp [namedFor, moduleName?, spec?, ho]
    | some spec =>
      cases spec with
      | link known target => simp [namedFor, moduleName?, spec?, ho]
      | module known mainClass roots dependencies =>
        rw [mem_namedFor ho, namedTypes, List.mem_append, funext hroot, ← List.flatMap_assoc]
        simp [moduleName?, mainClass?, items, spec?, ho]

theorem Reordered.mem_namedFor_iff {finding other : Finding} (h : finding.Reordered other) (name typeName : String) :
    typeName ∈ finding.namedFor name ↔ typeName ∈ other.namedFor name := by
  rw [Finding.mem_namedFor_iff, Finding.mem_namedFor_iff, h.moduleName?_eq, h.mainClass?_eq,
    h.mem_flatMap_iff fun _ => rfl]

end Finding

/-! ## Classes -/

theorem find?_eq_of_perm {α : Type} {p : α → Bool} {l l' : List α} (h : l.Perm l')
    (hunique : ∀ a ∈ l, ∀ b ∈ l, p a = true → p b = true → a = b) : l.find? p = l'.find? p := by
  cases hl : l.find? p with
  | none =>
    rw [List.find?_eq_none] at hl
    exact (List.find?_eq_none.mpr fun a ha => hl a (h.mem_iff.mpr ha)).symm
  | some a =>
    have ha := List.mem_of_find?_eq_some hl
    have hpa := List.find?_some hl
    cases hl' : l'.find? p with
    | none => exact absurd hpa (List.find?_eq_none.mp hl' a (h.mem_iff.mp ha))
    | some b =>
      have hb := h.mem_iff.mpr (List.mem_of_find?_eq_some hl')
      rw [hunique a ha b hb hpa (List.find?_some hl')]

theorem eq_of_name {records : List ClassRecord} (h : (records.filterMap (·.name)).Nodup) {a b : ClassRecord}
    (ha : a ∈ records) (hb : b ∈ records) {name : String} (hna : a.name = some name) (hnb : b.name = some name) :
    a = b := by
  have hpairs := List.pairwise_filterMap.mp h
  have hsymm : Std.Symm fun a b : ClassRecord => ∀ n, a.name = some n → ∀ m, b.name = some m → n ≠ m :=
    ⟨fun _ _ h m hm n hn => (h n hn m hm).symm⟩
  by_contra hne
  exact hpairs.forall ha hb hne name hna name hnb rfl

theorem names_classes (module : ModuleId) (finding : Finding) :
    (finding.items.filterMap (ResourceItem.class? module)).filterMap (·.name) = finding.classNames := by
  rw [Finding.classNames, List.filterMap_filterMap, List.filterMap_filterMap]
  refine List.filterMap_congr fun item _ => ?_
  cases item with
  | notice message => rfl
  | entry name contents =>
    cases contents with
    | error reason => rfl
    | ok contents =>
      rw [ResourceItem.class?, ResourceItem.class?]
      split
      · rw [classIn?_eq]
        cases classIn? 0 contents <;> rfl
      · rfl

theorem Finding.Reordered.find?_classesIn {finding other : Finding} (h : finding.Reordered other)
    (hdistinct : finding.classNames.Nodup) (names : List String) (id : ModuleId) (name : String) :
    (finding.classesIn names).reverse.find? (fun record => decide (record.module = id ∧ record.name = some name)) =
      (other.classesIn names).reverse.find? fun record => decide (record.module = id ∧ record.name = some name) := by
  have hnames : ((finding.classesIn names).filterMap (·.name)).Nodup := by
    rw [classesIn]
    cases finding.moduleName? with
    | none => exact List.nodup_nil
    | some known =>
      dsimp only
      rw [names_classes]
      exact hdistinct
  have hperm := ((List.reverse_perm _).trans (h.classesIn_perm names)).trans (List.reverse_perm _).symm
  refine find?_eq_of_perm hperm fun a ha b hb hpa hpb => ?_
  simp only [decide_eq_true_eq] at hpa hpb
  exact eq_of_name hnames (List.mem_reverse.mp ha) (List.mem_reverse.mp hb) hpa.2 hpb.2

/-! ## The index of findings -/

/-- All that is known of the index of findings. -/
structure Index.Told (index : Index) (findings : List Finding) : Prop where
  gathered : index.Gathered
  recorded : index.Recorded (registered findings) findings
  filed : index.Filed
  refers : index.Refers findings

theorem Build.ofFindings_told (findings : List Finding) : (ofFindings findings).index.Told findings where
  gathered := (ofFindings_gathered (fun _ _ => true) findings).1
  recorded := ofFindings_recorded findings
  filed := ofFindings_filed findings
  refers := ofFindings_refers findings

theorem map_eq_of_forall₂ {α β γ : Type} {R : α → β → Prop} {f : α → γ} {g : β → γ} {l : List α} {l' : List β}
    (h : List.Forall₂ R l l') (hfg : ∀ a b, R a b → f a = g b) : l.map f = l'.map g := by
  induction h with
  | nil => rfl
  | cons hab _ ih => rw [List.map_cons, List.map_cons, hfg _ _ hab, ih]

theorem exists_mem_iff_of_forall₂ {α β : Type} {R : α → β → Prop} {P : α → Prop} {Q : β → Prop} {l : List α}
    {l' : List β} (h : List.Forall₂ R l l') (hpq : ∀ a b, R a b → (P a ↔ Q b)) : (∃ a ∈ l, P a) ↔ ∃ b ∈ l', Q b := by
  induction h with
  | nil => simp
  | cons hab _ ih => simp only [List.exists_mem_cons_iff, hpq _ _ hab, ih]

section Findings

variable {findings others : List Finding} (h : List.Forall₂ Finding.Reordered findings others)
include h

theorem registered_eq : registered findings = registered others := by
  have e := map_eq_of_forall₂ h fun _ _ hr => hr.moduleName?_eq
  have hlist := congrArg (List.filterMap id) e
  simp only [List.filterMap_map, Function.id_comp] at hlist
  rw [registered, registered, hlist]

theorem aliasOf?_eq (name : String) : aliasOf? findings name = aliasOf? others name := by
  have e := map_eq_of_forall₂ h fun _ _ hr => congrFun hr.linkOf?_eq name
  have hlist := congrArg (fun found => List.findSome? id (List.reverse found)) e
  simp only [← List.map_reverse, List.findSome?_map, Function.id_comp] at hlist
  exact hlist

theorem any_starts_eq (name : String) : findings.any (·.starts name) = others.any (·.starts name) := by
  have e := map_eq_of_forall₂ (f := (·.starts name)) (g := (·.starts name)) h fun _ _ hr => by
    rw [Finding.starts, Finding.starts, hr.moduleName?_eq, hr.mainClass?_eq]
  have hlist := congrArg (List.any · id) e
  simp only [List.any_map, Function.id_comp] at hlist
  exact hlist

theorem flatMap_declarationsFor_eq (name : String) :
    findings.flatMap (·.declarationsFor name) = others.flatMap (·.declarationsFor name) := by
  have e := map_eq_of_forall₂ (f := (·.declarationsFor name)) (g := (·.declarationsFor name)) h fun _ _ hr => by
    rw [Finding.declarationsFor, Finding.declarationsFor, hr.moduleName?_eq, hr.declarations_eq]
  rw [List.flatMap_def, List.flatMap_def, e]

theorem mem_classes_iff (names : List String) (record : ClassRecord) :
    record ∈ findings.flatMap (·.classesIn names) ↔ record ∈ others.flatMap (·.classesIn names) := by
  rw [List.mem_flatMap, List.mem_flatMap]
  exact exists_mem_iff_of_forall₂ h fun _ _ hr => (hr.classesIn_perm names).mem_iff

theorem find?_classes_eq (hdistinct : ∀ finding ∈ findings, finding.classNames.Nodup) (names : List String)
    (id : ModuleId) (name : String) :
    (findings.flatMap (·.classesIn names)).reverse.find?
        (fun record => decide (record.module = id ∧ record.name = some name)) =
      (others.flatMap (·.classesIn names)).reverse.find?
        fun record => decide (record.module = id ∧ record.name = some name) := by
  induction h with
  | nil => rfl
  | cons hab _ ih =>
    rw [List.forall_mem_cons] at hdistinct
    rw [List.flatMap_cons, List.flatMap_cons, List.reverse_append, List.reverse_append, List.find?_append,
      List.find?_append, ih hdistinct.2, hab.find?_classesIn hdistinct.1]

end Findings

namespace Index

section Told

variable {findings others : List Finding} (h : List.Forall₂ Finding.Reordered findings others) {i j : Index}
  (hi : i.Told findings) (hj : j.Told others)
include h hi hj

theorem Told.nameOf?_eq : i.nameOf? = j.nameOf? := by
  funext id
  rw [hi.recorded.nameOf?_eq, hj.recorded.nameOf?_eq, registered_eq h]

theorem Told.size_eq : i.modules.size = j.modules.size := by
  have hsizes : ∀ {index : Index} {names : List String} {findings : List Finding},
      index.Recorded names findings → index.modules.size = names.length := by
    intro index names findings hr
    rw [← hr.names_eq, List.length_map, Array.length_toList]
  rw [hsizes hi.recorded, hsizes hj.recorded, registered_eq h]

theorem Told.declarationsOf_eq : i.declarationsOf = j.declarationsOf := by
  funext id
  by_cases hlt : id < i.modules.size
  · have hname : i.nameOf? id = some i.modules[id].name := by
      rw [nameOf?, Array.getElem?_eq_getElem hlt, Option.map_some]
    have hname' := (congrFun (Told.nameOf?_eq h hi hj) id).symm.trans hname
    rw [hi.recorded.declared id _ hname, hj.recorded.declared id _ hname', flatMap_declarationsFor_eq h]
  · rw [declarationsOf_of_size_le (Nat.le_of_not_lt hlt),
      declarationsOf_of_size_le (Nat.le_of_not_lt (Told.size_eq h hi hj ▸ hlt))]

theorem Told.hasMain_eq : i.hasMain = j.hasMain := by
  funext id
  by_cases hlt : id < i.modules.size
  · have hname : i.nameOf? id = some i.modules[id].name := by
      rw [nameOf?, Array.getElem?_eq_getElem hlt, Option.map_some]
    have hname' := (congrFun (Told.nameOf?_eq h hi hj) id).symm.trans hname
    rw [hi.recorded.started id _ hname, hj.recorded.started id _ hname', any_starts_eq h]
  · have hlt' : ¬id < j.modules.size := Told.size_eq h hi hj ▸ hlt
    rw [hasMain, hasMain, Array.getElem?_eq_none (Nat.le_of_not_lt hlt), Array.getElem?_eq_none (Nat.le_of_not_lt hlt')]

theorem Told.resolve_eq : i.resolve = j.resolve := by
  have hbyName : ∀ name, i.byName.get? name = j.byName.get? name := by
    intro name
    refine Option.ext fun id => ?_
    rw [hi.gathered.named, hj.gathered.named, Told.nameOf?_eq h hi hj]
  have haliases : ∀ name, i.aliases.get? name = j.aliases.get? name := by
    intro name
    rw [hi.recorded.aliased, hj.recorded.aliased, aliasOf?_eq h]
  have hfind : i.findModule? = j.findModule? := by
    funext name
    rw [findModule?, findModule?, follow_congr hbyName haliases]
  funext declaration
  rw [resolve, resolve, hfind]

theorem Told.mem_classes_iff (record : ClassRecord) : record ∈ i.classes ↔ record ∈ j.classes := by
  rw [← Array.mem_toList_iff, ← Array.mem_toList_iff, hi.recorded.classes_eq, hj.recorded.classes_eq,
    ← registered_eq h]
  exact ModuleAudit.mem_classes_iff h _ record

theorem Told.lastClass?_eq (hdistinct : ∀ finding ∈ findings, finding.classNames.Nodup) :
    i.lastClass? = j.lastClass? := by
  funext id name
  rw [lastClass?, lastClass?, hi.recorded.classes_eq, hj.recorded.classes_eq, ← registered_eq h]
  exact find?_classes_eq h hdistinct _ id name

theorem Told.packagesOf_iff (id : ModuleId) (package : String) :
    package ∈ i.packagesOf id ↔ package ∈ j.packagesOf id := by
  rw [hi.filed.packages, hj.filed.packages]
  simp only [Told.mem_classes_iff h hi hj]

theorem Told.sameView_drawn : SameView i.drawn j.drawn := by
  have hdeclarations := Told.declarationsOf_eq h hi hj
  have houtgoing : i.outgoing = j.outgoing := by
    funext id
    rw [outgoing, outgoing, hdeclarations, Told.resolve_eq h hi hj]
  have hedges : i.allEdges = j.allEdges := by
    rw [allEdges, allEdges, Told.size_eq h hi hj, houtgoing]
  refine ⟨?_, ?_, ?_, ?_, ?_, ?_, ?_⟩
  · rw [size_of_core_eq (core_drawn i), size_of_core_eq (core_drawn j), Told.size_eq h hi hj]
  · rw [Index.drawn, Index.drawn, declarationsOf_foldl_addEdge, declarationsOf_foldl_addEdge, hdeclarations]
  · funext target
    rw [hi.gathered.dependentsOf_drawn, hj.gathered.dependentsOf_drawn, hedges]
  · rw [packagesOf_drawn, packagesOf_drawn]
    exact Told.packagesOf_iff h hi hj
  · funext id
    rw [hi.gathered.dependenciesOf_drawn, hj.gathered.dependenciesOf_drawn, houtgoing]
  · funext id package
    rw [hi.gathered.unspread_drawn.through_eq, hj.gathered.unspread_drawn.through_eq]
  · funext id
    rw [hi.gathered.unspread_drawn.reExportsOf_eq, hj.gathered.unspread_drawn.reExportsOf_eq]

theorem Told.sameView_completed : SameView i.completed j.completed := by
  have hspread := (Told.sameView_drawn h hi hj).spreadAll
  refine ⟨?_, ?_, ?_, ?_, ?_, ?_, ?_⟩
  · rw [size_completed, size_completed, Told.size_eq h hi hj]
  · funext id
    rw [declarationsOf_completed, declarationsOf_completed, Told.declarationsOf_eq h hi hj]
  · rw [dependentsOf_completed, dependentsOf_completed, (Told.sameView_drawn h hi hj).dependentsOf_eq]
  · intro id package
    rw [packagesOf_completed, packagesOf_completed]
    exact Told.packagesOf_iff h hi hj id package
  · funext id
    rw [dependenciesOf_completed, dependenciesOf_completed, hspread.dependenciesOf_eq]
  · funext id package
    rw [through_completed, through_completed, hspread.through_eq]
  · funext id
    rw [reExportsOf_completed, reExportsOf_completed, hspread.reExportsOf_eq]

variable (hdistinct : ∀ finding ∈ findings, finding.classNames.Nodup)
include hdistinct

theorem Told.mem_classRefsOf_iff (id : ModuleId) (typeName : String) :
    typeName ∈ i.completed.classRefsOf id ↔ typeName ∈ j.completed.classRefsOf id := by
  have hspread := (Told.sameView_drawn h hi hj).spreadAll
  have hlast : i.drawn.spreadAll.lastClass? = j.drawn.spreadAll.lastClass? := by
    have hcore : ∀ index : Index, index.drawn.spreadAll.lastClass? = index.lastClass? := by
      intro index
      funext module name
      rw [lastClass?, lastClass?, classes_of_core_eq (core_spreadAll_drawn index)]
    rw [hcore, hcore, Told.lastClass?_eq h hi hj hdistinct]
  have hproviders : i.drawn.spreadAll.providersOf = j.drawn.spreadAll.providersOf := by
    funext module name
    rw [providersOf_eq, providersOf_eq, hspread.through_eq]
  rw [hi.refers.drawn hi.filed, hj.refers.drawn hj.filed, draws_congr hlast hproviders, Told.nameOf?_eq h hi hj]
  simp only [Told.mem_classes_iff h hi hj]
  refine or_congr (exists_congr fun name => and_congr_right fun _ => ?_) Iff.rfl
  exact exists_mem_iff_of_forall₂ h fun _ _ hr => hr.mem_namedFor_iff name typeName

theorem Told.mem_packageRefsOf_iff (id : ModuleId) (package : String) :
    package ∈ i.completed.packageRefsOf id ↔ package ∈ j.completed.packageRefsOf id := by
  rw [hi.refers.tallied.completed.mem_packageRefsOf, hj.refers.tallied.completed.mem_packageRefsOf]
  simp only [Told.mem_classRefsOf_iff h hi hj hdistinct]

omit hdistinct in
theorem Told.hasLiteral_eq : i.completed.pool.hasLiteral = j.completed.pool.hasLiteral := by
  funext text
  rw [Bool.eq_iff_iff, hasLiteral_completed, hasLiteral_completed, hi.recorded.loaded, hj.recorded.loaded,
    List.mem_flatMap, List.mem_flatMap]
  exact exists_mem_iff_of_forall₂ h fun _ _ hr => hr.mem_texts_iff text

end Told

end Index

namespace Build

/-- If the class files of no module found describe two classes of one name, then the entries of every module may stand
in any order and under any of its roots: the same dependencies are reported, as many are kept because they are passed
on, and the same modules are unused. -/
theorem audits_ignore_entry_order {findings others : List Finding}
    (h : List.Forall₂ Finding.Reordered findings others)
    (hdistinct : ∀ finding ∈ findings, finding.classNames.Nodup) :
    (run findings).index.unusedDependencies = (run others).index.unusedDependencies ∧
    ∀ retain, (run findings).index.unusedModules retain = (run others).index.unusedModules retain := by
  have hi := ofFindings_told findings
  have hj := ofFindings_told others
  have hview := Index.Told.sameView_completed h hi hj
  have hname : (ofFindings findings).index.completed.nameOf? = (ofFindings others).index.completed.nameOf? := by
    funext id
    rw [Index.nameOf?_completed, Index.nameOf?_completed, Index.Told.nameOf?_eq h hi hj]
  have hmain : (ofFindings findings).index.completed.hasMain = (ofFindings others).index.completed.hasMain := by
    funext id
    rw [Index.hasMain_completed, Index.hasMain_completed, Index.Told.hasMain_eq h hi hj]
  rw [run_index, run_index]
  refine ⟨hview.unusedDependencies_eq hname hi.gathered.coherent_completed hj.gathered.coherent_completed
    (Index.Told.mem_packageRefsOf_iff h hi hj hdistinct), fun retain => ?_⟩
  exact hview.unusedModules_eq hname hmain (Index.Told.hasLiteral_eq h hi hj) retain

/-- The file of a class `p/B`. -/
def otherClass : Bytes := bareClass.set 15 0x42

/-- A module with two classes, a broken class file and a registration under two roots, and a module that depends on
it. -/
def twoRoots : List Finding :=
  [{ name := "base"
     outcome := .ok (some (.module "base" none
       [.listed { location := "a.jar", items := [.entry "p/A.class" (.ok bareClass), .entry "p/C.class" (.ok [0xCA])] },
         .listed { location := "b.jar", items := [.entry "p/B.class" (.ok otherClass),
           .entry "META-INF/services/p.A" (.ok [0x70, 0x2E, 0x42])] }] [])) },
   { name := "top", outcome := .ok (some (.module "top" none [] [Dependency.onModule "base"])) }]

/-- The same modules with all entries under one root, from the last to the first. -/
def oneRoot : List Finding :=
  [{ name := "base"
     outcome := .ok (some (.module "base" none
       [.listed { location := "c.jar", items := [.entry "META-INF/services/p.A" (.ok [0x70, 0x2E, 0x42]),
         .entry "p/B.class" (.ok otherClass), .entry "p/C.class" (.ok [0xCA]),
         .entry "p/A.class" (.ok bareClass)] }] [])) },
   { name := "top", outcome := .ok (some (.module "top" none [] [Dependency.onModule "base"])) }]

theorem audits_ignore_entry_order_twoRoots :
    List.Forall₂ Finding.Reordered twoRoots oneRoot ∧ (∀ finding ∈ twoRoots, finding.classNames.Nodup) ∧
    (run twoRoots).index.unusedDependencies = (run oneRoot).index.unusedDependencies ∧
    ∀ retain, (run twoRoots).index.unusedModules retain = (run oneRoot).index.unusedModules retain := by
  have hreordered : List.Forall₂ Finding.Reordered twoRoots oneRoot :=
    .cons ⟨⟨rfl, rfl, rfl, rfl⟩, (List.reverse_perm _).symm⟩ (.cons ⟨⟨rfl, rfl, rfl, rfl⟩, .refl _⟩ .nil)
  have hdistinct : ∀ finding ∈ twoRoots, finding.classNames.Nodup := by decide +kernel
  exact ⟨hreordered, hdistinct, audits_ignore_entry_order hreordered hdistinct⟩

end Build

end ModuleAudit
