import ModuleAudit.Proofs.Build.Contents
import ModuleAudit.Proofs.Build.References

/-! Where classes are filed. A module has under a name the last class that was attached to it under that name, and its
packages are those of its classes (`Filed`). Every change of adding contents keeps this (`Filed.apply`), and the later
stages do not touch it (`Filed.of_core_eq`). -/

namespace ModuleAudit
set_option autoImplicit false

/-- Nothing is linked yet. -/
def ClassRecord.Unlinked (record : ClassRecord) : Prop := record.superLink = none ∧ record.interfaceLinks = {}

theorem unlinked_of_classIn? {module : ModuleId} {contents : Bytes} {record : ClassRecord}
    (h : classIn? module contents = some record) : record.Unlinked := by
  have hmention : ∀ (state _other : Ingestion) (mention : Mention), state.record.Unlinked →
      (state.mention mention).record.Unlinked := by
    intro state _ mention hs
    cases mention with
    | error failure => exact hs
    | ok named =>
      obtain ⟨kind, name⟩ := named
      cases kind <;> exact hs
  have hnote : ∀ (state _other : Ingestion) (event : ClassFile.Event), state.record.Unlinked →
      (state.note event).record.Unlinked := by
    intro state _ event hs
    cases event with
    | load constant => cases constant <;> exact hs
    | _ => exact hs
  have hall := Ingestion.foldl_relates (R := fun state _ => state.record.Unlinked) hmention hnote
    (ClassFile.read contents).events (s := { pool := {}, record := { module } })
    (t := { pool := {}, record := { module } }) ⟨rfl, rfl⟩
  rw [classIn?, ingest] at h
  split at h
  · cases h
  · rw [← Option.some.inj h]
    exact hall

theorem unlinked_of_attached {module : ModuleId} {mainClass : Option String} {roots : List ResourceRoot}
    {dependencies : List Dependency} {record : ClassRecord}
    (h : record ∈ (contentChanges module mainClass roots dependencies).flatMap Change.attached) :
    record.Unlinked := by
  rw [attached_contentChanges, List.mem_filterMap] at h
  obtain ⟨item, -, hitem⟩ := h
  cases item with
  | notice message => cases hitem
  | entry name contents =>
    cases contents with
    | error reason => cases hitem
    | ok contents =>
      rw [ResourceItem.class?] at hitem
      split at hitem
      · exact unlinked_of_classIn? hitem
      · cases hitem

namespace Index

/-- The class that was last attached to a module under a name. -/
def lastClass? (index : Index) (id : ModuleId) (name : String) : Option ClassRecord :=
  index.classes.toList.reverse.find? fun record => record.module = id ∧ record.name = some name

/-- Each module has its last class of a name filed under it, and has the packages of its classes. -/
structure Filed (index : Index) : Prop where
  inRange : ∀ record ∈ index.classes, record.module < index.modules.size
  filed : ∀ id name,
    (index.ownClass? id name).map (fun classId => index.classes[classId]?) = (index.lastClass? id name).map some
  packages : ∀ id package, package ∈ index.packagesOf id ↔
    ∃ record ∈ index.classes, record.module = id ∧ record.name.bind packageOf? = some package
  unlinked : ∀ record ∈ index.classes, record.Unlinked

/-! ## One class -/

section Attach

variable {index : Index} {record : ClassRecord}

theorem map_attachClass_of_none {α : Type} {f : ModuleRecord → α}
    (hf : ∀ record typeName package n, f (ModuleRecord.refer record typeName package n) = f record)
    (hname : record.name = none) (id : ModuleId) :
    (index.attachClass record).1.modules[id]?.map f = index.modules[id]?.map f := by
  simp only [attachClass, hname]
  exact map_foldl_refer hf _ _ _ _

theorem map_attachClass_of_some {α : Type} {f : ModuleRecord → α} {g : α → α} {name : String}
    (hf : ∀ record typeName package n, f (ModuleRecord.refer record typeName package n) = f record)
    (hname : record.name = some name)
    (hc : ∀ r : ModuleRecord, f (r.addClass name (packageOf? name) index.classes.size) = g (f r)) (id : ModuleId) :
    (index.attachClass record).1.modules[id]?.map f =
      if id = record.module then (index.modules[id]?.map f).map g else index.modules[id]?.map f := by
  have hold := map_foldl_refer hf record.module id record.references index
  simp only [attachClass, hname, getElem?_updateModule]
  by_cases h : record.module = id
  · rw [if_pos h, if_pos h.symm, ← hold, Option.map_map, Option.map_map]
    exact congrArg (fun change : ModuleRecord → α => Option.map change _) (funext hc)
  · rw [if_neg h, if_neg fun e => h e.symm]
    exact hold

theorem size_attachClass (index : Index) (record : ClassRecord) :
    (index.attachClass record).1.modules.size = index.modules.size := by
  simp only [attachClass]
  cases record.name with
  | none => exact size_foldl_refer _ _ _
  | some name => exact Array.size_modify.trans (size_foldl_refer _ _ _)

variable (hlt : record.module < index.modules.size)
include hlt

theorem ownClass?_attachClass (id : ModuleId) (name : String) :
    (index.attachClass record).1.ownClass? id name =
      if id = record.module ∧ record.name = some name then some index.classes.size else index.ownClass? id name := by
  have hown : ∀ i : Index, i.ownClass? id name = (i.modules[id]?.map (·.classes)).bind (·.get? name) := by
    intro i
    rw [ownClass?, Option.bind_map]
    rfl
  rw [hown, hown]
  cases hn : record.name with
  | none => rw [map_attachClass_of_none (fun _ _ _ _ => rfl) hn, if_neg (by simp)]
  | some known =>
    rw [map_attachClass_of_some (g := fun classes => classes.insert known index.classes.size) (fun _ _ _ _ => rfl) hn
      (fun _ => rfl)]
    by_cases hid : id = record.module
    · subst hid
      simp only [if_true, Array.getElem?_eq_getElem hlt, Option.map_some, Option.bind_some, OrderedMap.insert,
        OrderedMap.get?_alter, true_and, Option.some.injEq, eq_comm]
    · rw [if_neg hid, if_neg fun h => hid h.1]

theorem mem_packagesOf_attachClass (id : ModuleId) (package : String) :
    package ∈ (index.attachClass record).1.packagesOf id ↔
      package ∈ index.packagesOf id ∨ record.module = id ∧ record.name.bind packageOf? = some package := by
  have hview : ∀ i : Index, i.packagesOf id = ((i.modules[id]?.map (·.packages)).map OrderedMap.keys).getD [] := by
    intro i
    rw [packagesOf, Option.map_map]
    rfl
  rw [hview, hview]
  cases hn : record.name with
  | none =>
    rw [map_attachClass_of_none (fun _ _ _ _ => rfl) hn]
    simp
  | some known =>
    have hadd : ∀ r : ModuleRecord, (r.addClass known (packageOf? known) index.classes.size).packages =
        (packageOf? known).elim r.packages (Counts.add r.packages · 1) := by
      intro r
      cases packageOf? known <;> rfl
    rw [map_attachClass_of_some (g := fun packages => (packageOf? known).elim packages (Counts.add packages · 1))
      (fun _ _ _ _ => rfl) hn hadd]
    by_cases hid : id = record.module
    · subst hid
      rw [if_pos rfl, Array.getElem?_eq_getElem hlt]
      cases hp : packageOf? known with
      | none => simp [hp]
      | some added => simp [hp, Counts.mem_keys_add, eq_comm]
    · have hid' : record.module ≠ id := fun e => hid e.symm
      simp [hid, hid']

end Attach

/-! ## Adding findings -/

/-- A module that is known stays as it is, and another comes last, with an empty record. -/
theorem addModule_cases (index : Index) (name : String) :
    (∃ id, index.byName.get? name = some id ∧ index.addModule name = (index.pooling (·.add name), id)) ∨
    index.byName.get? name = none ∧ index.addModule name =
      ({ index with
          pool := index.pool.add name
          modules := index.modules.push { name }
          byName := index.byName.insert name index.modules.size }, index.modules.size) := by
  simp only [addModule, pooling]
  cases index.byName.get? name with
  | some id => exact Or.inl ⟨id, rfl, rfl⟩
  | none => exact Or.inr ⟨rfl, rfl⟩

theorem lastClass?_push (index : Index) (record : ClassRecord) (id : ModuleId) (name : String) :
    (index.classes.push record).toList.reverse.find? (fun r => decide (r.module = id ∧ r.name = some name)) =
      if id = record.module ∧ record.name = some name then some record else index.lastClass? id name := by
  rw [Array.toList_push, List.reverse_append, List.reverse_singleton, List.singleton_append, List.find?_cons,
    lastClass?]
  by_cases h : record.module = id ∧ record.name = some name
  · simp [h]
  · have h' : ¬(id = record.module ∧ record.name = some name) := fun e => h ⟨e.1.symm, e.2⟩
    simp only [h, h', decide_false, if_false]

section Filed

variable {index : Index} (h : index.Filed)
include h

/-- What keeps the classes, and of each record where its classes are filed, keeps all. -/
theorem Filed.of_map {j : Index} (hc : j.classes = index.classes) (hsize : j.modules.size = index.modules.size)
    (hmap : ∀ id : ModuleId, j.modules[id]?.map (fun r => (r.classes, r.packages)) =
      index.modules[id]?.map fun r => (r.classes, r.packages)) : j.Filed := by
  have hown : ∀ id name, j.ownClass? id name = index.ownClass? id name := by
    intro id name
    have e := congrArg (Option.bind · fun filed => filed.1.get? name) (hmap id)
    simp only [Option.bind_map] at e
    exact e
  have hpackages : ∀ id, j.packagesOf id = index.packagesOf id := by
    intro id
    have e := congrArg (fun found => (found.map fun filed => OrderedMap.keys filed.2).getD []) (hmap id)
    simp only [Option.map_map] at e
    exact e
  refine ⟨?_, ?_, ?_, ?_⟩
  · rw [hc, hsize]
    exact h.inRange
  · intro id name
    rw [hown, lastClass?, hc]
    exact h.filed id name
  · intro id package
    rw [hpackages, hc]
    exact h.packages id package
  · rw [hc]
    exact h.unlinked

theorem Filed.attachClass {record : ClassRecord} (hlt : record.module < index.modules.size)
    (hunlinked : record.Unlinked) : (index.attachClass record).1.Filed := by
  have hclasses : (index.attachClass record).1.classes = index.classes.push record := by rw [attachClass_eq]
  have hsize := size_attachClass index record
  refine ⟨?_, ?_, ?_, ?_⟩
  · intro other ho
    rw [hclasses, Array.mem_push] at ho
    rw [hsize]
    rcases ho with ho | rfl
    · exact h.inRange other ho
    · exact hlt
  · intro id name
    have hold := h.filed id name
    rw [ownClass?_attachClass hlt, lastClass?, hclasses, lastClass?_push]
    split
    · simp
    · cases hown : index.ownClass? id name with
      | none =>
        rw [hown] at hold
        exact hold
      | some classId =>
        rw [hown] at hold
        simp only [Option.map_some] at hold ⊢
        obtain ⟨last, hlast, hid⟩ := Option.map_eq_some_iff.mp hold.symm
        have hin : classId < index.classes.size := (Array.getElem?_eq_some_iff.mp hid.symm).1
        rw [hlast, Option.map_some, Array.getElem?_push, if_neg (Nat.ne_of_lt hin), hid]
  · intro id package
    rw [mem_packagesOf_attachClass hlt, h.packages, hclasses]
    simp only [Array.mem_push, or_and_right, exists_or, exists_eq_left]
  · intro other ho
    rw [hclasses, Array.mem_push] at ho
    rcases ho with ho | rfl
    · exact h.unlinked other ho
    · exact hunlinked

theorem Filed.addModule (name : String) : (index.addModule name).1.Filed := by
  rcases index.addModule_cases name with ⟨id, -, e⟩ | ⟨-, e⟩
  · rw [e]
    exact h.of_map rfl rfl fun _ => rfl
  · rw [e]
    refine ⟨?_, ?_, ?_, h.unlinked⟩
    · intro record hr
      rw [Array.size_push]
      exact Nat.lt_succ_of_lt (h.inRange record hr)
    · intro id other
      by_cases hid : id = index.modules.size
      · -- The new module has no classes, and no class is of its number.
        have hnone : index.lastClass? id other = none := by
          rw [lastClass?, List.find?_eq_none]
          intro record hr hm
          have hin := h.inRange record (Array.mem_toList_iff.mp (List.mem_reverse.mp hr))
          simp only [decide_eq_true_eq] at hm
          exact Nat.ne_of_lt hin (hm.1.trans hid)
        refine Eq.trans ?_ (congrArg (Option.map some) hnone).symm
        simp [ownClass?, hid, OrderedMap.get?]
      · have hold := h.filed id other
        simp only [ownClass?, Array.getElem?_push, if_neg hid] at hold ⊢
        exact hold
    · intro id package
      by_cases hid : id = index.modules.size
      · refine iff_of_false ?_ ?_
        · simp [packagesOf, hid, OrderedMap.keys]
        · rintro ⟨record, hr, hm, -⟩
          exact Nat.ne_of_lt (h.inRange record hr) (hm.trans hid)
      · have hold := h.packages id package
        simp only [packagesOf, Array.getElem?_push, if_neg hid] at hold ⊢
        exact hold

theorem Filed.apply {module : ModuleId} (hlt : module < index.modules.size) {change : Change}
    (howned : ∀ record ∈ change.attached, record.module = module ∧ record.Unlinked) :
    (change.apply module index).Filed := by
  cases change with
  | pool change => exact h.of_map rfl rfl fun _ => rfl
  | refer name n => exact h.of_map rfl (size_refer _ _ _ _) fun _ => map_refer (fun _ _ _ _ => rfl) _ _ _ _ _
  | attach record =>
    obtain ⟨hmodule, hunlinked⟩ := howned record List.mem_cons_self
    exact h.attachClass (hmodule.symm ▸ hlt) hunlinked
  | main name => exact h.of_map rfl Array.size_modify fun _ => map_setMainClass (fun _ _ => rfl) _ _ _ _
  | service interface implementation =>
    exact h.of_map rfl Array.size_modify fun _ => map_addService (fun _ _ _ => rfl) _ _ _ _ _
  | declare dependency => exact h.of_map rfl Array.size_modify fun _ => map_declare (fun _ _ => rfl) _ _ _ _

end Filed

theorem Filed.foldl_apply {module : ModuleId} {name : String} (changes : List Change) {index : Index}
    (h : index.Filed) (hname : index.nameOf? module = some name)
    (howned : ∀ record ∈ changes.flatMap Change.attached, record.module = module ∧ record.Unlinked) :
    (changes.foldl (Change.apply module) index).Filed := by
  induction changes generalizing index with
  | nil => exact h
  | cons change rest ih =>
    simp only [List.flatMap_cons, List.mem_append] at howned
    have hname' := (Change.nameOf?_apply module index change module).trans hname
    exact ih (h.apply (lt_size_of_nameOf? hname) fun record hr => howned record (Or.inl hr)) hname'
      fun record hr => howned record (Or.inr hr)

theorem Filed.of_core_eq {i j : Index} (h : i.Filed) (hcore : j.core = i.core) : j.Filed :=
  h.of_map (classes_of_core_eq hcore) (size_of_core_eq hcore) fun id => map_of_core_eq (fun _ => rfl) hcore id

end Index

namespace Build

theorem ofFindings_filed (findings : List Finding) : (ofFindings findings).index.Filed := by
  refine ofFindings_induct (P := fun _ index => index.Filed) ?_ ?_ ?_ ?_ findings
  · refine ⟨by simp, fun _ _ => rfl, ?_, by simp⟩
    intro id package
    simp [Index.packagesOf]
  · exact fun _ _ _ _ _ hfiled => hfiled
  · exact fun _ _ _ _ _ _ _ hfiled => hfiled.of_map rfl rfl fun _ => rfl
  · intro done finding index name mainClass roots dependencies _ hg hfiled
    exact (hfiled.addModule name).foldl_apply _ (hg.addModule name).2
      fun record hr => ⟨module_of_attached hr, unlinked_of_attached hr⟩

end Build

end ModuleAudit
