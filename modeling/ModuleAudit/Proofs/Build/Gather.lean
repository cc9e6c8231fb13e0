import ModuleAudit.Proofs.Build.Relate

/-! The index of findings, before edges are drawn: its records are fresh, every module name has one
record, and the supertypes of classes are references of their modules (`Gathered`). Leaving out some
declarations of the findings leaves out the same declarations of the index (`ofFindings_gathered`). -/

namespace ModuleAudit
set_option autoImplicit false

namespace ModuleRecord

/-- Nothing has been drawn or made visible. -/
def Fresh (record : ModuleRecord) : Prop :=
  record.dependencies = [] ∧ record.dependents = [] ∧ record.providers = {} ∧ record.provided = {} ∧
    record.reExports = {}

/-- The record with the declarations that are to be kept. -/
def keeping (keep : String → Dependency → Bool) (record : ModuleRecord) : ModuleRecord :=
  { record with declarations := record.declarations.filter (keep record.name) }

theorem mem_packageRefs_refer (record : ModuleRecord) (typeName : String) (package : Option String) (n : UInt32)
    (other : String) :
    other ∈ (record.refer typeName package n).packageRefs.keys ↔
      other ∈ record.packageRefs.keys ∨ package = some other := by
  cases package with
  | none => simp [refer]
  | some package =>
    simp only [refer, Counts.mem_keys_add, Option.some.injEq]
    exact or_congr Iff.rfl eq_comm

end ModuleRecord

namespace Index

/-- The packages that a module refers to. -/
def packageRefsOf (index : Index) (id : ModuleId) : List String :=
  (index.modules[id]?.map (·.packageRefs.keys)).getD []

/-- What holds of the index of findings. -/
structure Gathered (index : Index) : Prop where
  fresh : ∀ (id : ModuleId) record, index.modules[id]? = some record → ModuleRecord.Fresh record
  named : ∀ name id, index.byName.get? name = some id ↔ index.nameOf? id = some name
  supers : ∀ record ∈ index.classes, ∀ name ∈ record.superNames, ∀ package,
    packageOf? name = some package → package ∈ index.packageRefsOf record.module

/-! ## References -/

theorem size_refer (index : Index) (module : ModuleId) (typeName : String) (n : UInt32) :
    (index.refer module typeName n).modules.size = index.modules.size := Array.size_modify

theorem size_foldl_refer (module : ModuleId) (references : List (String × UInt32)) (index : Index) :
    (references.foldl (fun index (name, n) => index.refer module name n) index).modules.size =
      index.modules.size := by
  induction references generalizing index with
  | nil => rfl
  | cons first rest ih => rw [List.foldl_cons, ih, size_refer]

section Refer

-- `f` stands for the types or the packages that a record refers to, and `added` for what one reference adds.
variable {f : ModuleRecord → List String} {added : String → String → Prop}
  (hf : ∀ record typeName n other, other ∈ f (ModuleRecord.refer record typeName (packageOf? typeName) n) ↔
    other ∈ f record ∨ added typeName other)
include hf

theorem mem_refs_refer {index : Index} {module : ModuleId} (hlt : module < index.modules.size)
    (typeName : String) (n : UInt32) (id : ModuleId) (other : String) :
    other ∈ ((index.refer module typeName n).modules[id]?.map f).getD [] ↔
      other ∈ (index.modules[id]?.map f).getD [] ∨ id = module ∧ added typeName other := by
  rw [refer, getElem?_updateModule]
  by_cases h : module = id
  · subst h
    have hlt' : module < (index.pooling fun pool => pool.addPackage typeName).modules.size := hlt
    rw [if_pos rfl, Array.getElem?_eq_getElem hlt', Array.getElem?_eq_getElem hlt]
    simp only [Option.map_some, Option.getD_some, hf, true_and]
    rfl
  · have h' : id ≠ module := fun e => h e.symm
    simp only [if_neg h, h', false_and, or_false]
    rfl

theorem mem_refs_foldl_refer {module : ModuleId} (references : List (String × UInt32)) {index : Index}
    (hlt : module < index.modules.size) (id : ModuleId) (other : String) :
    other ∈ ((references.foldl (fun index (name, n) => index.refer module name n) index).modules[id]?.map f).getD
        [] ↔
      other ∈ (index.modules[id]?.map f).getD [] ∨
        id = module ∧ ∃ reference ∈ references, added reference.1 other := by
  induction references generalizing index with
  | nil => simp
  | cons first rest ih =>
    rw [List.foldl_cons, ih (by rw [size_refer]; exact hlt), mem_refs_refer hf hlt, or_assoc]
    refine or_congr Iff.rfl ?_
    simp only [List.mem_cons, exists_eq_or_imp, and_or_left]

theorem mem_refs_attachClass
    (hc : ∀ record name package id, f (ModuleRecord.addClass record name package id) = f record)
    {index : Index} {record : ClassRecord} (hlt : record.module < index.modules.size) (id : ModuleId)
    (other : String) :
    other ∈ ((index.attachClass record).1.modules[id]?.map f).getD [] ↔
      other ∈ (index.modules[id]?.map f).getD [] ∨
        id = record.module ∧ ∃ reference ∈ record.references, added reference.1 other := by
  rw [← mem_refs_foldl_refer hf record.references hlt, map_attachClass_of_filed hc]

end Refer

theorem mem_packageRefsOf_refer_of_mem {index : Index} {id module : ModuleId} {typeName package : String}
    {n : UInt32} (h : package ∈ index.packageRefsOf id) :
    package ∈ (index.refer module typeName n).packageRefsOf id := by
  by_cases hlt : module < index.modules.size
  · exact (mem_refs_refer (f := (·.packageRefs.keys))
      (fun record typeName n => record.mem_packageRefs_refer typeName _ n) hlt typeName n id package).mpr (Or.inl h)
  · have hne : module ≠ id := fun e => hlt (e ▸ lt_size_of_mem h)
    rw [packageRefsOf, Index.refer, getElem?_updateModule, if_neg hne]
    exact h

theorem mem_packageRefsOf_attachClass {index : Index} {record : ClassRecord}
    (hlt : record.module < index.modules.size) (id : ModuleId) (package : String) :
    package ∈ (index.attachClass record).1.packageRefsOf id ↔ package ∈ index.packageRefsOf id ∨
      id = record.module ∧ ∃ reference ∈ record.references, packageOf? reference.1 = some package :=
  mem_refs_attachClass (f := (·.packageRefs.keys))
    (fun record typeName n => record.mem_packageRefs_refer typeName _ n) (fun _ _ _ _ => rfl) hlt id package

theorem foldl_refer_eq (module : ModuleId) (references : List (String × UInt32)) (index : Index) :
    references.foldl (fun index (name, n) => index.refer module name n) index =
      { index with
        pool := (references.foldl (fun index (name, n) => index.refer module name n) index).pool
        modules := (references.foldl (fun index (name, n) => index.refer module name n) index).modules } := by
  induction references generalizing index with
  | nil => rfl
  | cons first rest ih =>
    rw [List.foldl_cons, ih]
    rfl

theorem attachClass_eq (index : Index) (record : ClassRecord) :
    (index.attachClass record).1 =
      { index with
        pool := (index.attachClass record).1.pool
        modules := (index.attachClass record).1.modules
        classes := index.classes.push record } := by
  simp only [attachClass]
  rw [foldl_refer_eq]
  cases record.name with
  | none => rfl
  | some name => rfl

/-! ## Adding findings -/

/-- A change of records that keeps names and what was drawn, and loses no reference, keeps all. -/
theorem Gathered.of_records {i j : Index} (h : i.Gathered) (hn : j.byName = i.byName)
    (hc : j.classes = i.classes) (hname : ∀ id, j.nameOf? id = i.nameOf? id)
    (hfresh : ∀ id : ModuleId, j.modules[id]?.map ModuleRecord.Fresh = i.modules[id]?.map ModuleRecord.Fresh)
    (hrefs : ∀ id package, package ∈ i.packageRefsOf id → package ∈ j.packageRefsOf id) : j.Gathered where
  fresh id record hr := by
    have e := hfresh id
    rw [hr, Option.map_some] at e
    obtain ⟨r, hi, hf⟩ := Option.map_eq_some_iff.mp e.symm
    rw [← hf]
    exact h.fresh id r hi
  named name id := by
    rw [hn, hname]
    exact h.named name id
  supers record hr name hm package hp := by
    rw [hc] at hr
    exact hrefs _ _ (h.supers record hr name hm package hp)

theorem Gathered.of_map {i j : Index} (h : i.Gathered) (hn : j.byName = i.byName)
    (hc : j.classes = i.classes)
    (hmap : ∀ id : ModuleId,
      j.modules[id]?.map (fun record => (record.name, record.Fresh, record.packageRefs.keys)) =
        i.modules[id]?.map (fun record => (record.name, record.Fresh, record.packageRefs.keys))) :
    j.Gathered := by
  have hproj : ∀ {α : Type} (f : String × Prop × List String → α) (id : ModuleId),
      j.modules[id]?.map (fun record => f (record.name, record.Fresh, record.packageRefs.keys)) =
        i.modules[id]?.map (fun record => f (record.name, record.Fresh, record.packageRefs.keys)) := by
    intro α f id
    have e := congrArg (Option.map f) (hmap id)
    rw [Option.map_map, Option.map_map] at e
    exact e
  refine h.of_records hn hc (hproj (·.1)) (hproj (·.2.1)) ?_
  intro id package hp
  rw [packageRefsOf, hproj (·.2.2) id]
  exact hp

theorem Gathered.addModule {i : Index} (h : i.Gathered) (name : String) :
    (i.addModule name).1.Gathered ∧ (i.addModule name).1.nameOf? (i.addModule name).2 = some name := by
  simp only [Index.addModule, pooling]
  cases hn : i.byName.get? name with
  | some id => exact ⟨h.of_map rfl rfl fun _ => rfl, (h.named name id).mp hn⟩
  | none =>
    refine ⟨⟨?_, ?_, ?_⟩, by simp [nameOf?]⟩
    · intro id record hr
      simp only [Array.getElem?_push] at hr
      split at hr
      · rw [← Option.some.inj hr]
        exact ⟨rfl, rfl, rfl, rfl, rfl⟩
      · exact h.fresh id record hr
    · intro other id
      simp only [OrderedMap.insert, OrderedMap.get?_alter, nameOf?, Array.getElem?_push]
      -- The new name was not known, and the new number is that of no module yet.
      by_cases ho : other = name
      · subst ho
        have hnone : ∀ id, i.nameOf? id ≠ some other := by
          intro id hid
          rw [(h.named other id).mpr hid] at hn
          exact absurd hn (by simp)
        by_cases hid : id = i.modules.size
        · simp [hid]
        · simp only [if_true, if_neg hid]
          exact ⟨fun e => absurd (Option.some.inj e).symm hid, fun e => absurd e (hnone id)⟩
      · by_cases hid : id = i.modules.size
        · have hlt : i.byName.get? other ≠ some id := by
            intro e
            have hid' := lt_size_of_nameOf? ((h.named other id).mp e)
            exact absurd hid (Nat.ne_of_lt hid')
          simp only [if_neg ho, if_pos hid, Option.map_some, Option.some.injEq]
          exact ⟨fun e => absurd e hlt, fun e => absurd e.symm ho⟩
        · simp only [if_neg ho, if_neg hid]
          exact h.named other id
    · intro record hr type ht package hp
      have hold := h.supers record hr type ht package hp
      have hlt := lt_size_of_mem hold
      simp only [packageRefsOf, Array.getElem?_push, Nat.ne_of_lt hlt, if_false]
      exact hold

theorem Gathered.refer {i : Index} (h : i.Gathered) (module : ModuleId) (typeName : String) (n : UInt32) :
    (i.refer module typeName n).Gathered := by
  refine h.of_records rfl rfl ?_ ?_ ?_
  · exact fun id => map_refer (fun _ _ _ _ => rfl) _ _ _ _ _
  · exact fun id => map_refer (fun _ _ _ _ => rfl) _ _ _ _ _
  · intro id package hp
    exact mem_packageRefsOf_refer_of_mem hp

theorem Gathered.attachClass {i : Index} (h : i.Gathered) (record : ClassRecord)
    (hlt : record.module < i.modules.size) (hf : record.Faithful) : (i.attachClass record).1.Gathered where
  fresh id module hr := by
    have e := map_attachClass (f := ModuleRecord.Fresh) (fun _ _ _ _ => rfl) (fun _ _ _ _ => rfl) i record id
    rw [hr, Option.map_some] at e
    obtain ⟨r, hi, hfr⟩ := Option.map_eq_some_iff.mp e.symm
    rw [← hfr]
    exact h.fresh id r hi
  named name id := by
    have e := map_attachClass (f := (·.name)) (fun _ _ _ _ => rfl) (fun _ _ _ _ => rfl) i record id
    rw [attachClass_eq, nameOf?, e]
    exact h.named name id
  supers := by
    intro other ho name hn package hp
    rw [attachClass_eq, Array.mem_push] at ho
    rw [mem_packageRefsOf_attachClass hlt]
    rcases ho with ho | rfl
    · exact Or.inl (h.supers other ho name hn package hp)
    · obtain ⟨entry, he, rfl⟩ := List.mem_map.mp (hf name hn)
      exact Or.inr ⟨rfl, entry, List.mem_append_left _ he, hp⟩

theorem Gathered.declare {i : Index} (h : i.Gathered) (module : ModuleId) (dependency : Dependency) :
    (i.declare module dependency).Gathered :=
  h.of_map rfl rfl fun _ => map_declare (fun _ _ => rfl) _ _ _ _

/-! ## Leaving out declarations -/

variable {keep : String → Dependency → Bool}

/-- The index with the declarations that are to be kept. -/
def keeping (index : Index) (keep : String → Dependency → Bool) : Index :=
  index.mapRecords (ModuleRecord.keeping keep)

theorem keeping_updateModule {f : ModuleRecord → ModuleRecord}
    (h : ∀ record, (f record).keeping keep = f (record.keeping keep)) (index : Index) (id : ModuleId) :
    (index.updateModule id f).keeping keep = (index.keeping keep).updateModule id f :=
  mapRecords_updateModule h index id

theorem keeping_refer (index : Index) (module : ModuleId) (typeName : String) (n : UInt32) :
    (index.refer module typeName n).keeping keep = (index.keeping keep).refer module typeName n := by
  rw [refer, keeping_updateModule]
  · rfl
  · exact fun _ => rfl

theorem keeping_foldl_refer (module : ModuleId) (references : List (String × UInt32)) (index : Index) :
    (references.foldl (fun index (name, n) => index.refer module name n) index).keeping keep =
      references.foldl (fun index (name, n) => index.refer module name n) (index.keeping keep) := by
  induction references generalizing index with
  | nil => rfl
  | cons first rest ih => rw [List.foldl_cons, ih, keeping_refer, List.foldl_cons]

theorem keeping_attachClass (index : Index) (record : ClassRecord) :
    (index.attachClass record).1.keeping keep = ((index.keeping keep).attachClass record).1 := by
  simp only [attachClass, ← keeping_foldl_refer]
  generalize record.references.foldl (fun index (name, n) => index.refer record.module name n) index = filed
  cases record.name with
  | none => rfl
  | some name =>
    have h : ((filed.pooling (·.addPackage name)).updateModule record.module
        (·.addClass name (packageOf? name) index.classes.size)).keeping keep =
        ((filed.keeping keep).pooling (·.addPackage name)).updateModule record.module
          (·.addClass name (packageOf? name) index.classes.size) := by
      rw [keeping_updateModule]
      · rfl
      · exact fun _ => rfl
    exact congrArg (fun i : Index => { i with classes := i.classes.push record }) h

theorem keeping_addModule (index : Index) (name : String) :
    (index.addModule name).1.keeping keep = ((index.keeping keep).addModule name).1 ∧
      (index.addModule name).2 = ((index.keeping keep).addModule name).2 := by
  simp only [addModule, pooling, keeping, mapRecords]
  cases index.byName.get? name with
  | some id => exact ⟨rfl, rfl⟩
  | none => simp [ModuleRecord.keeping]

section Declare

variable {index : Index} {module : ModuleId} {name : String} {dependency : Dependency}
  (hn : index.nameOf? module = some name)
include hn

theorem keeping_declare_kept (hk : keep name dependency = true) :
    (index.declare module dependency).keeping keep = (index.keeping keep).declare module dependency := by
  obtain ⟨record, hr, rfl⟩ := Option.map_eq_some_iff.mp hn
  refine congrArg (fun modules => { index with modules }) (Array.ext_getElem? fun other => ?_)
  simp only [declare, keeping, mapRecords, updateModule, Array.getElem?_map, Array.getElem?_modify]
  by_cases ho : module = other
  · subst ho
    simp [hr, hk, ModuleRecord.keeping]
  · simp only [if_neg ho]

theorem keeping_declare_dropped (hk : keep name dependency = false) :
    (index.declare module dependency).keeping keep = index.keeping keep := by
  obtain ⟨record, hr, rfl⟩ := Option.map_eq_some_iff.mp hn
  refine congrArg (fun modules => { index with modules }) (Array.ext_getElem? fun other => ?_)
  simp only [declare, updateModule, Array.getElem?_map, Array.getElem?_modify]
  by_cases ho : module = other
  · subst ho
    simp [hr, hk, ModuleRecord.keeping]
  · simp only [if_neg ho]

end Declare

theorem ingestRelates_keeping (keep : String → Dependency → Bool) :
    IngestRelates fun i j => i.Gathered ∧ i.keeping keep = j where
  pool_eq := by
    rintro i _ ⟨-, rfl⟩
    rfl
  pooling := by
    rintro i _ change ⟨h, rfl⟩
    exact ⟨h.of_map rfl rfl fun _ => rfl, rfl⟩
  addModule := by
    rintro i _ name ⟨h, rfl⟩
    exact ⟨(h.addModule name).1, (keeping_addModule i name).1⟩
  addModule_eq := by
    rintro i _ name ⟨-, rfl⟩
    exact (keeping_addModule i name).2
  addModule_name := by
    rintro i _ name ⟨h, -⟩
    exact (h.addModule name).2
  addAlias := by
    rintro i _ name target ⟨h, rfl⟩
    exact ⟨h.of_map rfl rfl fun _ => rfl, rfl⟩
  refer := by
    rintro i _ module typeName n ⟨h, rfl⟩
    exact ⟨h.refer module typeName n, keeping_refer i module typeName n⟩
  attachClass := by
    rintro i _ record hlt hf ⟨h, rfl⟩
    exact ⟨h.attachClass record hlt hf, keeping_attachClass i record⟩
  setMainClass := by
    rintro i _ module name ⟨h, rfl⟩
    refine ⟨h.of_map rfl rfl fun _ => map_setMainClass (fun _ _ => rfl) _ _ _ _, ?_⟩
    rw [Index.setMainClass, keeping_updateModule]
    · rfl
    · exact fun _ => rfl
  addService := by
    rintro i _ module interface implementation ⟨h, rfl⟩
    refine ⟨h.of_map rfl rfl fun _ => map_addService (fun _ _ _ => rfl) _ _ _ _ _, ?_⟩
    rw [Index.addService, keeping_updateModule]
    · rfl
    · exact fun _ => rfl

theorem declareRelates_keeping (keep : String → Dependency → Bool) :
    DeclareRelates keep fun i j => i.Gathered ∧ i.keeping keep = j where
  kept := by
    rintro i _ module name dependency hn hk ⟨h, rfl⟩
    exact ⟨h.declare module dependency, keeping_declare_kept hn hk⟩
  dropped := by
    rintro i _ module name dependency hn hk ⟨h, rfl⟩
    exact ⟨h.declare module dependency, keeping_declare_dropped hn hk⟩

end Index

namespace Build

theorem ofFindings_gathered (keep : String → Dependency → Bool) (findings : List Finding) :
    (ofFindings findings).index.Gathered ∧ (ofFindings findings).index.keeping keep =
      (ofFindings (findings.map (Finding.keeping keep))).index := by
  refine ofFindings_relates (Index.ingestRelates_keeping keep) (Index.declareRelates_keeping keep) ?_ findings
  refine ⟨⟨by simp, ?_, by simp⟩, by simp [Index.keeping, Index.mapRecords]⟩
  intro name id
  simp [OrderedMap.get?, Index.nameOf?]

end Build

end ModuleAudit
