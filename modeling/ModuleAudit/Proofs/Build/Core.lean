import Mathlib.Data.List.Basic
import ModuleAudit.Proofs.Build.Complete

/-! The core of an index: what does not speak of dependencies. Drawing edges and spreading packages leave it
alone, and linking classes reads no more than the core and what is visible, so two indices with the same core
have the same core in the end if the supertypes of classes mean the same in both (`core_completed_congr`). -/

namespace ModuleAudit
set_option autoImplicit false

/-- A record without its dependencies and what comes of them. -/
def ModuleRecord.core (record : ModuleRecord) : ModuleRecord :=
  { record with
    declarations := [], dependencies := [], dependents := [], providers := {}, provided := {}, reExports := {} }

theorem ModuleRecord.fields_of_core_eq {r s : ModuleRecord} (h : r.core = s.core) :
    r.name = s.name ∧ r.classes = s.classes ∧ r.packages = s.packages ∧ r.classRefs = s.classRefs ∧
      r.packageRefs = s.packageRefs := by
  simp only [core, mk.injEq] at h
  exact ⟨h.1, h.2.2.1, h.2.2.2.1, h.2.2.2.2.1, h.2.2.2.2.2.1⟩

namespace Index

/-- An index without its dependencies and what comes of them. -/
def core (index : Index) : Index := index.mapRecords ModuleRecord.core

theorem mapRecords_mapRecords (index : Index) (f g : ModuleRecord → ModuleRecord) :
    (index.mapRecords f).mapRecords g = index.mapRecords (g ∘ f) := by
  simp only [mapRecords, Array.map_map]

theorem classes_of_core_eq {i j : Index} (h : i.core = j.core) : i.classes = j.classes := by
  have e := congrArg classes h
  exact e

theorem map_of_core_eq {α : Type} {f : ModuleRecord → α} (hf : ∀ record, f record.core = f record)
    {i j : Index} (h : i.core = j.core) (id : ModuleId) : i.modules[id]?.map f = j.modules[id]?.map f := by
  have e := congrArg (fun index : Index => index.modules[id]?.map f) h
  simp only [core, getElem?_mapRecords, Option.map_map, Function.comp_def, hf] at e
  exact e

theorem size_of_core_eq {i j : Index} (h : i.core = j.core) : i.modules.size = j.modules.size := by
  have e := congrArg (fun index : Index => index.modules.size) h
  simp only [core, mapRecords, Array.size_map] at e
  exact e

/-! ## What the stages do to the core -/

theorem core_of_ground_eq {i j : Index} (h : i.ground = j.ground) : i.core = j.core := by
  have e := congrArg core h
  simp only [core, ground, mapRecords_mapRecords] at e
  exact e

theorem core_keeping (index : Index) (keep : String → Dependency → Bool) :
    (index.keeping keep).core = index.core := mapRecords_mapRecords index _ _

theorem core_drawn (index : Index) : index.drawn.core = index.core := by
  rw [drawn, foldl_addEdge_eq]
  refine congrArg (fun modules => { index with modules }) (Array.ext_getElem? fun id => ?_)
  rw [Array.getElem?_map, getElem?_foldl_addEdge, Option.map_map, Array.getElem?_map]
  rfl

theorem core_refer (index : Index) (module : ModuleId) (typeName : String) (n : UInt32) :
    (index.refer module typeName n).core = index.core.refer module typeName n := by
  rw [refer, core, mapRecords_updateModule]
  · rfl
  · exact fun _ => rfl

theorem core_inheritClass (index : Index) (id : ClassId) :
    (index.inheritClass id).core = index.core.inheritClass id := by
  have hrefer : ∀ (module : ModuleId) (names : List String) (i : Index),
      (names.foldl (fun index name => index.refer module name 1) i).core =
        names.foldl (fun index name => index.refer module name 1) i.core := by
    intro module names
    induction names with
    | nil => exact fun _ => rfl
    | cons name rest ih =>
      intro i
      rw [List.foldl_cons, ih, core_refer, List.foldl_cons]
  have hclasses : index.core.classes[id]? = index.classes[id]? := rfl
  rw [inheritClass, inheritClass, hclasses]
  cases index.classes[id]? with
  | none => rfl
  | some record => exact hrefer _ _ _

theorem core_inheritAll (index : Index) : index.inheritAll.core = index.core.inheritAll := by
  have hfold : ∀ (ids : List ClassId) (i : Index),
      (ids.foldl inheritClass i).core = ids.foldl inheritClass i.core := by
    intro ids
    induction ids with
    | nil => exact fun _ => rfl
    | cons id rest ih =>
      intro i
      rw [List.foldl_cons, ih, core_inheritClass, List.foldl_cons]
  exact hfold _ _

/-! ## Linking -/

theorem providersOf_eq (index : Index) (module : ModuleId) (typeName : String) :
    index.providersOf module typeName = ((packageOf? typeName).map (index.through module)).getD [] := by
  rw [providersOf]
  cases packageOf? typeName with
  | none => rfl
  | some package =>
    simp only [Option.map_some, Option.getD_some, through]
    cases index.modules[module]? with
    | none => rfl
    | some record => rfl

theorem ownClass?_of_core_eq {i j : Index} (h : i.core = j.core) : i.ownClass? = j.ownClass? := by
  funext module name
  have e := congrArg (fun index : Index => index.modules[module]?.bind (·.classes.get? name)) h
  simp only [core, getElem?_mapRecords, Option.bind_map] at e
  exact e

theorem visibleClass?_congr {i j : Index} (h : i.core = j.core) {module : ModuleId} {name : String}
    (hp : ∀ package, packageOf? name = some package → i.through module package = j.through module package) :
    i.visibleClass? module name = j.visibleClass? module name := by
  have hproviders : i.providersOf module name = j.providersOf module name := by
    rw [providersOf_eq, providersOf_eq]
    cases hn : packageOf? name with
    | none => rfl
    | some package => simp only [Option.map_some, Option.getD_some, hp package hn]
  rw [visibleClass?, visibleClass?, ownClass?_of_core_eq h, hproviders]

theorem linkClass_congr {i j : Index} {record : ClassRecord}
    (h : ∀ name ∈ record.superNames, i.visibleClass? record.module name = j.visibleClass? record.module name) :
    i.linkClass record = j.linkClass record := by
  have hsuper : record.superName.bind (i.visibleClass? record.module) =
      record.superName.bind (j.visibleClass? record.module) := by
    cases hs : record.superName with
    | none => rfl
    | some name => exact h name (by simp [ClassRecord.superNames, hs])
  have hinterfaces : record.interfaceNames.filterMap (i.visibleClass? record.module) =
      record.interfaceNames.filterMap (j.visibleClass? record.module) :=
    List.filterMap_congr fun name hn => h name (by simp [ClassRecord.superNames, hn])
  simp only [linkClass, hsuper, hinterfaces]

/-- The supertypes of all classes of `i` and `j` mean the same. -/
def SupersAgree (i j : Index) : Prop :=
  ∀ record ∈ i.classes, ∀ name ∈ record.superNames,
    i.visibleClass? record.module name = j.visibleClass? record.module name

theorem core_linkSupertypes_congr {i j : Index} (h : i.core = j.core) (hs : SupersAgree i j) :
    i.linkSupertypes.1.core = j.linkSupertypes.1.core := by
  have hclasses := classes_of_core_eq h
  have hlinked : i.classes.map i.linkClass = j.classes.map j.linkClass := by
    rw [← hclasses]
    exact Array.map_congr_left fun record hr => linkClass_congr (hs record hr)
  have e := congrArg (fun index : Index => { index with classes := (i.classes.map i.linkClass).map Prod.fst }) h
  rw [hlinked] at e
  simp only [linkSupertypes, hlinked]
  exact e

theorem core_spreadAll_drawn (index : Index) : index.drawn.spreadAll.core = index.core :=
  (core_of_ground_eq (steps_spreadAll index.drawn).ground_eq).trans (core_drawn index)

/-- Two indices with the same core have the same core when they are completed, if the packages of their
classes' supertypes are visible through the same modules. -/
theorem core_completed_congr {i j : Index} (h : i.core = j.core)
    (hp : ∀ record ∈ i.classes, ∀ name ∈ record.superNames, ∀ package, packageOf? name = some package →
      i.drawn.spreadAll.through record.module package = j.drawn.spreadAll.through record.module package) :
    i.completed.core = j.completed.core := by
  have hspread : i.drawn.spreadAll.core = j.drawn.spreadAll.core := by
    rw [core_spreadAll_drawn, core_spreadAll_drawn, h]
  rw [completed, completed, core_inheritAll, core_inheritAll, core_linkSupertypes_congr hspread]
  intro record hr name hn
  rw [classes_of_core_eq (core_spreadAll_drawn i)] at hr
  exact visibleClass?_congr hspread (hp record hr name hn)

end Index

end ModuleAudit
