import ModuleAudit.Index.Visibility
import ModuleAudit.Proofs.Ordered

/-! What is visible where: the views of a record and of an index through which visibility is stated,
the part of an index that spreading leaves alone (`ground`), and what the two changes that spreading
makes to a record do to the views. -/

namespace ModuleAudit
set_option autoImplicit false

namespace ModuleRecord

/-- The modules through which a package is visible, in the order in which they came. -/
def through (record : ModuleRecord) (package : String) : List ModuleId :=
  ((record.providers.get? package).getD {}).toList

/-- The packages that are visible through a module, in the order in which they came. -/
def passedBy (record : ModuleRecord) (target : ModuleId) : List String :=
  ((record.provided.get? target).getD {}).toList

/-- The part of a record that spreading leaves alone. -/
def ground (record : ModuleRecord) : ModuleRecord :=
  { record with dependencies := [], providers := {}, provided := {}, reExports := {} }

theorem providers_provide (record : ModuleRecord) (packages : List String) (edge : DependencyEdge)
    (package : String) :
    (record.provide packages edge).providers.get? package =
      if package ∈ packages then some (((record.providers.get? package).getD {}).insert edge.target)
      else record.providers.get? package := by
  simp only [provide]
  generalize record.providers = m
  induction packages generalizing m with
  | nil => simp
  | cons p rest ih =>
    rw [List.foldl_cons, ih, OrderedMap.get?_alter]
    by_cases hp : package = p
    · subst hp
      simp only [if_true, Option.getD_some, List.mem_cons, true_or]
      split
      · rw [OrderedSet.insert_of_mem _ (by simp)]
      · rfl
    · simp only [List.mem_cons, hp, false_or, if_false]

theorem through_provide (record : ModuleRecord) (packages : List String) (edge : DependencyEdge)
    (package : String) :
    (record.provide packages edge).through package =
      if package ∈ packages ∧ edge.target ∉ record.through package then
        record.through package ++ [edge.target]
      else record.through package := by
  simp only [through, providers_provide]
  by_cases hp : package ∈ packages
  · rw [if_pos hp, Option.getD_some, OrderedSet.toList_insert]
    by_cases ht : edge.target ∈ ((record.providers.get? package).getD {}).toList
    · simp [ht]
    · simp [ht, hp]
  · simp [hp]

theorem mem_through_provide (record : ModuleRecord) (packages : List String) (edge : DependencyEdge)
    (package : String) (target : ModuleId) :
    target ∈ (record.provide packages edge).through package ↔
      target ∈ record.through package ∨ package ∈ packages ∧ target = edge.target := by
  rw [through_provide]
  split
  · rename_i h
    simp [h.1]
  · rename_i h
    constructor
    · exact Or.inl
    · rintro (ht | ⟨hp, rfl⟩)
      · exact ht
      · exact Classical.not_not.mp fun hn => h ⟨hp, hn⟩

theorem mem_passedBy_provide (record : ModuleRecord) (packages : List String) (edge : DependencyEdge)
    (package : String) (target : ModuleId) :
    package ∈ (record.provide packages edge).passedBy target ↔
      package ∈ record.passedBy target ∨ package ∈ packages ∧ target = edge.target := by
  simp only [passedBy, provide, OrderedMap.get?_alter]
  by_cases ht : target = edge.target
  · subst ht
    simp [OrderedSet.mem_insertAll]
  · simp [ht]

theorem newlyProvided_eq_zero (record : ModuleRecord) (packages : List String) (target : ModuleId) :
    record.newlyProvided packages target = 0 ↔ ∀ package ∈ packages, target ∈ record.through package := by
  simp only [newlyProvided, List.length_eq_zero_iff, List.filter_eq_nil_iff, List.mem_eraseDups,
    Bool.not_eq_true', Bool.not_eq_false, OrderedSet.contains_iff, through]

end ModuleRecord

namespace Index

/-! ## Views -/

/-- The modules through which a package is visible in a module. -/
def through (index : Index) (id : ModuleId) (package : String) : List ModuleId :=
  (index.modules[id]?.map (·.through package)).getD []

/-- The modules from which a module passes packages on. -/
def reExportsOf (index : Index) (id : ModuleId) : List ModuleId :=
  (index.modules[id]?.map (·.reExports.toList)).getD []

/-- The edges that lead to a module. -/
def dependentsOf (index : Index) (id : ModuleId) : List DependentEdge :=
  (index.modules[id]?.map (·.dependents)).getD []

/-- The declaration that an edge stands for. -/
def declared (index : Index) (edge : DependentEdge) : Option Dependency :=
  index.modules[edge.dependent]?.bind (·.declarations[edge.declaration]?)

/-- Whether the declaration of an edge imports a package. -/
def imports (index : Index) (edge : DependentEdge) (package : String) : Bool :=
  (index.declared edge).any (·.imports.accepts package)

/-- Whether the declaration of an edge exports a package. -/
def exports (index : Index) (edge : DependentEdge) (package : String) : Bool :=
  (index.declared edge).any (·.exports.accepts package)

theorem imported_eq (index : Index) (edge : DependentEdge) (packages : List String) :
    index.imported edge packages = packages.filter (index.imports edge) := by
  unfold imported imports declared
  cases index.modules[edge.dependent]?.bind (·.declarations[edge.declaration]?) with
  | none => simp
  | some declaration => rfl

theorem exported_eq (index : Index) (edge : DependentEdge) (packages : List String) :
    index.exported edge packages = packages.filter (index.exports edge) := by
  unfold exported exports declared
  cases index.modules[edge.dependent]?.bind (·.declarations[edge.declaration]?) with
  | none => simp
  | some declaration => rfl

/-- A module of which a view shows anything is in the index. -/
theorem lt_size_of_mem {α ρ : Type} {f : ρ → List α} {records : Array ρ} {id : Nat} {a : α}
    (h : a ∈ (records[id]?.map f).getD []) : id < records.size := by
  cases hr : records[id]? with
  | none =>
    rw [hr] at h
    exact absurd h (by simp)
  | some record => exact (Array.getElem?_eq_some_iff.mp hr).1

theorem lt_size_of_imports {index : Index} {edge : DependentEdge} {package : String}
    (h : index.imports edge package = true) : edge.dependent < index.modules.size := by
  by_cases hlt : edge.dependent < index.modules.size
  · exact hlt
  · rw [imports, declared, Array.getElem?_eq_none (Nat.le_of_not_lt hlt)] at h
    simp at h

theorem newlyVisible_eq_zero {index : Index} {edge : DependentEdge} (source : ModuleId)
    (packages : List String) (hlt : edge.dependent < index.modules.size) :
    index.newlyVisible source edge packages = 0 ↔
      ∀ package ∈ packages, source ∈ index.through edge.dependent package := by
  simp only [newlyVisible, through, Array.getElem?_eq_getElem hlt, Option.map_some, Option.getD_some]
  exact ModuleRecord.newlyProvided_eq_zero _ _ _

/-! ## Changing records -/

/-- Changes the record of every module. -/
def mapRecords (index : Index) (g : ModuleRecord → ModuleRecord) : Index :=
  { index with modules := index.modules.map g }

theorem getElem?_updateModule (index : Index) (id : ModuleId) (change : ModuleRecord → ModuleRecord)
    (other : ModuleId) :
    (index.updateModule id change).modules[other]? =
      if id = other then index.modules[other]?.map change else index.modules[other]? :=
  Array.getElem?_modify

theorem getElem?_mapRecords (index : Index) (g : ModuleRecord → ModuleRecord) (id : ModuleId) :
    (index.mapRecords g).modules[id]? = index.modules[id]?.map g := Array.getElem?_map

theorem mapRecords_updateModule {g f f' : ModuleRecord → ModuleRecord}
    (h : ∀ record, g (f record) = f' (g record)) (index : Index) (id : ModuleId) :
    (index.updateModule id f).mapRecords g = (index.mapRecords g).updateModule id f' := by
  have e : (index.modules.modify id f).map g = (index.modules.map g).modify id f' := by
    apply Array.ext_getElem?
    intro other
    simp only [Array.getElem?_map, Array.getElem?_modify]
    split
    · cases index.modules[other]? with
      | none => rfl
      | some record => simp [h]
    · rfl
  simp only [mapRecords, updateModule, e]

theorem updateModule_self (index : Index) (id : ModuleId) : index.updateModule id (fun record => record) = index := by
  have e : index.modules.modify id (fun record => record) = index.modules := by
    apply Array.ext_getElem?
    intro other
    simp only [Array.getElem?_modify, Option.map_id_fun', id_eq, ite_self]
  simp only [updateModule, e]

/-! ## The ground of an index -/

/-- The part of an index that spreading leaves alone. -/
def ground (index : Index) : Index := index.mapRecords ModuleRecord.ground

theorem ground_updateModule (index : Index) (id : ModuleId) {change : ModuleRecord → ModuleRecord}
    (h : ∀ record, (change record).ground = record.ground) :
    (index.updateModule id change).ground = index.ground := by
  have e : (index.updateModule id change).ground = index.ground.updateModule id (fun record => record) :=
    mapRecords_updateModule h index id
  rw [e, updateModule_self]

theorem getElem?_ground (index : Index) (id : ModuleId) :
    index.ground.modules[id]? = index.modules[id]?.map ModuleRecord.ground :=
  getElem?_mapRecords index _ id

@[simp] theorem dependentsOf_ground (index : Index) : index.ground.dependentsOf = index.dependentsOf := by
  funext id
  rw [dependentsOf, getElem?_ground, Option.map_map]
  rfl

@[simp] theorem packagesOf_ground (index : Index) : index.ground.packagesOf = index.packagesOf := by
  funext id
  rw [packagesOf, getElem?_ground, Option.map_map]
  rfl

@[simp] theorem declared_ground (index : Index) : index.ground.declared = index.declared := by
  funext edge
  rw [declared, getElem?_ground, Option.bind_map]
  rfl

@[simp] theorem size_ground (index : Index) : index.ground.modules.size = index.modules.size := by
  simp [ground, mapRecords]

section Ground

variable {i j : Index} (h : i.ground = j.ground)
include h

theorem dependentsOf_congr : i.dependentsOf = j.dependentsOf := by
  rw [← dependentsOf_ground i, h, dependentsOf_ground]

theorem packagesOf_congr : i.packagesOf = j.packagesOf := by
  rw [← packagesOf_ground i, h, packagesOf_ground]

theorem imports_congr : i.imports = j.imports := by
  funext edge
  unfold imports
  rw [← declared_ground i, h, declared_ground]

theorem exports_congr : i.exports = j.exports := by
  funext edge
  unfold exports
  rw [← declared_ground i, h, declared_ground]

theorem size_congr : i.modules.size = j.modules.size := by
  rw [← size_ground i, h, size_ground]

end Ground

end Index

end ModuleAudit
