import ModuleAudit.Proofs.Build.Filed
import ModuleAudit.Proofs.Build.Pool

/-! What an index stores to point into itself: pooled names, numbers of modules and classes, and positions of
declarations. All of it is in range (`Index.InRange`). Each change that a build makes keeps this, as long as what the
change stores is in range when it is made. -/

namespace ModuleAudit
set_option autoImplicit false

/-! ## Names -/

namespace NamePool

/-- The name has a symbol, and the symbol is below the size of the pool. -/
def Has (pool : NamePool) (name : String) : Prop :=
  ∃ symbol, pool.lookup? name = some symbol ∧ symbol.position < pool.size

theorem has_iff {pool : NamePool} {name : String} : pool.Has name ↔ name ∈ pool.names.toList := by
  rw [Has, lookup?, OrderedSet.position?]
  constructor
  · rintro ⟨symbol, hs, -⟩
    obtain ⟨position, hp, -⟩ := Option.map_eq_some_iff.mp hs
    obtain ⟨hlt, rfl, -⟩ := List.idxOf?_eq_some_iff.mp hp
    exact List.getElem_mem hlt
  · intro h
    obtain ⟨position, hp⟩ := Option.isSome_iff_exists.mp (List.isSome_idxOf?.mpr h)
    obtain ⟨hlt, -⟩ := List.idxOf?_eq_some_iff.mp hp
    exact ⟨⟨position⟩, by rw [hp]; rfl, hlt⟩

variable {pool : NamePool} {name : String}

theorem Has.grows {change : NamePool → NamePool} (h : pool.Has name) (hgrows : Grows change) :
    (change pool).Has name :=
  has_iff.mpr ((hgrows.within pool).names name (has_iff.mp h))

theorem has_add (pool : NamePool) (name : String) : (pool.add name).Has name :=
  has_iff.mpr ((OrderedSet.mem_insert _ _ _).mpr (Or.inr rfl))

theorem has_addPackage {typeName package : String} (h : packageOf? typeName = some package) (pool : NamePool) :
    (pool.addPackage typeName).Has package := by
  rw [addPackage, h]
  exact has_add pool package

end NamePool

open NamePool

/-! ## Records -/

/-- What a class record stores is in range. -/
structure ClassRecord.InRange (index : Index) (record : ClassRecord) : Prop where
  module : record.module < index.modules.size
  name : ∀ name ∈ record.name, index.pool.Has name
  superNames : ∀ name ∈ record.superNames, index.pool.Has name
  links : ∀ classId ∈ record.parents, classId < index.classes.size
  memberRefs : ∀ typeName ∈ record.memberRefs.keys, index.pool.Has typeName
  otherRefs : ∀ typeName ∈ record.otherRefs.keys, index.pool.Has typeName

/-- What a module record stores is in range. -/
structure ModuleRecord.InRange (index : Index) (record : ModuleRecord) : Prop where
  name : index.pool.Has record.name
  mainClass : ∀ name ∈ record.mainClass, index.pool.Has name
  classes : ∀ name classId, record.classes.get? name = some classId →
    index.pool.Has name ∧ classId < index.classes.size
  packages : ∀ package ∈ record.packages.keys, index.pool.Has package
  classRefs : ∀ typeName ∈ record.classRefs.keys, index.pool.Has typeName
  packageRefs : ∀ package ∈ record.packageRefs.keys, index.pool.Has package
  dependencies : ∀ edge ∈ record.dependencies,
    edge.target < index.modules.size ∧ edge.declaration < record.declarations.length
  dependents : ∀ edge ∈ record.dependents,
    edge.dependent < index.modules.size ∧ edge.declaration < (index.declarationsOf edge.dependent).length
  providers : ∀ package targets, record.providers.get? package = some targets →
    index.pool.Has package ∧ ∀ target ∈ targets.toList, target < index.modules.size
  provided : ∀ target packages, record.provided.get? target = some packages →
    target < index.modules.size ∧ ∀ package ∈ packages.toList, index.pool.Has package
  services : ∀ interface implementations, record.services.get? interface = some implementations →
    index.pool.Has interface ∧ ∀ implementation ∈ implementations.toList, index.pool.Has implementation
  reExports : ∀ target ∈ record.reExports.toList, target < index.modules.size

/-- What the modules, the classes and the tables of an index store is in range. -/
structure Index.InRange (index : Index) : Prop where
  modules : ∀ record ∈ index.modules, record.InRange index
  classes : ∀ record ∈ index.classes, record.InRange index
  byName : ∀ name id, index.byName.get? name = some id → index.pool.Has name ∧ id < index.modules.size
  aliases : ∀ name target, index.aliases.get? name = some target → index.pool.Has name ∧ index.pool.Has target
  literals : ∀ symbol ∈ index.pool.literals.toList, symbol.position < index.pool.size

/-! ## More room -/

namespace Index

/-- What is in range of the first index is in range of the second. -/
structure Grown (i j : Index) : Prop where
  names : ∀ name, i.pool.Has name → j.pool.Has name
  modules : i.modules.size ≤ j.modules.size
  classes : i.classes.size ≤ j.classes.size
  declarations : ∀ id, (i.declarationsOf id).length ≤ (j.declarationsOf id).length

end Index

section Grown

variable {i j : Index} (hg : i.Grown j)
include hg

theorem ClassRecord.InRange.grown {record : ClassRecord} (h : record.InRange i) : record.InRange j where
  module := Nat.lt_of_lt_of_le h.module hg.modules
  name name hn := hg.names name (h.name name hn)
  superNames name hn := hg.names name (h.superNames name hn)
  links classId hc := Nat.lt_of_lt_of_le (h.links classId hc) hg.classes
  memberRefs name hn := hg.names name (h.memberRefs name hn)
  otherRefs name hn := hg.names name (h.otherRefs name hn)

theorem ModuleRecord.InRange.grown {record : ModuleRecord} (h : record.InRange i) : record.InRange j where
  name := hg.names _ h.name
  mainClass name hn := hg.names name (h.mainClass name hn)
  classes name classId hc :=
    (h.classes name classId hc).imp (hg.names name) fun hlt => Nat.lt_of_lt_of_le hlt hg.classes
  packages name hn := hg.names name (h.packages name hn)
  classRefs name hn := hg.names name (h.classRefs name hn)
  packageRefs name hn := hg.names name (h.packageRefs name hn)
  dependencies edge he := (h.dependencies edge he).imp_left fun hlt => Nat.lt_of_lt_of_le hlt hg.modules
  dependents edge he := (h.dependents edge he).imp (fun hlt => Nat.lt_of_lt_of_le hlt hg.modules)
    fun hlt => Nat.lt_of_lt_of_le hlt (hg.declarations _)
  providers package targets ht := (h.providers package targets ht).imp (hg.names package)
    fun hall target hm => Nat.lt_of_lt_of_le (hall target hm) hg.modules
  provided target packages hp := (h.provided target packages hp).imp
    (fun hlt => Nat.lt_of_lt_of_le hlt hg.modules) fun hall package hm => hg.names package (hall package hm)
  services interface implementations hs := (h.services interface implementations hs).imp (hg.names interface)
    fun hall implementation hm => hg.names implementation (hall implementation hm)
  reExports target ht := Nat.lt_of_lt_of_le (h.reExports target ht) hg.modules

end Grown

/-! ## Changes of a record -/

namespace ModuleRecord

variable {index : Index} {record : ModuleRecord}

/-- A new record stores no more than the name of its module. -/
theorem inRange_new {name : String} (h : index.pool.Has name) : ModuleRecord.InRange index { name } := by
  refine ⟨h, ?_, ?_, ?_, ?_, ?_, ?_, ?_, ?_, ?_, ?_, ?_⟩ <;> simp [OrderedMap.get?, OrderedMap.keys]

theorem InRange.refer (h : record.InRange index) {typeName : String} {package : Option String}
    (ht : index.pool.Has typeName) (hp : ∀ name, package = some name → index.pool.Has name) (n : UInt32) :
    (record.refer typeName package n).InRange index := by
  have hadd : ∀ {counts : Counts} {name : String}, (∀ other ∈ counts.keys, index.pool.Has other) →
      index.pool.Has name → ∀ other ∈ (counts.add name n).keys, index.pool.Has other := by
    intro counts name hall hname other ho
    rcases (Counts.mem_keys_add counts name n other).mp ho with ho | rfl
    · exact hall other ho
    · exact hname
  cases package with
  | none => exact { h with classRefs := hadd h.classRefs ht }
  | some name =>
    exact { h with classRefs := hadd h.classRefs ht, packageRefs := hadd h.packageRefs (hp name rfl) }

theorem InRange.addClass (h : record.InRange index) {name : String} {package : Option String} {classId : ClassId}
    (hn : index.pool.Has name) (hp : ∀ name, package = some name → index.pool.Has name)
    (hc : classId < index.classes.size) : (record.addClass name package classId).InRange index := by
  have hclasses : ∀ other otherId, (record.classes.insert name classId).get? other = some otherId →
      index.pool.Has other ∧ otherId < index.classes.size := by
    intro other otherId ho
    rw [OrderedMap.insert, OrderedMap.get?_alter] at ho
    split at ho
    · rename_i he
      rw [he, ← Option.some.inj ho]
      exact ⟨hn, hc⟩
    · exact h.classes other otherId ho
  cases package with
  | none => exact { h with classes := hclasses }
  | some added =>
    refine { h with classes := hclasses, packages := ?_ }
    intro other ho
    rcases (Counts.mem_keys_add record.packages added 1 other).mp ho with ho | rfl
    · exact h.packages other ho
    · exact hp other rfl

theorem InRange.addService (h : record.InRange index) {interface implementation : String}
    (hi : index.pool.Has interface) (hm : index.pool.Has implementation) :
    (record.addService interface implementation).InRange index := by
  refine { h with services := ?_ }
  intro other implementations ho
  rw [ModuleRecord.addService, OrderedMap.get?_alter] at ho
  split at ho
  · rename_i he
    obtain rfl := Option.some.inj ho
    refine ⟨he ▸ hi, fun added ha => ?_⟩
    rcases (OrderedSet.mem_insert _ _ _).mp ha with ha | rfl
    · cases hk : record.services.get? interface with
      | none => simp [hk] at ha
      | some known => exact (h.services interface known hk).2 added (by simpa [hk] using ha)
    · exact hm
  · exact h.services other implementations ho

theorem InRange.provide (h : record.InRange index) {packages : List String} {edge : DependencyEdge}
    (hp : ∀ package ∈ packages, index.pool.Has package) (ht : edge.target < index.modules.size)
    (hd : edge.declaration < record.declarations.length) : (record.provide packages edge).InRange index := by
  refine { h with dependencies := ?_, providers := ?_, provided := ?_ }
  · intro other ho
    rcases List.mem_append.mp ho with ho | ho
    · exact h.dependencies other ho
    · rw [List.mem_singleton.mp ho]
      exact ⟨ht, hd⟩
  · intro package targets hget
    rw [providers_provide] at hget
    split at hget
    · rename_i hmem
      obtain rfl := Option.some.inj hget
      refine ⟨hp package hmem, fun target htarget => ?_⟩
      rcases (OrderedSet.mem_insert _ _ _).mp htarget with hold | rfl
      · cases hk : record.providers.get? package with
        | none => simp [hk] at hold
        | some known => exact (h.providers package known hk).2 target (by simpa [hk] using hold)
      · exact ht
    · exact h.providers package targets hget
  · intro target found hget
    rw [ModuleRecord.provide, OrderedMap.get?_alter] at hget
    split at hget
    · rename_i he
      obtain rfl := Option.some.inj hget
      refine ⟨he ▸ ht, fun package hmem => ?_⟩
      rcases (OrderedSet.mem_insertAll _ _ _).mp hmem with hold | hnew
      · cases hk : record.provided.get? edge.target with
        | none => simp [hk] at hold
        | some known => exact (h.provided edge.target known hk).2 package (by simpa [hk] using hold)
      · exact hp package hnew
    · exact h.provided target found hget

theorem InRange.reExport (h : record.InRange index) {target : ModuleId} (ht : target < index.modules.size) :
    (record.reExport target).InRange index := by
  refine { h with reExports := fun other ho => ?_ }
  rcases (OrderedSet.mem_insert _ _ _).mp ho with ho | rfl
  · exact h.reExports other ho
  · exact ht

end ModuleRecord

/-! ## Changes of an index -/

namespace Index

theorem Grown.refl (index : Index) : index.Grown index :=
  ⟨fun _ h => h, Nat.le_refl _, Nat.le_refl _, fun _ => Nat.le_refl _⟩

theorem Grown.trans {i j k : Index} (h : i.Grown j) (h' : j.Grown k) : i.Grown k :=
  ⟨fun name hn => h'.names name (h.names name hn), Nat.le_trans h.modules h'.modules,
    Nat.le_trans h.classes h'.classes, fun id => Nat.le_trans (h.declarations id) (h'.declarations id)⟩

theorem grown_pooling (index : Index) {change : NamePool → NamePool} (hgrows : Grows change) :
    index.Grown (index.pooling change) :=
  ⟨fun _ h => h.grows hgrows, Nat.le_refl _, Nat.le_refl _, fun _ => Nat.le_refl _⟩

theorem grown_updateModule (index : Index) (id : ModuleId) {change : ModuleRecord → ModuleRecord}
    (hlength : ∀ record, record.declarations.length ≤ (change record).declarations.length) :
    index.Grown (index.updateModule id change) := by
  refine ⟨fun _ h => h, Nat.le_of_eq Array.size_modify.symm, Nat.le_refl _, fun other => ?_⟩
  rw [declarationsOf, declarationsOf, getElem?_updateModule]
  split
  · cases index.modules[other]? with
    | none => exact Nat.le_refl _
    | some record => exact hlength record
  · exact Nat.le_refl _

theorem grown_refer (index : Index) (module : ModuleId) (typeName : String) (n : UInt32) :
    index.Grown (index.refer module typeName n) :=
  (index.grown_pooling (grows_addPackage typeName)).trans (grown_updateModule _ _ fun _ => Nat.le_refl _)

theorem grown_foldl_refer (module : ModuleId) (references : List (String × UInt32)) (index : Index) :
    index.Grown (references.foldl (fun index (name, n) => index.refer module name n) index) := by
  induction references generalizing index with
  | nil => exact .refl index
  | cons first rest ih => exact (grown_refer index module first.1 first.2).trans (ih _)

/-- What gives more room and leaves the tables alone keeps all in range if new records are. -/
theorem InRange.of_grown {i j : Index} (h : i.InRange) (hg : i.Grown j)
    (hmodules : ∀ record ∈ j.modules, record ∈ i.modules ∨ record.InRange j)
    (hclasses : ∀ record ∈ j.classes, record ∈ i.classes ∨ record.InRange j) (hbyName : j.byName = i.byName)
    (haliases : j.aliases = i.aliases) : j.InRange where
  modules record hr := (hmodules record hr).elim (fun hold => (h.modules record hold).grown hg) id
  classes record hr := (hclasses record hr).elim (fun hold => (h.classes record hold).grown hg) id
  byName name id hn := (h.byName name id (hbyName ▸ hn)).imp (hg.names name)
    fun hlt => Nat.lt_of_lt_of_le hlt hg.modules
  aliases name target hn := (h.aliases name target (haliases ▸ hn)).imp (hg.names name) (hg.names target)
  literals := j.pool.pooled

section InRange

variable {index : Index} (h : index.InRange)
include h

theorem InRange.pooling {change : NamePool → NamePool} (hgrows : Grows change) : (index.pooling change).InRange :=
  h.of_grown (index.grown_pooling hgrows) (fun _ hr => Or.inl hr) (fun _ hr => Or.inl hr) rfl rfl

theorem InRange.updateModule (id : ModuleId) (change : ModuleRecord → ModuleRecord)
    (hlength : ∀ record, record.declarations.length ≤ (change record).declarations.length)
    (hchange : ∀ record, index.modules[id]? = some record → record.InRange index → (change record).InRange index) :
    (index.updateModule id change).InRange := by
  have hg := grown_updateModule index id hlength
  refine h.of_grown hg (fun record hr => ?_) (fun _ hr => Or.inl hr) rfl rfl
  obtain ⟨other, ho⟩ := Array.mem_iff_getElem?.mp hr
  rw [getElem?_updateModule] at ho
  split at ho
  · obtain ⟨old, hold, rfl⟩ := Option.map_eq_some_iff.mp ho
    rename_i he
    subst he
    exact Or.inr ((hchange old hold (h.modules old (Array.mem_of_getElem? hold))).grown hg)
  · exact Or.inl (Array.mem_of_getElem? ho)

theorem InRange.refer {typeName : String} (ht : index.pool.Has typeName) (module : ModuleId) (n : UInt32) :
    (index.refer module typeName n).InRange := by
  have hgrows := grows_addPackage typeName
  refine (h.pooling hgrows).updateModule _ _ (fun _ => Nat.le_refl _) fun record _ hr => ?_
  exact hr.refer (ht.grows hgrows) (fun package hp => has_addPackage hp index.pool) n

omit h in
theorem InRange.foldl_refer (module : ModuleId) (references : List (String × UInt32)) {index : Index}
    (h : index.InRange) (hall : ∀ reference ∈ references, index.pool.Has reference.1) :
    (references.foldl (fun index (name, n) => index.refer module name n) index).InRange := by
  induction references generalizing index with
  | nil => exact h
  | cons first rest ih =>
    rw [List.forall_mem_cons] at hall
    have hgrown := grown_refer index module first.1 first.2
    exact ih (h.refer hall.1 module first.2) fun reference hr => hgrown.names _ (hall.2 reference hr)

theorem InRange.pushClass {record : ClassRecord} (hr : record.InRange index) :
    InRange { index with classes := index.classes.push record } := by
  have hg : index.Grown { index with classes := index.classes.push record } :=
    ⟨fun _ hn => hn, Nat.le_refl _, by simp, fun _ => Nat.le_refl _⟩
  refine h.of_grown hg (fun _ hm => Or.inl hm) (fun other ho => ?_) rfl rfl
  rcases Array.mem_push.mp ho with ho | rfl
  · exact Or.inl ho
  · exact Or.inr (hr.grown hg)

theorem InRange.attachClass {record : ClassRecord} (hr : record.InRange index) :
    (index.attachClass record).1.InRange := by
  have hreferences : ∀ reference ∈ record.references, index.pool.Has reference.1 := by
    intro reference href
    rcases List.mem_append.mp href with hm | hm
    · exact hr.memberRefs _ (List.mem_map_of_mem hm)
    · exact hr.otherRefs _ (List.mem_map_of_mem hm)
  have hrefs := h.foldl_refer record.module record.references hreferences
  have hg := grown_foldl_refer record.module record.references index
  have hpushed := hrefs.pushClass (hr.grown hg)
  have hsize : index.classes.size < ((record.references.foldl (fun index (name, n) =>
      index.refer record.module name n) index).classes.push record).size := by
    rw [foldl_refer_eq]
    simp
  rw [Index.attachClass]
  cases hname : record.name with
  | none => exact hpushed
  | some name =>
    -- The class goes to its place before it is filed, so that the number under which it is filed is in range.
    have hgrows := grows_addPackage name
    have hn := (hg.names name (hr.name name hname)).grows hgrows
    exact (hpushed.pooling hgrows).updateModule record.module (·.addClass name (packageOf? name) index.classes.size)
      (fun _ => Nat.le_refl _) fun old _ ho => ho.addClass hn (fun package hp => has_addPackage hp _) hsize

theorem InRange.addModule (name : String) : (index.addModule name).1.InRange := by
  have hpooled := h.pooling (grows_add name)
  rcases index.addModule_cases name with ⟨id, -, e⟩ | ⟨hfresh, e⟩
  · rw [e]
    exact hpooled
  · rw [e]
    have hg : (index.pooling (·.add name)).Grown
        { index with
          pool := index.pool.add name
          modules := index.modules.push { name }
          byName := index.byName.insert name index.modules.size } := by
      refine ⟨fun _ hn => hn, by simp [Index.pooling], Nat.le_refl _, fun id => ?_⟩
      rw [declarationsOf, declarationsOf, Array.getElem?_push]
      split
      · rename_i hid
        simp [Index.pooling, hid]
      · exact Nat.le_refl _
    refine ⟨fun record hr => ?_, fun record hr => (hpooled.classes record hr).grown hg, fun other id hn => ?_,
      fun other target hn => (hpooled.aliases other target hn).imp (hg.names _) (hg.names _), hpooled.literals⟩
    · rcases Array.mem_push.mp hr with hold | rfl
      · exact (hpooled.modules record hold).grown hg
      · exact ModuleRecord.inRange_new (has_add index.pool name)
    · rw [OrderedMap.insert, OrderedMap.get?_alter] at hn
      split at hn
      · rename_i he
        rw [he, ← Option.some.inj hn]
        exact ⟨has_add index.pool name, by simp⟩
      · exact (hpooled.byName other id hn).imp (hg.names _) fun hlt => Nat.lt_of_lt_of_le hlt hg.modules

theorem InRange.addAlias (name target : String) : (index.addAlias name target).InRange := by
  have hpooled := h.pooling ((grows_add name).comp (grows_add target))
  have hg : (index.pooling fun pool => (pool.add name).add target).Grown (index.addAlias name target) :=
    ⟨fun _ hn => hn, Nat.le_refl _, Nat.le_refl _, fun _ => Nat.le_refl _⟩
  refine ⟨fun record hr => (hpooled.modules record hr).grown hg, fun record hr => (hpooled.classes record hr).grown hg,
    hpooled.byName, fun other found hn => ?_, hpooled.literals⟩
  have hget : ((index.aliases.insert name target).get? other) = some found := hn
  rw [OrderedMap.insert, OrderedMap.get?_alter] at hget
  split at hget
  · rename_i he
    rw [he, ← Option.some.inj hget]
    exact ⟨(has_add index.pool name).grows (grows_add target), has_add _ target⟩
  · exact hpooled.aliases other found hget

theorem InRange.addEdge {edge : ModuleId × DependencyEdge} (ht : edge.2.target < index.modules.size)
    (hd : edge.2.declaration < (index.declarationsOf edge.1).length) : (index.addEdge edge).InRange := by
  have hid : edge.1 < index.modules.size := by
    apply Classical.not_not.mp
    intro hle
    rw [declarationsOf_of_size_le (Nat.le_of_not_lt hle)] at hd
    exact Nat.not_lt_zero _ hd
  have hinto : (index.addDependent edge.2.target ⟨edge.1, edge.2.declaration⟩).InRange := by
    refine h.updateModule _ _ (fun _ => Nat.le_refl _) fun record _ hr => { hr with dependents := fun other ho => ?_ }
    rcases List.mem_append.mp ho with ho | ho
    · exact hr.dependents other ho
    · rw [List.mem_singleton.mp ho]
      exact ⟨hid, hd⟩
  have hg : index.Grown (index.addDependent edge.2.target ⟨edge.1, edge.2.declaration⟩) :=
    grown_updateModule index _ fun _ => Nat.le_refl _
  refine hinto.updateModule _ _ (fun _ => Nat.le_refl _) fun record hr hin =>
    { hin with dependencies := fun other ho => ?_ }
  rcases List.mem_append.mp ho with ho | ho
  · exact hin.dependencies other ho
  · rw [List.mem_singleton.mp ho]
    have hlength := Nat.lt_of_lt_of_le hd (hg.declarations edge.1)
    rw [declarationsOf, hr] at hlength
    exact ⟨Nat.lt_of_lt_of_le ht hg.modules, hlength⟩

end InRange

end Index

end ModuleAudit
