import ModuleAudit.Proofs.Build.Filed
import ModuleAudit.Proofs.Build.ReExports

/-! Which class a supertype is linked to when one module alone has a class of its name. The package of the class may
reach a module along a row of declarations that pass it on (`CarriedFrom`), but what a module provides is looked for
among its own classes only. So the name means the class in the module that has it and in the modules that declare that
one and import the package (`Supplied`), and nowhere else. -/

namespace ModuleAudit
set_option autoImplicit false

namespace Index

/-- A module to which a package of `owner` is carried: `owner` itself, and a module that imports and exports it from
one of those. -/
inductive CarriedFrom (index : Index) (owner : ModuleId) (package : String) : ModuleId → Prop
  | own : CarriedFrom index owner package owner
  | passed {source module : ModuleId} {declared : Dependency} (carried : CarriedFrom index owner package source)
      (member : declared ∈ index.declarationsOf module) (leads : index.resolve declared = some source)
      (passes : declared.passesOn package = true) : CarriedFrom index owner package module

/-- A declaration of the module leads to `source` and imports a package. -/
def ImportsFrom (index : Index) (module source : ModuleId) (package : String) : Prop :=
  ∃ declared ∈ index.declarationsOf module, index.resolve declared = some source ∧
    declared.imports.accepts package = true

instance (index : Index) (module source : ModuleId) (package : String) :
    Decidable (index.ImportsFrom module source package) :=
  inferInstanceAs (Decidable (∃ declared ∈ index.declarationsOf module, _ ∧ _))

/-- A module has what `owner` has in a package: it is `owner`, or imports the package from it. -/
def Supplied (index : Index) (owner : ModuleId) (package : String) (module : ModuleId) : Prop :=
  module = owner ∨ index.ImportsFrom module owner package

/-- No other module than `owner` has a class under a name. -/
def OnlyIn (index : Index) (name : String) (owner : ModuleId) : Prop :=
  ∀ other, other ≠ owner → index.ownClass? other name = none

theorem onlyIn_of_lt {index : Index} {name : String} {owner : ModuleId}
    (h : ∀ other < index.modules.size, other ≠ owner → index.ownClass? other name = none) :
    ∀ other, other ≠ owner → index.ownClass? other name = none := by
  intro other hother
  by_cases hlt : other < index.modules.size
  · exact h other hlt hother
  · rw [ownClass?, Array.getElem?_eq_none (Nat.le_of_not_lt hlt)]
    rfl

/-! ## What a name means -/

theorem ownClass?_of_visibleClass? {index : Index} {module : ModuleId} {name : String} {classId : ClassId}
    (h : index.visibleClass? module name = some classId) : ∃ id, index.ownClass? id name = some classId := by
  rw [visibleClass?] at h
  split at h
  · rename_i found hown
    exact ⟨module, hown.trans h⟩
  · obtain ⟨id, -, hid⟩ := List.exists_of_findSome?_eq_some h
    exact ⟨id, hid⟩

/-- Where one module alone has the class, it is visible in that module and through it. -/
theorem visibleClass?_of_onlyIn {index : Index} {name package : String} (hpackage : packageOf? name = some package)
    {owner : ModuleId} {base : ClassId} (hown : index.ownClass? owner name = some base)
    (honly : index.OnlyIn name owner) (module : ModuleId) :
    index.visibleClass? module name = some base ↔ module = owner ∨ owner ∈ index.through module package := by
  have hproviders : index.providersOf module name = index.through module package := by
    rw [providersOf_eq, hpackage]
    rfl
  by_cases hmodule : module = owner
  · rw [visibleClass?, hmodule, hown]
    simp
  · rw [visibleClass?, honly module hmodule, hproviders]
    simp only [hmodule, false_or]
    constructor
    · intro h
      obtain ⟨id, hid, hfound⟩ := List.exists_of_findSome?_eq_some h
      by_cases he : id = owner
      · exact he ▸ hid
      · rw [honly id he] at hfound
        cases hfound
    · -- the other modules that provide the package have no such class and are passed over
      intro h
      generalize index.through module package = providers at h ⊢
      induction providers with
      | nil => cases h
      | cons first rest ih =>
        by_cases he : first = owner
        · rw [List.findSome?_cons, he, hown]
        · rw [List.findSome?_cons, honly first he]
          rcases List.mem_cons.mp h with e | hrest
          · exact absurd e.symm he
          · exact ih hrest

section Filed

variable {index : Index} (h : index.Filed)
include h

theorem Filed.exists_of_ownClass? {id : ModuleId} {name : String} {classId : ClassId}
    (hown : index.ownClass? id name = some classId) :
    ∃ record, index.classes[classId]? = some record ∧ record.module = id ∧ record.name = some name := by
  have hfiled := h.filed id name
  rw [hown] at hfiled
  obtain ⟨record, hlast, hrecord⟩ := Option.map_eq_some_iff.mp hfiled.symm
  have hfound := List.find?_some hlast
  rw [decide_eq_true_eq] at hfound
  exact ⟨record, hrecord.symm, hfound⟩

/-- A class is filed under one name. -/
theorem Filed.eq_of_ownClass? {id other : ModuleId} {name known : String} {classId : ClassId}
    (hid : index.ownClass? id name = some classId) (hother : index.ownClass? other known = some classId) :
    name = known := by
  obtain ⟨record, hr, -, hname⟩ := h.exists_of_ownClass? hid
  obtain ⟨found, hf, -, hknown⟩ := h.exists_of_ownClass? hother
  obtain rfl : record = found := Option.some.inj (hr.symm.trans hf)
  exact Option.some.inj (hname.symm.trans hknown)

end Filed

theorem inheritedRefs_of_parentsOf_eq_nil {index : Index} {classId : ClassId} (h : index.parentsOf classId = []) :
    index.inheritedRefs classId = [] := by
  rw [inheritedRefs, ancestors, h, walk, List.flatMap_nil]

/-! ## In a completed index -/

theorem ownClass?_completed (index : Index) : index.completed.ownClass? = index.ownClass? := by
  funext id name
  have e := map_completed_ground index (f := (·.classes)) (fun _ _ _ _ => rfl) (fun _ => rfl) (fun _ _ _ => rfl) id
  have hview : ∀ i : Index, i.ownClass? id name = (i.modules[id]?.map (·.classes)).bind (·.get? name) := by
    intro i
    rw [ownClass?, Option.bind_map]
    rfl
  rw [hview, hview, e]

theorem supplied_completed (index : Index) : index.completed.Supplied = index.Supplied := by
  funext owner package module
  simp only [Supplied, ImportsFrom, declarationsOf_completed, resolve_completed]

theorem getElem?_classes_completed (index : Index) (classId : ClassId) :
    index.completed.classes[classId]? =
      index.classes[classId]?.map fun record => (index.drawn.spreadAll.linkClass record).1 := by
  have hfinal : index.completed.classes = index.drawn.spreadAll.linkSupertypes.1.classes :=
    classes_inheritAll index.drawn.spreadAll.linkSupertypes.1
  rw [hfinal, getElem?_classes_linkSupertypes, classes_of_core_eq (core_spreadAll_drawn index)]

/-- The packages of a module's own classes are visible through it where a declaration imports them. -/
theorem Gathered.mem_through_iff {index : Index} (hg : index.Gathered) {owner : ModuleId} {package : String}
    (hmember : package ∈ index.packagesOf owner) (module : ModuleId) :
    owner ∈ index.drawn.spreadAll.through module package ↔ index.ImportsFrom module owner package := by
  constructor
  · intro h
    obtain ⟨edge, hedge, rfl, himports, -⟩ := (spreadAll_sound hg.unspread_drawn).1 module owner package h
    obtain ⟨declared, hd, hr⟩ := hg.mem_dependentsOf_drawn.mp hedge
    rw [imports_drawn hd] at himports
    exact ⟨declared, List.mem_of_getElem? hd, hr, himports⟩
  · rintro ⟨declared, hd, hr, himports⟩
    have hsettled := (spreadAll_balanced hg.unspread_drawn).2 owner package (packagesOf_drawn index ▸ hmember)
    exact hg.through_of_settled hsettled hd hr himports

/-- What a name means in a module when one module alone has a class of that name. -/
theorem Gathered.visibleClass?_iff {index : Index} (hg : index.Gathered) (hf : index.Filed) {name package : String}
    (hpackage : packageOf? name = some package) {owner : ModuleId} {base : ClassId}
    (hown : index.ownClass? owner name = some base) (honly : index.OnlyIn name owner) (module : ModuleId) :
    index.drawn.spreadAll.visibleClass? module name = some base ↔ index.Supplied owner package module := by
  have hsame := ownClass?_of_core_eq (core_spreadAll_drawn index)
  have hmember : package ∈ index.packagesOf owner := by
    obtain ⟨record, hr, hm, hn⟩ := hf.exists_of_ownClass? hown
    refine (hf.packages owner package).mpr ⟨record, Array.mem_of_getElem? hr, hm, ?_⟩
    rw [hn]
    exact hpackage
  rw [visibleClass?_of_onlyIn hpackage (hsame ▸ hown) (by rw [OnlyIn, hsame]; exact honly), hg.mem_through_iff hmember]
  rfl

/-- What a class of the completed index is linked to by a name that one module alone has. -/
theorem Gathered.linked_by_name {index : Index} (hg : index.Gathered) (hf : index.Filed) {name package : String}
    (hpackage : packageOf? name = some package) {owner : ModuleId} {base : ClassId}
    (hown : index.ownClass? owner name = some base) (honly : index.OnlyIn name owner) {classId : ClassId}
    {record : ClassRecord} (hr : index.completed.classes[classId]? = some record) :
    (record.superName = some name →
      record.superLink = some base ∧ index.Supplied owner package record.module ∨
        record.superLink = none ∧ ¬index.Supplied owner package record.module) ∧
    (name ∈ record.interfaceNames →
      (base ∈ record.interfaceLinks.toList ↔ index.Supplied owner package record.module)) := by
  rw [getElem?_classes_completed] at hr
  obtain ⟨before, hb, rfl⟩ := Option.map_eq_some_iff.mp hr
  have hmeans := hg.visibleClass?_iff hf hpackage hown honly before.module
  have hsame := ownClass?_of_core_eq (core_spreadAll_drawn index)
  refine ⟨fun hsuper => ?_, fun hinterface => ?_⟩
  · replace hsuper : before.superName = some name := hsuper
    have hlink : (index.drawn.spreadAll.linkClass before).1.superLink =
        index.drawn.spreadAll.visibleClass? before.module name := by
      rw [linkClass, hsuper]
      rfl
    rw [hlink]
    cases hv : index.drawn.spreadAll.visibleClass? before.module name with
    | none =>
      rw [hv] at hmeans
      exact Or.inr ⟨rfl, fun h => absurd (hmeans.mpr h) (by simp)⟩
    | some found =>
      have hfound : found = base := by
        obtain ⟨id, hid⟩ := ownClass?_of_visibleClass? hv
        rw [hsame] at hid
        by_cases he : id = owner
        · rw [he, hown] at hid
          exact (Option.some.inj hid).symm
        · rw [honly id he] at hid
          cases hid
      rw [hv] at hmeans
      exact Or.inl ⟨congrArg some hfound, hmeans.mp (congrArg some hfound)⟩
  · replace hinterface : name ∈ before.interfaceNames := hinterface
    have hlinks : base ∈ (index.drawn.spreadAll.linkClass before).1.interfaceLinks.toList ↔
        ∃ other ∈ before.interfaceNames, index.drawn.spreadAll.visibleClass? before.module other = some base := by
      simp only [linkClass, (hf.unlinked before (Array.mem_of_getElem? hb)).2, OrderedSet.mem_insertAll,
        List.mem_filterMap, List.not_mem_nil, false_or]
    rw [hlinks]
    constructor
    · rintro ⟨other, -, hv⟩
      obtain ⟨id, hid⟩ := ownClass?_of_visibleClass? hv
      rw [hsame] at hid
      rw [hf.eq_of_ownClass? hid hown] at hv
      exact hmeans.mp hv
    · exact fun h => ⟨name, hinterface, hmeans.mpr h⟩

/-- The module of a class that is linked to another refers to what the members of that one mention. -/
theorem Refers.of_linked {index : Index} {findings : List Finding} (h : index.Refers findings) {classId base : ClassId}
    {record : ClassRecord} (hr : index.completed.classes[classId]? = some record)
    (hlinked : base ∈ record.parents) {typeName : String} (ht : typeName ∈ index.completed.memberRefsOf base) :
    typeName ∈ index.completed.classRefsOf record.module := by
  refine (h.completed record.module typeName).mpr (Or.inr ⟨classId, record, hr, rfl, ?_⟩)
  by_cases he : base = classId
  · rw [he, memberRefsOf, hr] at ht
    exact Or.inl (Or.inl ht)
  · refine Or.inr (mem_inheritedRefs.mpr ⟨base, ⟨he, .single ?_⟩, ht⟩)
    rw [Linked, parentsOf, hr]
    exact hlinked

end Index

namespace Build

/-- A class that names a supertype which one module alone has is linked to it exactly in that module and in the modules
that declare it and import the package themselves. Where it is linked, the module refers to what the members of the
supertype mention. -/
theorem supertype_linked_iff_supplied (findings : List Finding) (name package : String)
    (hpackage : packageOf? name = some package) (owner : ModuleId) (base : ClassId)
    (hown : (run findings).index.ownClass? owner name = some base) (honly : (run findings).index.OnlyIn name owner)
    (classId : ClassId) (record : ClassRecord) (hrecord : (run findings).index.classes[classId]? = some record) :
    (record.superName = some name →
      record.superLink = some base ∧ (run findings).index.Supplied owner package record.module ∨
        record.superLink = none ∧ ¬(run findings).index.Supplied owner package record.module) ∧
    (name ∈ record.interfaceNames →
      (base ∈ record.interfaceLinks.toList ↔ (run findings).index.Supplied owner package record.module)) ∧
    (name ∈ record.superNames → (run findings).index.Supplied owner package record.module →
      ∀ typeName ∈ (run findings).index.memberRefsOf base,
        typeName ∈ (run findings).index.classRefsOf record.module ∧
          ∀ mentioned ∈ packageOf? typeName, mentioned ∈ (run findings).index.packageRefsOf record.module) := by
  have hg := (ofFindings_gathered (fun _ _ => true) findings).1
  have hf := ofFindings_filed findings
  have hrefers := ofFindings_refers findings
  rw [run_index] at hown honly hrecord ⊢
  rw [Index.ownClass?_completed] at hown
  rw [Index.OnlyIn, Index.ownClass?_completed] at honly
  rw [Index.supplied_completed]
  obtain ⟨hsuper, hinterfaces⟩ := hg.linked_by_name hf hpackage hown honly hrecord
  refine ⟨hsuper, hinterfaces, fun hnames hsupplied typeName ht => ?_⟩
  have hlinked : base ∈ record.parents := by
    rw [ClassRecord.superNames, List.mem_append, Option.mem_toList] at hnames
    rw [ClassRecord.parents, List.mem_append, Option.mem_toList]
    rcases hnames with hn | hn
    · rcases hsuper hn with ⟨hlink, -⟩ | ⟨-, hnot⟩
      · exact Or.inl hlink
      · exact absurd hsupplied hnot
    · exact Or.inr ((hinterfaces hn).mpr hsupplied)
  have href := hrefers.of_linked hrecord hlinked ht
  refine ⟨href, fun mentioned hmentioned => ?_⟩
  exact (hrefers.tallied.completed.mem_packageRefsOf _ _).mpr ⟨typeName, href, hmentioned⟩

/-- The file of a class `p/A` with a method that returns an `x/T`. -/
def returningClass : Bytes :=
  [0xCA, 0xFE, 0xBA, 0xBE, 0, 0, 0, 52,
    -- The constants: the name of the class, the class, and the name and the type of the method.
    0, 5, 1, 0, 3, 0x70, 0x2F, 0x41, 7, 0, 1, 1, 0, 1, 0x6D, 1, 0, 7, 0x28, 0x29, 0x4C, 0x78, 0x2F, 0x54, 0x3B,
    0, 1, 0, 2, 0, 0, 0, 0, 0, 0,
    0, 1, 0, 1, 0, 3, 0, 4, 0, 0,
    0, 0]

/-- The file of a class `q/C` that extends `p/A`. -/
def extendingClass : Bytes :=
  [0xCA, 0xFE, 0xBA, 0xBE, 0, 0, 0, 52,
    -- The constants: for each of the two classes its name as text and the class of that name.
    0, 5, 1, 0, 3, 0x71, 0x2F, 0x43, 7, 0, 1, 1, 0, 3, 0x70, 0x2F, 0x41, 7, 0, 3,
    0, 1, 0, 2, 0, 4, 0, 0, 0, 0, 0, 0, 0, 0]

/-- A module, one that declares it and passes its package on, and one that declares the second only. Both of these
have a class that extends the class of the first. -/
def passedOn : List Finding :=
  let holding (location : String) (path : String) (contents : Bytes) : List ResourceRoot :=
    [.listed { location, items := [.entry path (.ok contents)] }]
  [{ name := "base", outcome := .ok (some (.module "base" none (holding "b.jar" "p/A.class" returningClass) [])) },
   { name := "middle"
     outcome := .ok (some (.module "middle" none (holding "m.jar" "q/C.class" extendingClass)
       [{ Dependency.onModule "base" with exports := .acceptAll }])) },
   { name := "top"
     outcome := .ok (some (.module "top" none (holding "t.jar" "q/C.class" extendingClass)
       [Dependency.onModule "middle"])) }]

theorem onlyIn_passedOn : (run passedOn).index.OnlyIn "p/A" 0 := by
  rw [run_index, Index.OnlyIn, Index.ownClass?_completed]
  refine Index.onlyIn_of_lt ?_
  decide +kernel

/-- In the module between, which declares the owner, the class is linked and the module refers to what it inherits. -/
theorem supertype_linked_iff_supplied_passedOn :
    ∃ record, (run passedOn).index.classes[1]? = some record ∧ record.module = 1 ∧ record.superLink = some 0 ∧
      "x/T" ∈ (run passedOn).index.memberRefsOf 0 ∧ "x/T" ∈ (run passedOn).index.classRefsOf 1 := by
  have hown : (run passedOn).index.ownClass? 0 "p/A" = some 0 := by
    rw [run_index, Index.ownClass?_completed]
    decide +kernel
  have hsupplied : (run passedOn).index.Supplied 0 "p" 1 := by
    rw [run_index, Index.supplied_completed]
    exact Or.inr (by decide +kernel)
  have hmember : "x/T" ∈ (run passedOn).index.memberRefsOf 0 := by
    rw [run_index, Index.memberRefsOf, Index.getElem?_classes_completed]
    decide +kernel
  have hrecord : ∃ record, (run passedOn).index.classes[1]? = some record ∧ record.module = 1 ∧
      record.superName = some "p/A" := by
    rw [run_index, Index.getElem?_classes_completed]
    decide +kernel
  obtain ⟨record, hr, hm, hsuper⟩ := hrecord
  obtain ⟨hlink, -, hrefs⟩ := supertype_linked_iff_supplied passedOn "p/A" "p" (by decide +kernel) 0 0 hown
    onlyIn_passedOn 1 record hr
  rw [hm] at hlink hrefs
  refine ⟨record, hr, hm, ?_, hmember, (hrefs ?_ hsupplied "x/T" hmember).1⟩
  · rcases hlink hsuper with ⟨hbase, -⟩ | ⟨-, hnot⟩
    · exact hbase
    · exact absurd hsupplied hnot
  · rw [ClassRecord.superNames, hsuper]
    exact List.mem_cons_self

/-- The package is carried on to the last module, and yet its class is not linked and the module does not refer to
what the class inherits. -/
theorem carried_supertype_unlinked :
    (run passedOn).index.ownClass? 0 "p/A" = some 0 ∧ (run passedOn).index.OnlyIn "p/A" 0 ∧
    (∃ source, (run passedOn).index.CarriedFrom 0 "p" source ∧ (run passedOn).index.ImportsFrom 2 source "p") ∧
    (∃ record, (run passedOn).index.classes[2]? = some record ∧ record.module = 2 ∧
      record.superName = some "p/A" ∧ record.superLink = none) ∧
    "x/T" ∈ (run passedOn).index.memberRefsOf 0 ∧ "x/T" ∉ (run passedOn).index.classRefsOf 2 := by
  have hcarried : (run passedOn).index.CarriedFrom 0 "p" 1 := by
    have hpasses : ∃ declared ∈ (ofFindings passedOn).index.declarationsOf 1,
        (ofFindings passedOn).index.resolve declared = some 0 ∧ declared.passesOn "p" = true := by decide +kernel
    obtain ⟨declared, hd, hr, hp⟩ := hpasses
    rw [run_index]
    refine .passed .own ?_ ?_ hp
    · rw [Index.declarationsOf_completed]
      exact hd
    · rw [Index.resolve_completed]
      exact hr
  refine ⟨?_, onlyIn_passedOn, ⟨1, hcarried, ?_⟩, ?_, ?_, fun href => ?_⟩
  · rw [run_index, Index.ownClass?_completed]
    decide +kernel
  · have himports : (ofFindings passedOn).index.ImportsFrom 2 1 "p" := by decide +kernel
    rw [run_index, Index.ImportsFrom, Index.declarationsOf_completed, Index.resolve_completed]
    exact himports
  · rw [run_index, Index.getElem?_classes_completed]
    decide +kernel
  · rw [run_index, Index.memberRefsOf, Index.getElem?_classes_completed]
    decide +kernel
  · -- before classes inherit, the module does not refer to the type, and its class has nothing to inherit
    have howned : ∀ record ∈ (ofFindings passedOn).index.drawn.spreadAll.linkSupertypes.1.classes,
        record.module < (ofFindings passedOn).index.drawn.spreadAll.linkSupertypes.1.modules.size := by
      decide +kernel
    have hparents : ∀ record ∈ (ofFindings passedOn).index.drawn.spreadAll.linkSupertypes.1.classes,
        record.module = 2 → record.parents = [] := by
      decide +kernel
    rw [run_index, Index.completed, Index.mem_classRefsOf_inheritAll howned] at href
    rcases href with href | ⟨classId, record, hr, hm, ht⟩
    · exact absurd href (by decide +kernel)
    · have hnone := hparents record (Array.mem_of_getElem? hr) hm
      rw [Index.inheritedRefs_of_parentsOf_eq_nil] at ht
      · cases ht
      · rw [Index.parentsOf, hr]
        exact hnone

end Build

end ModuleAudit
