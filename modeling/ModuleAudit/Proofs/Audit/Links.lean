import Mathlib.Data.List.Forall2
import ModuleAudit.Proofs.Audit.Classified
import ModuleAudit.Proofs.Audit.Pruning
import ModuleAudit.Proofs.Build.Supertypes

/-! What the links of classes say. The classes of a module, and those of the modules through which a package is visible
in it, decide what a name means there (`Resolution`), and looking the name up finds just that. A link into another
module is therefore a reference to a package that is visible through it, and such a dependency is never reported. -/

namespace ModuleAudit
set_option autoImplicit false

namespace Index

/-- A module has a class of a name. -/
def Defines (index : Index) (module : ModuleId) (name : String) : Prop :=
  ∃ record ∈ index.classes, record.module = module ∧ record.name = some name

/-- The class that a name means in a module is the last of that name in its own module. This is the module itself, or
else the first of those through which the package of the name is visible that has such a class. -/
def Resolves (index : Index) (module : ModuleId) (name : String) (classId : ClassId) : Prop :=
  ∃ found, index.classes[classId]? = some found ∧ found.name = some name ∧
    index.lastClass? found.module name = some found ∧
    (found.module = module ∨
      ¬index.Defines module name ∧ ∃ package, packageOf? name = some package ∧
        ∃ before after, index.through module package = before ++ found.module :: after ∧
          ∀ other ∈ before, ¬index.Defines other name)

/-- Neither the module nor a module through which the package of the name is visible has a class of that name. -/
def Unresolved (index : Index) (module : ModuleId) (name : String) : Prop :=
  ¬index.Defines module name ∧ ∀ package, packageOf? name = some package →
    ∀ provider ∈ index.through module package, ¬index.Defines provider name

/-- What a name means in a module, if anything. -/
def Resolution (index : Index) (module : ModuleId) (name : String) : Option ClassId → Prop
  | some classId => index.Resolves module name classId
  | none => index.Unresolved module name

theorem lastClass?_eq_none_iff {index : Index} {module : ModuleId} {name : String} :
    index.lastClass? module name = none ↔ ¬index.Defines module name := by
  simp only [lastClass?, Defines, List.find?_eq_none, List.mem_reverse, Array.mem_toList_iff, decide_eq_true_eq,
    not_exists, not_and]

theorem Resolves.not_unresolved {index : Index} {module : ModuleId} {name : String} {classId : ClassId}
    (h : index.Resolves module name classId) : ¬index.Unresolved module name := by
  obtain ⟨found, hfound, hname, -, howner⟩ := h
  have hdefines : index.Defines found.module name := ⟨found, Array.mem_of_getElem? hfound, rfl, hname⟩
  rintro ⟨hown, hproviders⟩
  rcases howner with rfl | ⟨-, package, hpackage, before, after, hsplit, -⟩
  · exact hown hdefines
  · refine hproviders package hpackage found.module ?_ hdefines
    rw [hsplit]
    exact List.mem_append_right _ List.mem_cons_self

/-! ## Looking a name up -/

section Lookup

variable {index : Index} (hfiled : ∀ id name,
  (index.ownClass? id name).map (fun classId => index.classes[classId]?) = (index.lastClass? id name).map some)
include hfiled

theorem ownClass?_eq_none_iff {module : ModuleId} {name : String} :
    index.ownClass? module name = none ↔ ¬index.Defines module name := by
  rw [← lastClass?_eq_none_iff, ← Option.map_eq_none_iff, hfiled, Option.map_eq_none_iff]

theorem last_of_ownClass? {module : ModuleId} {name : String} {classId : ClassId}
    (h : index.ownClass? module name = some classId) :
    ∃ found, index.classes[classId]? = some found ∧ found.module = module ∧ found.name = some name ∧
      index.lastClass? module name = some found := by
  have e := hfiled module name
  rw [h] at e
  obtain ⟨found, hlast, hfound⟩ := Option.map_eq_some_iff.mp e.symm
  have hbears := List.find?_some hlast
  rw [decide_eq_true_eq] at hbears
  exact ⟨found, hfound.symm, hbears.1, hbears.2, hlast⟩

theorem resolution_visibleClass? (module : ModuleId) (name : String) :
    index.Resolution module name (index.visibleClass? module name) := by
  rw [visibleClass?]
  cases hown : index.ownClass? module name with
  | some classId =>
    obtain ⟨found, hfound, hmodule, hname, hlast⟩ := last_of_ownClass? hfiled hown
    exact ⟨found, hfound, hname, hmodule ▸ hlast, Or.inl hmodule⟩
  | none =>
    have hnone := (ownClass?_eq_none_iff hfiled).mp hown
    simp only
    cases hfirst : (index.providersOf module name).findSome? fun provider => index.ownClass? provider name with
    | none =>
      refine ⟨hnone, fun package hpackage provider hprovider => (ownClass?_eq_none_iff hfiled).mp ?_⟩
      rw [List.findSome?_eq_none_iff, providersOf_eq, hpackage] at hfirst
      exact hfirst provider hprovider
    | some classId =>
      obtain ⟨before, provider, after, hsplit, hprovider, hbefore⟩ := List.findSome?_eq_some_iff.mp hfirst
      obtain ⟨found, hfound, rfl, hname, hlast⟩ := last_of_ownClass? hfiled hprovider
      refine ⟨found, hfound, hname, hlast, Or.inr ⟨hnone, ?_⟩⟩
      -- a name without a package has no providers to be found in
      cases hpackage : packageOf? name with
      | none =>
        rw [providersOf_eq, hpackage] at hsplit
        exact absurd hsplit.symm (List.append_ne_nil_of_right_ne_nil _ (List.cons_ne_nil _ _))
      | some package =>
        rw [providersOf_eq, hpackage] at hsplit
        refine ⟨package, rfl, before, after, hsplit, fun other hother => ?_⟩
        exact (ownClass?_eq_none_iff hfiled).mp (hbefore other hother)

theorem resolves_of_visibleClass? {module : ModuleId} {name : String} {classId : ClassId}
    (h : index.visibleClass? module name = some classId) : index.Resolves module name classId := by
  have hresolution := resolution_visibleClass? hfiled module name
  rw [h] at hresolution
  exact hresolution

theorem visibleClass?_eq_none_iff {module : ModuleId} {name : String} :
    index.visibleClass? module name = none ↔ index.Unresolved module name := by
  have hresolution := resolution_visibleClass? hfiled module name
  cases hv : index.visibleClass? module name with
  | none =>
    rw [hv] at hresolution
    exact iff_of_true rfl hresolution
  | some classId => exact iff_of_false (by simp) (resolves_of_visibleClass? hfiled hv).not_unresolved

end Lookup

/-! ## In a completed index -/

theorem visibleClass?_completed (index : Index) :
    index.completed.visibleClass? = index.drawn.spreadAll.visibleClass? := by
  funext module name
  have hproviders : index.completed.providersOf module name = index.drawn.spreadAll.providersOf module name := by
    rw [providersOf_eq, providersOf_eq, funext (through_completed index module)]
  rw [visibleClass?, visibleClass?, ownClass?_completed, ownClass?_of_core_eq (core_spreadAll_drawn index), hproviders]

theorem lastClass?_completed (index : Index) (module : ModuleId) (name : String) :
    index.completed.lastClass? module name =
      (index.lastClass? module name).map fun record => (index.drawn.spreadAll.linkClass record).1 := by
  have hclasses : index.completed.classes =
      index.classes.map fun record => (index.drawn.spreadAll.linkClass record).1 := by
    refine Array.ext_getElem? fun classId => ?_
    rw [getElem?_classes_completed, Array.getElem?_map]
  -- linking changes neither the module of a class nor its name
  rw [lastClass?, hclasses, Array.toList_map, ← List.map_reverse, List.find?_map]
  rfl

theorem exists_unlinked {index : Index} {classId : ClassId} {record : ClassRecord}
    (h : index.completed.classes[classId]? = some record) :
    ∃ unlinked ∈ index.classes, record = (index.drawn.spreadAll.linkClass unlinked).1 := by
  rw [getElem?_classes_completed] at h
  obtain ⟨unlinked, hu, rfl⟩ := Option.map_eq_some_iff.mp h
  exact ⟨unlinked, Array.mem_of_getElem? hu, rfl⟩

section Filed

variable {index : Index} (hf : index.Filed)
include hf

theorem Filed.filed_completed (module : ModuleId) (name : String) :
    (index.completed.ownClass? module name).map (fun classId => index.completed.classes[classId]?) =
      (index.completed.lastClass? module name).map some := by
  have e := congrArg (Option.map (Option.map fun record => (index.drawn.spreadAll.linkClass record).1))
    (hf.filed module name)
  simp only [Option.map_map, Function.comp_def, Option.map_some] at e
  simp only [ownClass?_completed, getElem?_classes_completed, lastClass?_completed, Option.map_map, Function.comp_def]
  exact e

theorem Filed.inRange_completed {classId : ClassId} {record : ClassRecord}
    (hr : index.completed.classes[classId]? = some record) : record.module < index.modules.size := by
  obtain ⟨unlinked, hu, rfl⟩ := exists_unlinked hr
  exact hf.inRange unlinked hu

/-- The links of a class are what its names mean. -/
theorem Filed.links_completed {classId : ClassId} {record : ClassRecord}
    (hr : index.completed.classes[classId]? = some record) :
    record.superLink = record.superName.bind (index.completed.visibleClass? record.module) ∧
    record.interfaceLinks.toList =
      (record.interfaceNames.filterMap (index.completed.visibleClass? record.module)).eraseDups := by
  obtain ⟨unlinked, hu, rfl⟩ := exists_unlinked hr
  have hempty := (hf.unlinked unlinked hu).2
  rw [visibleClass?_completed]
  refine ⟨rfl, ?_⟩
  simp only [linkClass, hempty, OrderedSet.toList_insertAll]
  simp

/-- Each link of a class is the meaning of one of its names. -/
theorem Filed.exists_name_of_mem_parents {classId target : ClassId} {record : ClassRecord}
    (hr : index.completed.classes[classId]? = some record) (ht : target ∈ record.parents) :
    ∃ name ∈ record.superNames, index.completed.Resolves record.module name target := by
  obtain ⟨hsuper, hinterfaces⟩ := hf.links_completed hr
  rw [ClassRecord.parents, hsuper, hinterfaces, List.mem_append, Option.mem_toList, List.mem_eraseDups,
    List.mem_filterMap] at ht
  rcases ht with ht | ⟨name, hname, ht⟩
  · obtain ⟨name, hname, hv⟩ := Option.bind_eq_some_iff.mp ht
    exact ⟨name, List.mem_append_left _ (Option.mem_toList.mpr hname),
      resolves_of_visibleClass? hf.filed_completed hv⟩
  · exact ⟨name, List.mem_append_right _ hname, resolves_of_visibleClass? hf.filed_completed ht⟩

end Filed

/-! ## Reported dependencies -/

/-- A dependency through which a package is visible that the module refers to is not reported. -/
theorem Gathered.not_reported_of_through {index : Index} (hg : index.Gathered) {module target : ModuleId}
    (hmodule : module < index.modules.size) (htarget : target < index.modules.size) {package : String}
    (hrefers : package ∈ index.completed.packageRefsOf module)
    (hthrough : target ∈ index.completed.through module package) :
    index.completed.named (module, target) ∉ index.completed.unusedDependencies.findings := by
  obtain ⟨record, hrecord⟩ := exists_record_completed hmodule
  obtain ⟨provider, hprovider⟩ := exists_record_completed htarget
  have hnamed : index.completed.named (module, target) = ⟨record.name, provider.name⟩ := by
    simp only [Index.named, moduleName, hrecord, hprovider, Option.map_some, Option.getD_some]
  rw [packageRefsOf, hrecord] at hrefers
  rw [through, hrecord] at hthrough
  have htrue := ((hg.coherent_completed _ _ hrecord).refersThrough_iff target).mpr ⟨package, hrefers, hthrough⟩
  rw [hnamed, hg.reported_iff hrecord hprovider]
  rintro ⟨declared, -, hunused⟩
  have hfalse := (usageOf_eq_none.mp hunused).1.2
  exact absurd (hfalse.symm.trans htrue) Bool.false_ne_true

theorem Gathered.not_reported_of_linked {index : Index} (hg : index.Gathered) (hf : index.Filed)
    {classId target : ClassId} {record parent : ClassRecord} (hr : index.completed.classes[classId]? = some record)
    (ht : target ∈ record.parents) (hp : index.completed.classes[target]? = some parent)
    (hother : parent.module ≠ record.module) :
    index.completed.named (record.module, parent.module) ∉ index.completed.unusedDependencies.findings := by
  obtain ⟨name, hname, found, hfound, -, -, howner⟩ := hf.exists_name_of_mem_parents hr ht
  obtain rfl : parent = found := Option.some.inj (hp.symm.trans hfound)
  rcases howner with hsame | ⟨-, package, hpackage, before, after, hsplit, -⟩
  · exact absurd hsame hother
  · have hrefers : package ∈ index.completed.packageRefsOf record.module := by
      obtain ⟨unlinked, hu, rfl⟩ := exists_unlinked hr
      exact packageRefsOf_completed index (hg.supers unlinked hu name hname package hpackage)
    refine hg.not_reported_of_through (hf.inRange_completed hr) (hf.inRange_completed hp) hrefers ?_
    rw [hsplit]
    exact List.mem_append_right _ List.mem_cons_self

end Index

namespace Build

/-- The supertype of a class is linked to what its name means in the module, and is not linked exactly if it means
nothing there. Its interfaces are linked to what their names mean, in that order and each class once. No dependency on
the module of a linked class is reported. -/
theorem links_follow_direct_visibility (findings : List Finding) (classId : ClassId) (record : ClassRecord)
    (hrecord : (run findings).index.classes[classId]? = some record) :
    (∀ target, record.superLink = some target →
      ∃ name, record.superName = some name ∧ (run findings).index.Resolves record.module name target) ∧
    (record.superLink = none ↔
      ∀ name, record.superName = some name → (run findings).index.Unresolved record.module name) ∧
    (∃ resolved, List.Forall₂ ((run findings).index.Resolution record.module) record.interfaceNames resolved ∧
      record.interfaceLinks.toList = (resolved.filterMap id).eraseDups) ∧
    ∀ target ∈ record.parents, ∀ parent, (run findings).index.classes[target]? = some parent →
      parent.module ≠ record.module →
        (run findings).index.named (record.module, parent.module) ∉
          (run findings).index.unusedDependencies.findings := by
  have hg := (ofFindings_gathered (fun _ _ => true) findings).1
  have hf := ofFindings_filed findings
  rw [run_index] at hrecord ⊢
  obtain ⟨hsuper, hinterfaces⟩ := hf.links_completed hrecord
  refine ⟨fun target htarget => ?_, ?_,
    ⟨record.interfaceNames.map ((ofFindings findings).index.completed.visibleClass? record.module), ?_, ?_⟩,
    fun target ht parent hp hother => hg.not_reported_of_linked hf hrecord ht hp hother⟩
  · rw [hsuper] at htarget
    obtain ⟨name, hname, hv⟩ := Option.bind_eq_some_iff.mp htarget
    exact ⟨name, hname, Index.resolves_of_visibleClass? hf.filed_completed hv⟩
  · rw [hsuper, Option.bind_eq_none_iff]
    exact forall_congr' fun name => forall_congr' fun _ => Index.visibleClass?_eq_none_iff hf.filed_completed
  · exact List.forall₂_map_right_iff.mpr (List.forall₂_same.mpr fun name _ =>
      Index.resolution_visibleClass? hf.filed_completed record.module name)
  · rw [hinterfaces, List.filterMap_map]
    rfl

/-- A class whose supertype is in a module that its own declares: the link is to that class, and the declaration is
not reported. -/
theorem links_follow_direct_visibility_passedOn :
    ∃ record, (run passedOn).index.classes[1]? = some record ∧ record.module = 1 ∧ record.superLink = some 0 ∧
      (run passedOn).index.Resolves 1 "p/A" 0 ∧
      (run passedOn).index.named (1, 0) ∉ (run passedOn).index.unusedDependencies.findings := by
  have hrecord : ∃ record, (run passedOn).index.classes[1]? = some record ∧ record.module = 1 ∧
      record.superName = some "p/A" ∧ record.superLink = some 0 := by
    rw [run_index, Index.getElem?_classes_completed]
    decide +kernel
  have hparent : ∃ parent, (run passedOn).index.classes[0]? = some parent ∧ parent.module = 0 := by
    rw [run_index, Index.getElem?_classes_completed]
    decide +kernel
  obtain ⟨record, hr, hm, hsuper, hlink⟩ := hrecord
  obtain ⟨parent, hp, hpm⟩ := hparent
  obtain ⟨hresolves, -, -, hreported⟩ := links_follow_direct_visibility passedOn 1 record hr
  refine ⟨record, hr, hm, hlink, ?_, ?_⟩
  · obtain ⟨name, hname, h⟩ := hresolves 0 hlink
    obtain rfl : "p/A" = name := Option.some.inj (hsuper.symm.trans hname)
    rw [← hm]
    exact h
  · have hmember : 0 ∈ record.parents := List.mem_append_left _ (Option.mem_toList.mpr hlink)
    have h := hreported 0 hmember parent hp (by rw [hm, hpm]; decide)
    rwa [hm, hpm] at h

end Build

end ModuleAudit
