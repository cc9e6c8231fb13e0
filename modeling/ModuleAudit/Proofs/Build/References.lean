import ModuleAudit.Proofs.Build.Ancestors
import ModuleAudit.Proofs.Build.Tallied

/-! What modules refer to. The references of a module are its main class, its registered services, what its
classes mention and what they inherit, and nothing else (`run_refers_exactly`): each change of adding contents
adds the types it mentions (`mem_classRefsOf_apply`), and the later stages add what is inherited
(`mem_classRefsOf_inheritAll`). -/

namespace ModuleAudit
set_option autoImplicit false

/-! ## What contents mention -/

/-- The types that a registration mentions, none if it lists no implementation. -/
def ServiceFile.mentioned (service : ServiceFile) : List String :=
  if service.implementations.isEmpty then []
  else slashed service.interface :: service.implementations.map slashed

/-- The types that an entry mentions as a service registration. -/
def ResourceItem.registered : ResourceItem → List String
  | .entry name (.ok contents) =>
    if Build.endsWith Build.classSuffix name then []
    else ((ServiceFile.parse? name (Utf8.lossy contents)).map ServiceFile.mentioned).getD []
  | _ => []

/-- The types that the registrations of a resource root mention. -/
def ResourceRoot.registered : ResourceRoot → List String
  | .listed listing => listing.items.flatMap ResourceItem.registered
  | .unlisted _ => []

/-- The main class of a module and the types that its registrations mention. -/
def namedTypes (mainClass : Option String) (roots : List ResourceRoot) : List String :=
  mainClass.toList.map slashed ++ roots.flatMap ResourceRoot.registered

/-- What a finding names for the module `name`. -/
def Finding.namedFor (finding : Finding) (name : String) : List String :=
  match finding.outcome with
  | .ok (some (.module known mainClass roots _)) => if known = name then namedTypes mainClass roots else []
  | _ => []

theorem mem_namedFor {finding : Finding} {name : String} {mainClass : Option String} {roots : List ResourceRoot}
    {dependencies : List Dependency}
    (h : finding.outcome = .ok (some (.module name mainClass roots dependencies))) {other typeName : String} :
    typeName ∈ finding.namedFor other ↔ name = other ∧ typeName ∈ namedTypes mainClass roots := by
  simp only [Finding.namedFor, h]
  by_cases hname : name = other
  · simp [hname]
  · simp [hname]

/-- The class mentions a type. -/
def ClassRecord.Mentions (record : ClassRecord) (typeName : String) : Prop :=
  typeName ∈ record.memberRefs.keys ∨ typeName ∈ record.otherRefs.keys

theorem ClassRecord.mentions_iff (record : ClassRecord) (typeName : String) :
    record.Mentions typeName ↔ ∃ reference ∈ record.references, typeName = reference.1 := by
  simp only [Mentions, references, OrderedMap.keys, List.mem_append, List.mem_map, or_and_right, exists_or,
    eq_comm]

namespace Change

/-- The type that a change refers to by itself. -/
def referred : Change → List String
  | .refer typeName _ => [typeName]
  | _ => []

theorem mem_referred_service (service : ServiceFile) (typeName : String) :
    typeName ∈ service.changes.flatMap referred ↔ typeName ∈ service.mentioned := by
  obtain ⟨interface, implementations⟩ := service
  have hall : (ServiceFile.changes ⟨interface, implementations⟩).flatMap referred =
      implementations.flatMap fun implementation => [slashed interface, slashed implementation] := by
    simp only [ServiceFile.changes, List.flatMap_cons, referred, List.nil_append, List.flatMap_assoc]
    rfl
  rw [hall, ServiceFile.mentioned]
  cases implementations with
  | nil => simp
  | cons first rest =>
    simp only [List.mem_flatMap, List.mem_cons, List.not_mem_nil, or_false, List.isEmpty_cons, Bool.false_eq_true,
      if_false, List.mem_map]
    constructor
    · rintro ⟨implementation, hi, rfl | rfl⟩
      · exact Or.inl rfl
      · exact Or.inr ⟨implementation, hi, rfl⟩
    · rintro (rfl | ⟨implementation, hi, rfl⟩)
      · exact ⟨first, Or.inl rfl, Or.inl rfl⟩
      · exact ⟨implementation, hi, Or.inr rfl⟩

theorem mem_referred_item (module : ModuleId) (item : ResourceItem) (typeName : String) :
    typeName ∈ (item.changes module).flatMap referred ↔ typeName ∈ item.registered := by
  cases item with
  | notice message => rfl
  | entry name contents =>
    cases contents with
    | error reason => rfl
    | ok contents =>
      rw [ResourceItem.changes, ResourceItem.registered]
      split
      · simp [List.flatMap_map, referred]
      · cases hs : ServiceFile.parse? name (Utf8.lossy contents) with
        | none => rfl
        | some service => exact mem_referred_service service typeName

theorem mem_referred_contents (module : ModuleId) (mainClass : Option String) (roots : List ResourceRoot)
    (dependencies : List Dependency) (typeName : String) :
    typeName ∈ (contentChanges module mainClass roots dependencies).flatMap referred ↔
      typeName ∈ namedTypes mainClass roots := by
  have hmain : (mainClass.toList.flatMap fun name => [Change.main name, .refer (slashed name) 1]).flatMap
      referred = mainClass.toList.map slashed := by
    cases mainClass <;> rfl
  have hdeclared : (dependencies.map Change.declare).flatMap referred = [] := by
    simp [referred]
  have hroot : ∀ root : ResourceRoot,
      typeName ∈ (root.changes module).flatMap referred ↔ typeName ∈ root.registered := by
    intro root
    cases root with
    | unlisted location => rfl
    | listed listing =>
      simp only [ResourceRoot.changes, ResourceRoot.registered, List.flatMap_assoc]
      rw [List.mem_flatMap, List.mem_flatMap]
      exact exists_congr fun item => and_congr_right fun _ => mem_referred_item module item typeName
  rw [contentChanges, List.flatMap_append, List.flatMap_append, hmain, hdeclared, List.append_nil,
    List.flatMap_assoc, namedTypes, List.mem_append, List.mem_append, List.mem_flatMap, List.mem_flatMap]
  exact or_congr Iff.rfl (exists_congr fun root => and_congr_right fun _ => hroot root)

end Change

/-! ## References to types -/

namespace Index

/-- The types that a module refers to. -/
def classRefsOf (index : Index) (id : ModuleId) : List String :=
  (index.modules[id]?.map (·.classRefs.keys)).getD []

theorem keys_classCountsOf (index : Index) (id : ModuleId) :
    (index.classCountsOf id).keys = index.classRefsOf id := by
  rw [classCountsOf, classRefsOf]
  cases index.modules[id]? <;> rfl

theorem AllTallied.mem_packageRefsOf {index : Index} (h : index.AllTallied) (id : ModuleId) (package : String) :
    package ∈ index.packageRefsOf id ↔ ∃ typeName ∈ index.classRefsOf id, packageOf? typeName = some package := by
  have hkeys : (index.packageCountsOf id).keys = index.packageRefsOf id := by
    rw [packageCountsOf, packageRefsOf]
    cases index.modules[id]? <;> rfl
  rw [← hkeys, (h.tallied id).keys, keys_classCountsOf]

theorem mem_classRefs_refer (record : ModuleRecord) (typeName : String) (n : UInt32) (other : String) :
    other ∈ (record.refer typeName (packageOf? typeName) n).classRefs.keys ↔
      other ∈ record.classRefs.keys ∨ other = typeName :=
  Counts.mem_keys_add record.classRefs typeName n other

theorem mem_classRefsOf_apply {index : Index} {module : ModuleId} (hlt : module < index.modules.size)
    {change : Change} (howned : ∀ record ∈ change.attached, record.module = module) (id : ModuleId)
    (typeName : String) :
    typeName ∈ (change.apply module index).classRefsOf id ↔ typeName ∈ index.classRefsOf id ∨
      id = module ∧ (typeName ∈ change.referred ∨ ∃ record ∈ change.attached, record.Mentions typeName) := by
  have hkept : ∀ j : Index, j.modules[id]?.map (·.classRefs.keys) = index.modules[id]?.map (·.classRefs.keys) →
      change.referred = [] → change.attached = [] → (typeName ∈ j.classRefsOf id ↔
        typeName ∈ index.classRefsOf id ∨
          id = module ∧ (typeName ∈ change.referred ∨ ∃ record ∈ change.attached, record.Mentions typeName)) := by
    intro j hj hreferred hattached
    simp [classRefsOf, hj, hreferred, hattached]
  cases change with
  | pool change => exact hkept _ rfl rfl rfl
  | refer name n =>
    refine (mem_refs_refer (f := (·.classRefs.keys)) mem_classRefs_refer hlt name n id typeName).trans ?_
    simp [classRefsOf, Change.referred, Change.attached]
  | attach record =>
    have hmodule : record.module = module := howned record List.mem_cons_self
    refine (mem_refs_attachClass (f := (·.classRefs.keys)) mem_classRefs_refer (fun _ _ _ _ => rfl)
      (hmodule.symm ▸ hlt) id typeName).trans ?_
    simp [classRefsOf, Change.referred, Change.attached, record.mentions_iff, hmodule]
  | main name => exact hkept _ (map_setMainClass (fun _ _ => rfl) _ _ _ id) rfl rfl
  | service interface implementation => exact hkept _ (map_addService (fun _ _ _ => rfl) _ _ _ _ id) rfl rfl
  | declare dependency => exact hkept _ (map_declare (fun _ _ => rfl) _ _ _ id) rfl rfl

theorem mem_classRefsOf_foldl_apply {module : ModuleId} {name : String} (changes : List Change) {index : Index}
    (hname : index.nameOf? module = some name)
    (howned : ∀ record ∈ changes.flatMap Change.attached, record.module = module) (id : ModuleId)
    (typeName : String) :
    typeName ∈ (changes.foldl (Change.apply module) index).classRefsOf id ↔ typeName ∈ index.classRefsOf id ∨
      id = module ∧ (typeName ∈ changes.flatMap Change.referred ∨
        ∃ record ∈ changes.flatMap Change.attached, record.Mentions typeName) := by
  induction changes generalizing index with
  | nil => simp
  | cons change rest ih =>
    simp only [List.flatMap_cons, List.mem_append] at howned ⊢
    have hname' : (change.apply module index).nameOf? module = some name := by
      rw [Change.nameOf?_apply, hname]
    rw [List.foldl_cons, ih hname' fun record hr => howned record (Or.inr hr),
      mem_classRefsOf_apply (lt_size_of_nameOf? hname) (fun record hr => howned record (Or.inl hr)), or_assoc,
      ← and_or_left]
    refine or_congr Iff.rfl (and_congr_right fun _ => ?_)
    simp only [or_and_right, exists_or]
    exact or_or_or_comm

/-! ## The index of findings -/

/-- The references in an index are those of the findings that were added to it. -/
structure Refers (index : Index) (findings : List Finding) : Prop where
  known : ∀ finding ∈ findings, ∀ name, ∀ typeName ∈ finding.namedFor name, ∃ id, index.nameOf? id = some name
  owned : ∀ record ∈ index.classes, record.module < index.modules.size
  refs : ∀ id typeName, typeName ∈ index.classRefsOf id ↔
    (∃ name, index.nameOf? id = some name ∧ ∃ finding ∈ findings, typeName ∈ finding.namedFor name) ∨
      ∃ record ∈ index.classes, record.module = id ∧ record.Mentions typeName
  tallied : index.AllTallied

section Refers

variable {index : Index} {findings : List Finding} (h : index.Refers findings)
include h

/-- A finding that names nothing and leaves records and classes alone adds nothing. -/
theorem Refers.silent {j : Index} {finding : Finding} (hnone : ∀ name, finding.namedFor name = [])
    (hmodules : j.modules = index.modules) (hclasses : j.classes = index.classes) :
    j.Refers (findings ++ [finding]) where
  known other ho name typeName ht := by
    rw [List.mem_append, List.mem_singleton] at ho
    simp only [nameOf?, hmodules]
    rcases ho with ho | rfl
    · exact h.known other ho name typeName ht
    · rw [hnone] at ht
      exact absurd ht List.not_mem_nil
  owned record hr := by
    rw [hclasses] at hr
    rw [hmodules]
    exact h.owned record hr
  refs id typeName := by
    have hold := h.refs id typeName
    simp only [classRefsOf, nameOf?, hmodules, hclasses, List.mem_append, List.mem_singleton, or_and_right,
      exists_or, exists_eq_left, hnone, List.not_mem_nil, or_false] at hold ⊢
    exact hold
  tallied id record hr := by
    rw [hmodules] at hr
    exact h.tallied id record hr

theorem Refers.addModule (hg : index.Gathered) (name : String) : (index.addModule name).1.Refers findings := by
  have htallied := h.tallied.addModule name
  simp only [Index.addModule, pooling] at htallied ⊢
  cases hn : index.byName.get? name with
  | some id => exact ⟨h.known, h.owned, h.refs, h.tallied⟩
  | none =>
    have hunnamed : ∀ id, index.nameOf? id ≠ some name := by
      intro id hid
      rw [(hg.named name id).mpr hid] at hn
      cases hn
    rw [hn] at htallied
    refine ⟨?_, ?_, ?_, htallied⟩
    · intro finding hf other typeName ht
      obtain ⟨id, hid⟩ := h.known finding hf other typeName ht
      refine ⟨id, ?_⟩
      simp only [nameOf?, Array.getElem?_push, Nat.ne_of_lt (lt_size_of_nameOf? hid), if_false]
      exact hid
    · intro record hr
      rw [Array.size_push]
      exact Nat.lt_succ_of_lt (h.owned record hr)
    · intro id typeName
      simp only [classRefsOf, nameOf?, Array.getElem?_push]
      by_cases hid : id = index.modules.size
      · -- The new module has no references yet, and none are due to its name or its number.
        simp only [hid, if_true, Option.map_some, Option.getD_some, Option.some.injEq]
        refine iff_of_false List.not_mem_nil ?_
        rintro (⟨other, rfl, finding, hf, ht⟩ | ⟨record, hr, hm, -⟩)
        · obtain ⟨known, hk⟩ := h.known finding hf name typeName ht
          exact hunnamed known hk
        · exact absurd hm (Nat.ne_of_lt (h.owned record hr))
      · simp only [hid, if_false]
        exact h.refs id typeName

theorem Refers.contents (hg : index.Gathered) {module : ModuleId} {name : String}
    (hname : index.nameOf? module = some name) {finding : Finding} {mainClass : Option String}
    {roots : List ResourceRoot} {dependencies : List Dependency}
    (hf : finding.outcome = .ok (some (.module name mainClass roots dependencies))) :
    ((contentChanges module mainClass roots dependencies).foldl (Change.apply module) index).Refers
      (findings ++ [finding]) where
  known other ho known typeName ht := by
    simp only [Change.nameOf?_foldl_apply]
    rcases List.mem_append.mp ho with ho | ho
    · exact h.known other ho known typeName ht
    · rw [List.mem_singleton.mp ho, mem_namedFor hf] at ht
      exact ⟨module, ht.1 ▸ hname⟩
  owned record hr := by
    rcases (Change.mem_classes_foldl_apply module _ index record).mp hr with hr | hr
    · exact Change.lt_size_foldl_apply module _ (h.owned record hr)
    · rw [module_of_attached hr]
      exact Change.lt_size_foldl_apply module _ (lt_size_of_nameOf? hname)
  refs id typeName := by
    -- the name is that of `module` alone, and so are the classes that came with the contents
    have hnew : (∃ known, index.nameOf? id = some known ∧ typeName ∈ finding.namedFor known) ↔
        id = module ∧ typeName ∈ namedTypes mainClass roots := by
      simp only [mem_namedFor hf]
      constructor
      · rintro ⟨known, hknown, rfl, ht⟩
        exact ⟨hg.eq_of_nameOf? hknown hname, ht⟩
      · rintro ⟨rfl, ht⟩
        exact ⟨name, hname, rfl, ht⟩
    have hattached : (∃ record ∈ (contentChanges module mainClass roots dependencies).flatMap Change.attached,
        record.module = id ∧ record.Mentions typeName) ↔ id = module ∧
          ∃ record ∈ (contentChanges module mainClass roots dependencies).flatMap Change.attached,
            record.Mentions typeName := by
      constructor
      · rintro ⟨record, hr, rfl, hm⟩
        exact ⟨module_of_attached hr, record, hr, hm⟩
      · rintro ⟨rfl, record, hr, hm⟩
        exact ⟨record, hr, module_of_attached hr, hm⟩
    rw [mem_classRefsOf_foldl_apply _ hname fun record hr => module_of_attached hr,
      Change.mem_referred_contents, and_or_left, ← hnew, ← hattached, h.refs id typeName]
    simp only [Change.nameOf?_foldl_apply, Change.mem_classes_foldl_apply, List.mem_append, List.mem_singleton,
      or_and_right, exists_or, exists_eq_left, and_or_left]
    exact or_or_or_comm
  tallied := h.tallied.foldl_apply module _

end Refers

/-! ## What is inherited -/

theorem inheritedRefs_congr {i j : Index} (h : i.classes = j.classes) : i.inheritedRefs = j.inheritedRefs := by
  have hparents : i.parentsOf = j.parentsOf := by
    funext id
    rw [parentsOf, h]
    rfl
  have hmembers : i.memberRefsOf = j.memberRefsOf := by
    funext id
    rw [memberRefsOf, h]
    rfl
  funext id
  rw [inheritedRefs, inheritedRefs, ancestors, ancestors, hparents, hmembers, h]

theorem classes_inheritAll (index : Index) : index.inheritAll.classes = index.classes :=
  inheritAll_induct (P := fun i => i.classes = index.classes) rfl fun _ _ _ _ h => h

theorem mem_classRefsOf_inheritClass {index : Index} {classId : ClassId}
    (howned : ∀ record ∈ index.classes, record.module < index.modules.size) (id : ModuleId) (typeName : String) :
    typeName ∈ (index.inheritClass classId).classRefsOf id ↔ typeName ∈ index.classRefsOf id ∨
      ∃ record, index.classes[classId]? = some record ∧ record.module = id ∧
        typeName ∈ index.inheritedRefs classId := by
  rw [inheritClass]
  cases hr : index.classes[classId]? with
  | none => simp
  | some record =>
    have hlt := howned record (Array.mem_of_getElem? hr)
    have hfold := mem_refs_foldl_refer (f := (·.classRefs.keys)) mem_classRefs_refer
      ((index.inheritedRefs classId).map (·, 1)) hlt id typeName
    rw [List.foldl_map] at hfold
    refine hfold.trans ?_
    simp [classRefsOf, eq_comm]

theorem mem_classRefsOf_inheritAll {index : Index}
    (howned : ∀ record ∈ index.classes, record.module < index.modules.size) (id : ModuleId) (typeName : String) :
    typeName ∈ index.inheritAll.classRefsOf id ↔ typeName ∈ index.classRefsOf id ∨
      ∃ classId record, index.classes[classId]? = some record ∧ record.module = id ∧
        typeName ∈ index.inheritedRefs classId := by
  -- The classes stay as they are, so that what is inherited does not change on the way.
  have hpassed := foldl_passed (l := List.range index.classes.size) (f := inheritClass) (b := index)
    (P := fun done i => i.classes = index.classes ∧ i.modules.size = index.modules.size ∧
      (typeName ∈ i.classRefsOf id ↔ typeName ∈ index.classRefsOf id ∨
        ∃ classId ∈ done, ∃ record, index.classes[classId]? = some record ∧ record.module = id ∧
          typeName ∈ index.inheritedRefs classId)) ⟨rfl, rfl, by simp⟩ ?_
  · rw [inheritAll, hpassed.2.2]
    refine or_congr Iff.rfl (exists_congr fun classId => ?_)
    constructor
    · rintro ⟨-, hrecord⟩
      exact hrecord
    · rintro ⟨record, hr, hrest⟩
      exact ⟨List.mem_range.mpr (Array.getElem?_eq_some_iff.mp hr).1, record, hr, hrest⟩
  · rintro done classId rest i - ⟨hclasses, hsize, hrefs⟩
    obtain ⟨module, names, e⟩ := inheritClass_eq i classId
    refine ⟨?_, ?_, ?_⟩
    · rw [e, foldl_refer_eq]
      exact hclasses
    · rw [e, size_foldl_refer]
      exact hsize
    · have howned' : ∀ record ∈ i.classes, record.module < i.modules.size := by
        rw [hclasses, hsize]
        exact howned
      rw [mem_classRefsOf_inheritClass howned', hrefs, hclasses, inheritedRefs_congr hclasses, or_assoc]
      simp only [List.mem_append, List.mem_singleton, or_and_right, exists_or, exists_eq_left]

theorem getElem?_classes_linkSupertypes (index : Index) (classId : ClassId) :
    index.linkSupertypes.1.classes[classId]? =
      index.classes[classId]?.map fun record => (index.linkClass record).1 := by
  simp only [linkSupertypes, Array.map_map, Array.getElem?_map]
  rfl

theorem exists_linked_iff {index : Index} {P : ClassRecord → Prop}
    (hP : ∀ record, P (index.linkClass record).1 ↔ P record) :
    (∃ (classId : ClassId) (record : ClassRecord),
      index.linkSupertypes.1.classes[classId]? = some record ∧ P record) ↔
      ∃ record ∈ index.classes, P record := by
  simp only [getElem?_classes_linkSupertypes, Option.map_eq_some_iff, Array.mem_iff_getElem?]
  constructor
  · rintro ⟨classId, _, ⟨record, hr, rfl⟩, h⟩
    exact ⟨record, ⟨classId, hr⟩, (hP record).mp h⟩
  · rintro ⟨record, ⟨classId, hr⟩, h⟩
    exact ⟨classId, _, ⟨record, hr, rfl⟩, (hP record).mpr h⟩

/-- Completing an index adds what classes inherit to what they mention. -/
theorem Refers.completed {index : Index} {findings : List Finding} (h : index.Refers findings) (id : ModuleId)
    (typeName : String) : typeName ∈ index.completed.classRefsOf id ↔
      (∃ name, index.completed.nameOf? id = some name ∧ ∃ finding ∈ findings, typeName ∈ finding.namedFor name) ∨
        ∃ classId record, index.completed.classes[classId]? = some record ∧ record.module = id ∧
          (record.Mentions typeName ∨ typeName ∈ index.completed.inheritedRefs classId) := by
  have hcore := core_spreadAll_drawn index
  have hclasses : index.drawn.spreadAll.classes = index.classes := classes_of_core_eq hcore
  have hrefs : index.drawn.spreadAll.linkSupertypes.1.classRefsOf id = index.classRefsOf id :=
    congrArg (·.getD []) (map_of_core_eq (f := (·.classRefs.keys)) (fun _ => rfl) hcore id)
  have hfinal : index.completed.classes = index.drawn.spreadAll.linkSupertypes.1.classes :=
    classes_inheritAll index.drawn.spreadAll.linkSupertypes.1
  have howned : ∀ record ∈ index.drawn.spreadAll.linkSupertypes.1.classes,
      record.module < index.drawn.spreadAll.linkSupertypes.1.modules.size := by
    intro record hr
    obtain ⟨classId, hc⟩ := Array.mem_iff_getElem?.mp hr
    rw [getElem?_classes_linkSupertypes, Option.map_eq_some_iff] at hc
    obtain ⟨before, hb, rfl⟩ := hc
    rw [hclasses] at hb
    exact (size_of_core_eq hcore).symm ▸ h.owned before (Array.mem_of_getElem? hb)
  have hmentioned : (∃ record ∈ index.classes, record.module = id ∧ record.Mentions typeName) ↔
      ∃ (classId : ClassId) (record : ClassRecord),
        index.drawn.spreadAll.linkSupertypes.1.classes[classId]? = some record ∧ record.module = id ∧
          record.Mentions typeName := by
    rw [← hclasses]
    exact (exists_linked_iff fun _ => Iff.rfl).symm
  rw [Index.completed, mem_classRefsOf_inheritAll howned, hrefs, h.refs, hmentioned, or_assoc, ← Index.completed,
    nameOf?_completed, hfinal, inheritedRefs_congr hfinal]
  simp only [and_or_left, exists_or]

end Index

namespace Build

theorem ofFindings_refers (findings : List Finding) : (ofFindings findings).index.Refers findings := by
  have hpassed := foldl_passed (l := findings) (f := addFinding) (b := {})
    (P := fun done build => build = ofFindings done ∧ build.index.Refers done) ?_ ?_
  · exact hpassed.2
  · refine ⟨rfl, by simp, by simp, ?_, ?_⟩
    · intro id typeName
      simp [Index.classRefsOf, Index.nameOf?]
    · intro id record hr
      simp at hr
  · rintro done finding rest build - ⟨hbuild, hrefers⟩
    have hg : build.index.Gathered := by
      rw [hbuild]
      exact (ofFindings_gathered (fun _ _ => true) done).1
    refine ⟨by rw [hbuild, ofFindings, ofFindings, List.foldl_append]; rfl, ?_⟩
    rw [addFinding]
    cases ho : finding.outcome with
    | error error => exact hrefers.silent (fun _ => by rw [Finding.namedFor, ho]) rfl rfl
    | ok found =>
      cases found with
      | none => exact hrefers.silent (fun _ => by rw [Finding.namedFor, ho]) rfl rfl
      | some spec =>
        cases spec with
        | link name target => exact hrefers.silent (fun _ => by rw [Finding.namedFor, ho]) rfl rfl
        | module name mainClass roots dependencies =>
          obtain ⟨hadded, hname⟩ := hg.addModule name
          dsimp only
          rw [addSpec_index]
          exact (hrefers.addModule hg name).contents hadded hname ho

end Build

end ModuleAudit
