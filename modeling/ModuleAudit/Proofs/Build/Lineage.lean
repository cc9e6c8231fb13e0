import ModuleAudit.Proofs.Build.Filed

/-! What classes inherit, told by their records instead of their numbers. The class that a name means in a module is
the last one of that name in the module or in the first provider that has one (`meaning?`), and a class draws on what
its own record mentions and on the members of all records above it (`Draws`). So what a module refers to in the end
does not depend on the order in which its classes were numbered (`Refers.drawn`). -/

namespace ModuleAudit
set_option autoImplicit false

namespace Index

/-- The class that a name means in a module. -/
def meaning? (index : Index) (module : ModuleId) (name : String) : Option ClassRecord :=
  (index.lastClass? module name).or
    ((index.providersOf module name).findSome? fun provider => index.lastClass? provider name)

/-- A class names another as its supertype or as an interface. -/
def Extends (index : Index) (record parent : ClassRecord) : Prop :=
  ∃ name ∈ record.superNames, index.meaning? record.module name = some parent

/-- A class mentions a type, or the members of a class above it do. -/
def Draws (index : Index) (record : ClassRecord) (typeName : String) : Prop :=
  record.Mentions typeName ∨
    ∃ ancestor, Relation.TransGen index.Extends record ancestor ∧ typeName ∈ ancestor.memberRefs.keys

section Filed

variable {index : Index} (h : index.Filed)
include h

theorem Filed.visibleClass?_eq (module : ModuleId) (name : String) :
    (index.visibleClass? module name).map (fun classId => index.classes[classId]?) =
      (index.meaning? module name).map some := by
  have hproviders : ∀ providers : List ModuleId,
      (providers.findSome? fun provider => index.ownClass? provider name).map (fun classId => index.classes[classId]?) =
        (providers.findSome? fun provider => index.lastClass? provider name).map some := by
    intro providers
    induction providers with
    | nil => rfl
    | cons provider rest ih =>
      have hfirst := h.filed provider name
      rw [List.findSome?_cons, List.findSome?_cons]
      cases hown : index.ownClass? provider name with
      | none =>
        rw [hown] at hfirst
        rw [Option.map_eq_none_iff.mp hfirst.symm]
        exact ih
      | some classId =>
        rw [hown] at hfirst
        obtain ⟨record, hr, -⟩ := Option.map_eq_some_iff.mp hfirst.symm
        rw [hr] at hfirst ⊢
        exact hfirst
  have hown := h.filed module name
  rw [visibleClass?, meaning?]
  cases hc : index.ownClass? module name with
  | none =>
    rw [hc] at hown
    rw [Option.map_eq_none_iff.mp hown.symm, Option.none_or]
    exact hproviders _
  | some classId =>
    rw [hc] at hown
    obtain ⟨record, hr, -⟩ := Option.map_eq_some_iff.mp hown.symm
    rw [hr] at hown ⊢
    exact hown

/-! ## Links and records -/

theorem Filed.mem_parentsOf {classId parent : ClassId} : parent ∈ index.linkSupertypes.1.parentsOf classId ↔
    ∃ record, index.classes[classId]? = some record ∧
      ∃ name ∈ record.superNames, index.visibleClass? record.module name = some parent := by
  rw [parentsOf, getElem?_classes_linkSupertypes, Option.map_map]
  cases hr : index.classes[classId]? with
  | none => simp
  | some record =>
    obtain ⟨-, hinterfaces⟩ := h.unlinked record (Array.mem_of_getElem? hr)
    simp only [Option.map_some, Option.getD_some, Function.comp_apply, Option.some.injEq, exists_eq_left',
      ClassRecord.parents, ClassRecord.superNames, linkClass, hinterfaces, List.mem_append, OrderedSet.mem_insertAll,
      List.not_mem_nil, false_or, List.mem_filterMap, or_and_right, exists_or, Option.mem_toList,
      Option.bind_eq_some_iff]

variable {a b : ClassId} {record parent : ClassRecord}

theorem Filed.extends_of_linked (ha : index.classes[a]? = some record)
    (hl : index.linkSupertypes.1.Linked a b) : ∃ parent, index.classes[b]? = some parent ∧
      index.Extends record parent := by
  obtain ⟨found, hf, name, hn, hv⟩ := h.mem_parentsOf.mp hl
  obtain rfl : found = record := Option.some.inj (hf.symm.trans ha)
  have e := h.visibleClass?_eq found.module name
  rw [hv, Option.map_some] at e
  obtain ⟨parent, hp, hb⟩ := Option.map_eq_some_iff.mp e.symm
  exact ⟨parent, hb.symm, name, hn, hp⟩

theorem Filed.linked_of_extends (ha : index.classes[a]? = some record) (he : index.Extends record parent) :
    ∃ b, index.classes[b]? = some parent ∧ index.linkSupertypes.1.Linked a b := by
  obtain ⟨name, hn, hm⟩ := he
  have e := h.visibleClass?_eq record.module name
  rw [hm, Option.map_some] at e
  obtain ⟨b, hv, hb⟩ := Option.map_eq_some_iff.mp e
  exact ⟨b, hb, h.mem_parentsOf.mpr ⟨record, ha, name, hn, hv⟩⟩

theorem Filed.transGen_extends (ha : index.classes[a]? = some record)
    (hl : Relation.TransGen index.linkSupertypes.1.Linked a b) :
    ∃ ancestor, index.classes[b]? = some ancestor ∧ Relation.TransGen index.Extends record ancestor := by
  induction hl with
  | single hl =>
    obtain ⟨parent, hb, he⟩ := h.extends_of_linked ha hl
    exact ⟨parent, hb, .single he⟩
  | tail _ hl ih =>
    obtain ⟨ancestor, hc, hchain⟩ := ih
    obtain ⟨parent, hb, he⟩ := h.extends_of_linked hc hl
    exact ⟨parent, hb, .tail hchain he⟩

theorem Filed.transGen_linked (ha : index.classes[a]? = some record)
    (he : Relation.TransGen index.Extends record parent) :
    ∃ b, index.classes[b]? = some parent ∧ Relation.TransGen index.linkSupertypes.1.Linked a b := by
  induction he with
  | single he =>
    obtain ⟨b, hb, hl⟩ := h.linked_of_extends ha he
    exact ⟨b, hb, .single hl⟩
  | tail _ he ih =>
    obtain ⟨c, hc, hchain⟩ := ih
    obtain ⟨b, hb, hl⟩ := h.linked_of_extends hc he
    exact ⟨b, hb, .tail hchain hl⟩

omit h in
theorem mem_memberRefsOf_linkSupertypes {typeName : String} : typeName ∈ index.linkSupertypes.1.memberRefsOf a ↔
    ∃ record, index.classes[a]? = some record ∧ typeName ∈ record.memberRefs.keys := by
  rw [memberRefsOf, getElem?_classes_linkSupertypes, Option.map_map]
  cases index.classes[a]? with
  | none => simp
  | some record => simp [linkClass]

/-- What a class mentions or inherits is what its record draws on. -/
theorem Filed.draws_iff (ha : index.classes[a]? = some record) (typeName : String) :
    (record.Mentions typeName ∨ typeName ∈ index.linkSupertypes.1.inheritedRefs a) ↔ index.Draws record typeName := by
  rw [mem_inheritedRefs, Draws]
  constructor
  · rintro (hm | ⟨b, ⟨-, hl⟩, hb⟩)
    · exact Or.inl hm
    · obtain ⟨ancestor, hr, hmember⟩ := mem_memberRefsOf_linkSupertypes.mp hb
      obtain ⟨found, hf, hchain⟩ := h.transGen_extends ha hl
      obtain rfl : found = ancestor := Option.some.inj (hf.symm.trans hr)
      exact Or.inr ⟨found, hchain, hmember⟩
  · rintro (hm | ⟨ancestor, hchain, hmember⟩)
    · exact Or.inl hm
    · obtain ⟨b, hb, hl⟩ := h.transGen_linked ha hchain
      by_cases hba : b = a
      · -- A class above itself adds nothing to what it mentions.
        subst hba
        obtain rfl : record = ancestor := Option.some.inj (ha.symm.trans hb)
        exact Or.inl (Or.inl hmember)
      · exact Or.inr ⟨b, ⟨hba, hl⟩, mem_memberRefsOf_linkSupertypes.mpr ⟨ancestor, hb, hmember⟩⟩

end Filed

/-! ## What modules refer to -/

/-- In the end a module refers to what findings name for it and to what its classes draw on. -/
theorem Refers.drawn {index : Index} {findings : List Finding} (h : index.Refers findings) (hf : index.Filed)
    (id : ModuleId) (typeName : String) : typeName ∈ index.completed.classRefsOf id ↔
      (∃ name, index.nameOf? id = some name ∧ ∃ finding ∈ findings, typeName ∈ finding.namedFor name) ∨
        ∃ record ∈ index.classes, record.module = id ∧ index.drawn.spreadAll.Draws record typeName := by
  have hfiled : index.drawn.spreadAll.Filed := hf.of_core_eq (core_spreadAll_drawn index)
  have hclasses : index.drawn.spreadAll.classes = index.classes := classes_of_core_eq (core_spreadAll_drawn index)
  have hfinal : index.completed.classes = index.drawn.spreadAll.linkSupertypes.1.classes :=
    classes_inheritAll index.drawn.spreadAll.linkSupertypes.1
  rw [h.completed, nameOf?_completed, hfinal, inheritedRefs_congr hfinal, ← hclasses]
  simp only [getElem?_classes_linkSupertypes, Option.map_eq_some_iff, Array.mem_iff_getElem?]
  refine or_congr Iff.rfl ⟨?_, ?_⟩
  · rintro ⟨classId, _, ⟨record, hr, rfl⟩, hm, hdraws⟩
    exact ⟨record, ⟨classId, hr⟩, hm, (hfiled.draws_iff hr typeName).mp hdraws⟩
  · rintro ⟨record, ⟨classId, hr⟩, hm, hdraws⟩
    exact ⟨classId, _, ⟨record, hr, rfl⟩, hm, (hfiled.draws_iff hr typeName).mpr hdraws⟩

theorem draws_congr {i j : Index} (hlast : i.lastClass? = j.lastClass?) (hproviders : i.providersOf = j.providersOf) :
    i.Draws = j.Draws := by
  have hmeaning : i.meaning? = j.meaning? := by
    funext module name
    rw [meaning?, meaning?, hlast, hproviders]
  have hextends : i.Extends = j.Extends := by
    funext record parent
    rw [Extends, Extends, hmeaning]
  funext record typeName
  rw [Draws, Draws, hextends]

end Index

end ModuleAudit
