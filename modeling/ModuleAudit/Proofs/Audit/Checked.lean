import ModuleAudit.Audit.UnusedModules
import ModuleAudit.Proofs.Audit.Reported
import ModuleAudit.Proofs.Build.WellFormed
import ModuleAudit.Proofs.Visibility.SameView

/-! The later stages of a build, and the two audits, with every look-up checked. The checked form of `f` is `f?`: a
record, declaration or symbol that is not there ends it with `none`. On an index in range none of them ends so, and
each gives what its unchecked form gives. -/

namespace ModuleAudit
set_option autoImplicit false

/-! ## Checked lists -/

theorem mapM_eq_some {α β : Type} {f : α → Option β} {g : α → β} {l : List α} (h : ∀ a ∈ l, f a = some (g a)) :
    l.mapM f = some (l.map g) := by
  induction l with
  | nil => rfl
  | cons a rest ih =>
    rw [List.forall_mem_cons] at h
    rw [List.mapM_cons, h.1, ih h.2]
    rfl

/-- A checked fold gives what the fold gives, if each step does so where `P` holds and keeps `P`. -/
theorem foldlM_eq_some {α β : Type} {P : β → Prop} {f : β → α → Option β} {g : β → α → β} {l : List α}
    (h : ∀ b, ∀ a ∈ l, P b → f b a = some (g b a) ∧ P (g b a)) {b : β} (hb : P b) :
    l.foldlM f b = some (l.foldl g b) ∧ P (l.foldl g b) := by
  induction l generalizing b with
  | nil => exact ⟨rfl, hb⟩
  | cons a rest ih =>
    obtain ⟨hstep, hkept⟩ := h b a List.mem_cons_self hb
    rw [List.foldlM_cons, hstep]
    exact ih (fun b a ha => h b a (List.mem_cons_of_mem _ ha)) hkept

namespace NamePool

/-- The name that the symbol of a name stands for, if there is such a symbol and it is in range. -/
def readBack? (pool : NamePool) (name : String) : Option String := (pool.lookup? name).bind pool.resolve?

theorem Has.readBack?_eq {pool : NamePool} {name : String} (h : pool.Has name) : pool.readBack? name = some name := by
  obtain ⟨symbol, hs, hlt⟩ := h
  obtain ⟨position, hp, rfl⟩ := Option.map_eq_some_iff.mp hs
  obtain ⟨hin, hname, -⟩ := List.idxOf?_eq_some_iff.mp hp
  rw [readBack?, hs, Option.bind_some, resolve?, List.getElem?_eq_getElem hin, hname]

theorem mapM_readBack? {pool : NamePool} {names : List String} (h : ∀ name ∈ names, pool.Has name) :
    names.mapM pool.readBack? = some names := by
  rw [mapM_eq_some fun name hn => (h name hn).readBack?_eq, List.map_id']

end NamePool

open NamePool

namespace Index

/-! ## Visible packages -/

/-- The packages that the declaration of an edge accepts. -/
def accepted? (index : Index) (filter : Dependency → PathFilter) (edge : DependentEdge) (packages : List String) :
    Option (List String) := do
  let record ← index.modules[edge.dependent]?
  let declaration ← record.declarations[edge.declaration]?
  let names ← packages.mapM index.pool.readBack?
  return names.filter (filter declaration).accepts

def spreadAlong? (further : List String → ModuleId → Index → Option Index) (packages : List String)
    (source : ModuleId) (index : Index) (edge : DependentEdge) : Option Index := do
  let packages ← index.accepted? (·.imports) edge packages
  if packages.isEmpty then some index
  else
    let record ← index.modules[edge.dependent]?
    let index := index.updateModule edge.dependent (·.provide packages ⟨source, edge.declaration⟩)
    if record.newlyProvided packages source = 0 then some index
    else
      let packages ← index.accepted? (·.exports) edge packages
      if packages.isEmpty then some index
      else further packages edge.dependent (index.updateModule edge.dependent (·.reExport source))

def spreadIn? : Nat → List ModuleId → List String → ModuleId → Index → Option Index
  | 0, _, _, _, index => some index
  | room + 1, path, packages, source, index =>
    if source ∈ path then some index
    else do
      let record ← index.modules[source]?
      record.dependents.foldlM (spreadAlong? (spreadIn? room (source :: path)) packages source) index

def spreadAll? (index : Index) : Option Index :=
  (List.range index.modules.size).foldlM (fun index id => do
    let record ← index.modules[id]?
    spreadIn? index.modules.size [] record.packages.keys id index) index

/-- The declaration of an edge is there. -/
theorem exists_declaration {index : Index} {id : ModuleId} {position : Nat}
    (h : position < (index.declarationsOf id).length) : ∃ record declaration,
      index.modules[id]? = some record ∧ record.declarations[position]? = some declaration := by
  cases hr : index.modules[id]? with
  | none => simp [declarationsOf, hr] at h
  | some record =>
    rw [declarationsOf, hr] at h
    exact ⟨record, _, rfl, List.getElem?_eq_getElem h⟩

section Accepted

variable {index : Index} {edge : DependentEdge} {packages : List String}
  (hd : edge.declaration < (index.declarationsOf edge.dependent).length)
  (hp : ∀ package ∈ packages, index.pool.Has package)
include hd hp

theorem accepted?_imports : index.accepted? (·.imports) edge packages = some (index.imported edge packages) := by
  obtain ⟨record, declaration, hr, hdeclared⟩ := exists_declaration hd
  simp [accepted?, imported, hr, hdeclared, mapM_readBack? hp]

theorem accepted?_exports : index.accepted? (·.exports) edge packages = some (index.exported edge packages) := by
  obtain ⟨record, declaration, hr, hdeclared⟩ := exists_declaration hd
  simp [accepted?, exported, hr, hdeclared, mapM_readBack? hp]

end Accepted

/-- From a module of `base`, and with packages whose names are pooled, `further?` gives what `further` gives. -/
def Checks (base : Index) (further? : List String → ModuleId → Index → Option Index)
    (further : List String → ModuleId → Index → Index) : Prop :=
  ∀ packages source index, index.ground = base.ground → (∀ package ∈ packages, base.pool.Has package) →
    source < base.modules.size → further? packages source index = some (further packages source index)

section Spread

variable {base : Index} (h : base.InRange)
include h

/-- Spreading does not change what an edge points to. -/
theorem InRange.of_ground_eq {source : ModuleId} {edge : DependentEdge} (hmem : edge ∈ base.dependentsOf source)
    {index : Index} (hg : index.ground = base.ground) : index.pool = base.pool ∧
      edge.dependent < index.modules.size ∧ edge.declaration < (index.declarationsOf edge.dependent).length := by
  have hpool := congrArg Index.pool hg
  rw [size_congr hg, declarationsOf_congr hg]
  exact ⟨hpool, (h.of_mem_dependentsOf hmem).2⟩

theorem InRange.spreadAlong?_eq {further? : List String → ModuleId → Index → Option Index}
    {further : List String → ModuleId → Index → Index} (hf : base.Checks further? further) {packages : List String}
    {source : ModuleId} {index : Index} {edge : DependentEdge} (hg : index.ground = base.ground)
    (hp : ∀ package ∈ packages, base.pool.Has package) (hmem : edge ∈ base.dependentsOf source) :
    spreadAlong? further? packages source index edge = some (spreadAlong further packages source index edge) := by
  obtain ⟨hpool, hlt, hdeclared⟩ := h.of_ground_eq hmem hg
  have himported := accepted?_imports hdeclared fun p hm => hpool ▸ hp p hm
  have htaken : ∀ p ∈ index.imported edge packages, base.pool.Has p := by
    intro p hm
    rw [imported_eq] at hm
    exact hp p (List.mem_filter.mp hm).1
  have hprovided : (index.provideAt source edge (index.imported edge packages)).ground = base.ground :=
    (ground_provideAt ..).trans hg
  obtain ⟨hpool', -, hdeclared'⟩ := h.of_ground_eq hmem hprovided
  have hexported := accepted?_exports hdeclared' fun p hm => hpool' ▸ htaken p hm
  have hreached : ((index.provideAt source edge (index.imported edge packages)).reExportAt source edge).ground =
    base.ground := (ground_reExportAt ..).trans hprovided
  have hpassed : ∀ p ∈ (index.provideAt source edge (index.imported edge packages)).exported edge
      (index.imported edge packages), base.pool.Has p := by
    intro p hm
    rw [exported_eq] at hm
    exact htaken p (List.mem_filter.mp hm).1
  have hfurther := hf _ edge.dependent _ hreached hpassed (size_congr hg ▸ hlt)
  simp only [provideAt, reExportAt] at hexported hfurther
  simp only [spreadAlong?, spreadAlong, newlyVisible, himported, hexported, hfurther, Array.getElem?_eq_getElem hlt,
    Option.bind_eq_bind, Option.bind_some, Option.map_some, Option.getD_some]
  -- The two forms branch on the same conditions.
  split
  · rfl
  · split
    · rfl
    · split <;> rfl

theorem InRange.checks_spreadIn? (room : Nat) (path : List ModuleId) :
    base.Checks (spreadIn? room path) (spreadIn room path) := by
  induction room generalizing path with
  | zero => exact fun _ _ _ _ _ _ => rfl
  | succ room ih =>
    intro packages source index hg hp hs
    rw [spreadIn?, spreadIn]
    split
    · rfl
    · have hlt : source < index.modules.size := size_congr hg ▸ hs
      have hedges : ∀ edge ∈ index.modules[source].dependents, edge ∈ base.dependentsOf source := by
        intro edge he
        rw [← dependentsOf_congr hg, dependentsOf, Array.getElem?_eq_getElem hlt]
        exact he
      rw [Array.getElem?_eq_getElem hlt]
      refine (foldlM_eq_some (P := fun i => i.ground = base.ground) (fun i edge he hi => ⟨?_, ?_⟩) hg).1
      · exact h.spreadAlong?_eq (ih (source :: path)) hi hp (hedges edge he)
      · have hfurther := spreadIn_steps (passesOn_true base) room (source :: path)
        have hsteps : Steps _ i (spreadAlong (spreadIn room (source :: path)) packages source i edge) :=
          spreadAlong_steps (passesOn_true base) hfurther hi (fun _ _ => trivial) (hedges edge he)
        exact hsteps.ground_eq.trans hi

theorem InRange.spreadAll?_eq : base.spreadAll? = some base.spreadAll := by
  refine (foldlM_eq_some (P := fun i => i.ground = base.ground) (fun i id hid hi => ⟨?_, ?_⟩) rfl).1
  · have hlt : id < i.modules.size := size_congr hi ▸ List.mem_range.mp hid
    have hheld : ∀ package ∈ i.packagesOf id, base.pool.Has package := by
      rw [packagesOf_congr hi]
      exact fun package hp => h.has_of_mem_packagesOf hp
    have hspread := h.checks_spreadIn? i.modules.size [] (i.packagesOf id) id i hi hheld (List.mem_range.mp hid)
    simp only [spread, packagesOf, Array.getElem?_eq_getElem hlt] at hspread ⊢
    exact hspread
  · exact (spreadIn_steps (passesOn_true base) _ _ _ _ _ hi fun _ _ => trivial).ground_eq.trans hi

end Spread

/-! ## Links -/

/-- The first class of a name that the modules have, with their records checked. -/
def firstOwn? (index : Index) (name : String) : List ModuleId → Option (Option ClassId)
  | [] => some none
  | id :: rest => do
    let record ← index.modules[id]?
    match record.classes.get? name with
    | some classId => some (some classId)
    | none => index.firstOwn? name rest

/-- The checked form of `visibleClass?`. -/
def seekClass? (index : Index) (module : ModuleId) (name : String) : Option (Option ClassId) := do
  let record ← index.modules[module]?
  match record.classes.get? name with
  | some classId => some (some classId)
  | none =>
    let typeName ← index.pool.readBack? name
    match packageOf? typeName with
    | some package => index.firstOwn? name ((record.providers.get? package).getD {}).toList
    | none => some none

def linkClass? (index : Index) (record : ClassRecord) : Option (ClassRecord × Nat) := do
  let superLinks ← record.superName.toList.mapM (index.seekClass? record.module)
  let links ← record.interfaceNames.mapM (index.seekClass? record.module)
  let superLink := superLinks.head?.join
  let interfaceLinks := record.interfaceLinks.insertAll (links.filterMap id)
  return ({ record with superLink, interfaceLinks },
    superLink.toList.length + (interfaceLinks.size - record.interfaceLinks.size))

def linkSupertypes? (index : Index) : Option (Index × Nat) := do
  let linked ← index.classes.toList.mapM index.linkClass?
  return ({ index with classes := (linked.map Prod.fst).toArray }, (linked.map Prod.snd).foldl (· + ·) 0)

theorem firstOwn?_eq {index : Index} {name : String} {ids : List ModuleId} (h : ∀ id ∈ ids, id < index.modules.size) :
    index.firstOwn? name ids = some (ids.findSome? fun id => index.ownClass? id name) := by
  induction ids with
  | nil => rfl
  | cons id rest ih =>
    rw [List.forall_mem_cons] at h
    obtain ⟨hid, hrest⟩ := h
    have hown : index.ownClass? id name = index.modules[id].classes.get? name := by
      rw [ownClass?, Array.getElem?_eq_getElem hid, Option.bind_some]
    rw [firstOwn?, List.findSome?_cons, hown, Array.getElem?_eq_getElem hid, Option.bind_eq_bind, Option.bind_some]
    cases index.modules[id].classes.get? name with
    | some classId => rfl
    | none => exact ih hrest

section Linked

variable {index : Index} (h : index.InRange)
include h

theorem InRange.seekClass?_eq {module : ModuleId} {name : String} (hlt : module < index.modules.size)
    (hn : index.pool.Has name) : index.seekClass? module name = some (index.visibleClass? module name) := by
  have hrecord := h.modules _ (Array.getElem_mem hlt)
  have hown : index.ownClass? module name = index.modules[module].classes.get? name := by
    rw [ownClass?, Array.getElem?_eq_getElem hlt, Option.bind_some]
  rw [seekClass?, visibleClass?, providersOf, hown, Array.getElem?_eq_getElem hlt, Option.bind_eq_bind,
    Option.bind_some, hn.readBack?_eq]
  cases index.modules[module].classes.get? name with
  | some classId => rfl
  | none =>
    simp only [Option.bind_eq_bind, Option.bind_some]
    cases packageOf? name with
    | none => rfl
    | some package =>
      refine firstOwn?_eq fun id hid => ?_
      cases hk : index.modules[module].providers.get? package with
      | none => simp [hk] at hid
      | some targets => exact (hrecord.providers package targets hk).2 id (by simpa [hk] using hid)

theorem InRange.linkClass?_eq {record : ClassRecord} (hr : record.InRange index) :
    index.linkClass? record = some (index.linkClass record) := by
  have hseek : ∀ name ∈ record.superNames,
      index.seekClass? record.module name = some (index.visibleClass? record.module name) :=
    fun name hn => h.seekClass?_eq hr.module (hr.superNames name hn)
  have hsuper := mapM_eq_some fun name hn => hseek name (List.mem_append_left _ hn)
  have hinterfaces := mapM_eq_some fun name hn => hseek name (List.mem_append_right _ hn)
  simp only [linkClass?, Index.linkClass, hsuper, hinterfaces, Option.bind_eq_bind, Option.bind_some,
    List.filterMap_map]
  cases record.superName <;> rfl

theorem InRange.linkSupertypes?_eq : index.linkSupertypes? = some index.linkSupertypes := by
  have hlinked : index.classes.toList.mapM index.linkClass? = some (index.classes.map index.linkClass).toList := by
    rw [mapM_eq_some fun record hr => h.linkClass?_eq (h.classes record (Array.mem_toList_iff.mp hr)),
      Array.toList_map]
  rw [linkSupertypes?, hlinked, Option.bind_eq_bind, Option.bind_some, ← Array.toList_map, Array.toArray_toList]
  rfl

end Linked

/-! ## What is inherited -/

/-- The parents of every class that is met are looked up, also where the class was met before. -/
def walk? (parents? : ClassId → Option (List ClassId)) (left pending : List ClassId) : Option (List ClassId) :=
  match pending with
  | [] => some []
  | id :: pending => (parents? id).bind fun parents =>
    if _fresh : id ∈ left then (walk? parents? (left.erase id) (parents ++ pending)).map (id :: ·)
    else walk? parents? left pending
termination_by (left.length, pending.length)
decreasing_by
  · have shorter := List.length_erase_of_mem _fresh
    have some := List.length_pos_of_mem _fresh
    exact Prod.Lex.left _ _ (by omega)
  · exact Prod.Lex.right _ (by simp)

def inheritedRefs? (index : Index) (id : ClassId) : Option (List String) := do
  let record ← index.classes[id]?
  let ancestors ← walk? (fun id => index.classes[id]?.map (·.parents)) ((List.range index.classes.size).erase id)
    record.parents
  let inherited ← ancestors.mapM fun id => index.classes[id]?.map (·.memberRefs.keys)
  return inherited.flatten

def refer? (index : Index) (module : ModuleId) (typeName : String) (n : UInt32) : Option Index := do
  let name ← index.pool.readBack? typeName
  let _ ← index.modules[module]?
  return index.refer module name n

def inheritClass? (index : Index) (id : ClassId) : Option Index := do
  let record ← index.classes[id]?
  let inherited ← index.inheritedRefs? id
  inherited.foldlM (fun index name => index.refer? record.module name 1) index

def inheritAll? (index : Index) : Option Index := (List.range index.classes.size).foldlM inheritClass? index

theorem walk?_eq {size : Nat} {parents? : ClassId → Option (List ClassId)} {parents : ClassId → List ClassId}
    (h : ∀ id < size, parents? id = some (parents id) ∧ ∀ parent ∈ parents id, parent < size)
    (left : List ClassId) {pending : List ClassId} (hp : ∀ id ∈ pending, id < size) :
    walk? parents? left pending = some (walk parents left pending) ∧ ∀ id ∈ walk parents left pending, id < size := by
  -- All that is pending is in range, as the parents of what is in range are.
  fun_induction walk parents left pending with
  | case1 left => exact ⟨by rw [walk?], by simp⟩
  | case2 left id pending fresh ih =>
    rw [List.forall_mem_cons] at hp
    obtain ⟨hfound, hparents⟩ := h id hp.1
    obtain ⟨hrest, hall⟩ := ih fun parent hm => (List.mem_append.mp hm).elim (hparents parent) (hp.2 parent)
    rw [walk?, hfound, Option.bind_some, dif_pos fresh, hrest]
    exact ⟨rfl, List.forall_mem_cons.mpr ⟨hp.1, hall⟩⟩
  | case3 left id pending seen ih =>
    rw [List.forall_mem_cons] at hp
    rw [walk?, (h id hp.1).1, Option.bind_some, dif_neg seen]
    exact ih hp.2

section Inherited

variable {index : Index} (h : index.InRange)
include h

theorem InRange.inheritedRefs?_eq {id : ClassId} (hlt : id < index.classes.size) :
    index.inheritedRefs? id = some (index.inheritedRefs id) := by
  have hfound : ∀ {α : Type} (f : ClassRecord → α) (id : ClassId) (hid : id < index.classes.size),
      index.classes[id]?.map f = some (f index.classes[id]) := by
    intro α f id hid
    rw [Array.getElem?_eq_getElem hid, Option.map_some]
  have hparents : ∀ id < index.classes.size, index.classes[id]?.map (·.parents) = some (index.parentsOf id) ∧
      ∀ parent ∈ index.parentsOf id, parent < index.classes.size := by
    intro id hid
    have hof : index.parentsOf id = index.classes[id].parents := by rw [parentsOf, hfound _ id hid, Option.getD_some]
    rw [hof]
    exact ⟨hfound _ id hid, (h.classes _ (Array.getElem_mem hid)).links⟩
  obtain ⟨hwalk, hall⟩ := walk?_eq hparents ((List.range index.classes.size).erase id) (hparents id hlt).2
  have hmembers : ∀ ancestor ∈ index.ancestors id,
      index.classes[ancestor]?.map (·.memberRefs.keys) = some (index.memberRefsOf ancestor) := by
    intro ancestor ha
    rw [memberRefsOf, hfound _ ancestor (hall ancestor ha), Option.getD_some]
  have hown : index.classes[id].parents = index.parentsOf id := by rw [parentsOf, hfound _ id hlt, Option.getD_some]
  rw [inheritedRefs?, Array.getElem?_eq_getElem hlt, Option.bind_eq_bind, Option.bind_some, hown, hwalk,
    Option.bind_eq_bind, Option.bind_some]
  change (index.ancestors id).mapM _ >>= _ = _
  rw [mapM_eq_some hmembers]
  rfl

theorem InRange.inheritClass?_eq {id : ClassId} (hlt : id < index.classes.size) :
    index.inheritClass? id = some (index.inheritClass id) ∧
      (index.inheritClass id).InRange ∧ (index.inheritClass id).classes = index.classes := by
  have hmodule := (h.classes _ (Array.getElem_mem hlt)).module
  have hnames : ∀ name ∈ index.inheritedRefs id, index.pool.Has name := by
    intro name hn
    have hmem : (index.classes[id].module, name) ∈ index.inheritances := by
      refine List.mem_flatMap.mpr ⟨id, List.mem_range.mpr hlt, ?_⟩
      rw [inheritancesOf, Array.getElem?_eq_getElem hlt]
      exact List.mem_map_of_mem hn
    exact h.has_of_mem_inheritances hmem
  have hfold := foldlM_eq_some
    (P := fun i : Index => index.Grown i ∧ i.InRange ∧ i.classes = index.classes)
    (f := fun i name => i.refer? index.classes[id].module name 1)
    (g := fun i name => i.refer index.classes[id].module name 1) (l := index.inheritedRefs id) ?_
    ⟨.refl index, h, rfl⟩
  · rw [inheritClass?, inheritClass, Array.getElem?_eq_getElem hlt, h.inheritedRefs?_eq hlt]
    exact ⟨hfold.1, hfold.2.2⟩
  · rintro i name hn ⟨hgrown, hin, hclasses⟩
    have hname := hgrown.names name (hnames name hn)
    have hin' : index.classes[id].module < i.modules.size := Nat.lt_of_lt_of_le hmodule hgrown.modules
    refine ⟨?_, hgrown.trans (grown_refer i _ _ _), hin.refer hname _ _, hclasses⟩
    rw [refer?, hname.readBack?_eq, Array.getElem?_eq_getElem hin']
    rfl

theorem InRange.inheritAll?_eq : index.inheritAll? = some index.inheritAll := by
  refine (foldlM_eq_some (P := fun i : Index => i.InRange ∧ i.classes = index.classes) ?_ ⟨h, rfl⟩).1
  rintro i id hid ⟨hin, hclasses⟩
  have hlt : id < i.classes.size := by
    rw [hclasses]
    exact List.mem_range.mp hid
  obtain ⟨hsome, hkept, hsame⟩ := hin.inheritClass?_eq hlt
  exact ⟨hsome, hkept, hsame.trans hclasses⟩

end Inherited

/-! ## The audits -/

def moduleName? (index : Index) (id : ModuleId) : Option String :=
  index.modules[id]?.bind fun record => index.pool.readBack? record.name

/-- All that could be looked up is looked up, whichever reason is found first. -/
def usage? (index : Index) (module : ModuleId) (edge : DependencyEdge) : Option (Option Usage) := do
  let record ← index.modules[module]?
  let provider ← index.modules[edge.target]?
  let declared ← record.declarations[edge.declaration]?
  let packages ← provider.packages.keys.mapM index.pool.readBack?
  let visible ← provider.providers.keys.mapM index.pool.readBack?
  return if record.reExports.contains edge.target then some .reExported
    else if record.refersThrough edge.target then some .packageReferenced
    else if declared.imports.accepts PathFilter.servicesPath then some .servicesImported
    else if packages.any declared.passesOn then some .packagesPassedOn
    else if visible.any declared.passesOn then some .dependencyPathsPassedOn
    else if declared.isOptional then some .optional
    else none

def judgements? (index : Index) : Option (List Judgement) := do
  let judged ← index.modules.toList.zipIdx.mapM fun entry =>
    (firstEdges entry.1.dependencies).mapM fun edge => (index.usage? entry.2 edge).map (Judgement.mk entry.2 edge)
  return judged.flatten

/-- The checked form of `findingOf?`. -/
def finding? (index : Index) (judgement : Judgement) : Option (Option UnusedDependency) := do
  let module ← index.moduleName? judgement.module
  let dependency ← index.moduleName? judgement.edge.target
  return match judgement.usage with
    | none => some ⟨module, dependency⟩
    | some _ => none

def unusedDependencies? (index : Index) : Option UnusedDependencies := do
  let judgements ← index.judgements?
  let found ← judgements.mapM index.finding?
  return {
    findings := found.filterMap id
    exports := (judgements.filter fun judgement => judgement.usage = some .reExported).length }

def unusedModules? (index : Index) (retain : List Pattern) : Option (List String) := do
  let names ← index.modules.toList.mapM fun record => index.pool.readBack? record.name
  return ((names.zip index.modules.toList).filter fun entry =>
    index.verdict retain { entry.2 with name := entry.1 } = .unused).map Prod.fst

section Audits

variable {index : Index} (h : index.InRange)
include h

theorem InRange.moduleName?_eq {id : ModuleId} (hlt : id < index.modules.size) :
    index.moduleName? id = some (index.moduleName id) := by
  rw [moduleName?, moduleName, Array.getElem?_eq_getElem hlt, Option.bind_some,
    (h.modules _ (Array.getElem_mem hlt)).name.readBack?_eq]
  rfl

theorem InRange.of_mem_dependenciesOf {module : ModuleId} {edge : DependencyEdge}
    (he : edge ∈ index.dependenciesOf module) : ∃ record, index.modules[module]? = some record ∧
      edge.target < index.modules.size ∧ edge.declaration < record.declarations.length := by
  rw [dependenciesOf] at he
  cases hr : index.modules[module]? with
  | none => simp [hr] at he
  | some record =>
    exact ⟨record, rfl, (h.modules record (Array.mem_of_getElem? hr)).dependencies edge (by simpa [hr] using he)⟩

theorem InRange.usage?_eq {module : ModuleId} {edge : DependencyEdge} (he : edge ∈ index.dependenciesOf module) :
    index.usage? module edge = some (index.usage module edge) := by
  obtain ⟨record, hr, ht, hd⟩ := h.of_mem_dependenciesOf he
  have hprovider := h.modules _ (Array.getElem_mem ht)
  have hvisible : ∀ package ∈ index.modules[edge.target].providers.keys, index.pool.Has package := by
    intro package hp
    obtain ⟨targets, hk⟩ := Option.isSome_iff_exists.mp ((OrderedMap.mem_keys_iff _ _).mp hp)
    exact (hprovider.providers package targets hk).1
  simp only [usage?, usage, hr, Array.getElem?_eq_getElem ht, List.getElem?_eq_getElem hd,
    mapM_readBack? hprovider.packages, mapM_readBack? hvisible, Option.bind_eq_bind, Option.bind_some]
  rfl

theorem InRange.judgements?_eq : index.judgements? = some index.judgements := by
  have hjudged := mapM_eq_some (f := fun entry : ModuleRecord × ModuleId =>
      (firstEdges entry.1.dependencies).mapM fun edge => (index.usage? entry.2 edge).map (Judgement.mk entry.2 edge))
    (g := fun entry => (firstEdges entry.1.dependencies).map fun edge => ⟨entry.2, edge, index.usage entry.2 edge⟩)
    (l := index.modules.toList.zipIdx) ?_
  · rw [judgements?, hjudged]
    rfl
  · rintro ⟨record, module⟩ hentry
    rw [List.mem_zipIdx_iff_getElem?, Array.getElem?_toList] at hentry
    refine mapM_eq_some fun edge he => ?_
    have hmem : edge ∈ index.dependenciesOf module := by
      rw [dependenciesOf, hentry]
      exact List.mem_of_find?_eq_some (mem_firstEdges.mp he)
    rw [h.usage?_eq hmem]
    rfl

theorem InRange.unusedDependencies?_eq : index.unusedDependencies? = some index.unusedDependencies := by
  have hfound : ∀ judgement ∈ index.judgements, index.finding? judgement = some (index.findingOf? judgement) := by
    intro judgement hj
    have hmem := List.mem_of_find?_eq_some (mem_judgements.mp hj).1
    obtain ⟨record, hr, htarget, -⟩ := h.of_mem_dependenciesOf hmem
    have hmodule := (Array.getElem?_eq_some_iff.mp hr).1
    rw [finding?, h.moduleName?_eq hmodule, h.moduleName?_eq htarget, findingOf?]
    rfl
  rw [unusedDependencies?, h.judgements?_eq, Option.bind_eq_bind, Option.bind_some, mapM_eq_some hfound,
    Option.bind_eq_bind, Option.bind_some, List.filterMap_map]
  rfl

theorem InRange.unusedModules?_eq (retain : List Pattern) :
    index.unusedModules? retain = some (index.unusedModules retain) := by
  have hnames := mapM_eq_some (f := fun record : ModuleRecord => index.pool.readBack? record.name) (g := (·.name))
    (l := index.modules.toList) fun record hr => (h.modules record (Array.mem_toList_iff.mp hr)).name.readBack?_eq
  rw [unusedModules?, hnames, unusedModules, Option.bind_eq_bind, Option.bind_some]
  refine congrArg some ?_
  induction index.modules.toList with
  | nil => rfl
  | cons record rest ih =>
    simp only [List.map_cons, List.zip_cons_cons, List.filter_cons]
    split
    · exact congrArg (record.name :: ·) ih
    · exact ih

end Audits

end Index

/-! ## All of a build -/

/-- Spreads packages, links classes and inherits references, with every look-up checked. -/
def Index.finish? (index : Index) : Option Index := do
  let spread ← index.spreadAll?
  let linked ← spread.linkSupertypes?
  linked.1.inheritAll?

/-- Every index that a build passes through is well-formed, so no look-up of its later stages or of the audits
fails. -/
theorem Build.every_lookup_in_range (findings : List Finding) :
    (∀ index, Passes findings index → index.WellFormed) ∧ Passes findings (run findings).index ∧
    (ofFindings findings).drawEdges.index.finish? = some (run findings).index ∧
    (run findings).index.unusedDependencies? = some (run findings).index.unusedDependencies ∧
    ∀ retain, (run findings).index.unusedModules? retain = some ((run findings).index.unusedModules retain) := by
  have hdrawn := (passes_drawEdges findings).wellFormed.inRange
  have hspread := (passes_spreadAll findings).wellFormed.inRange
  have hlinked := (passes_linkSupertypes findings).wellFormed.inRange
  have hrun := (passes_run findings).wellFormed.inRange
  refine ⟨fun _ => Passes.wellFormed, passes_run findings, ?_, hrun.unusedDependencies?_eq, hrun.unusedModules?_eq⟩
  rw [Index.finish?, hdrawn.spreadAll?_eq, Option.bind_eq_bind, Option.bind_some, hspread.linkSupertypes?_eq,
    Option.bind_eq_bind, Option.bind_some, hlinked.inheritAll?_eq, run_index_eq]

end ModuleAudit
