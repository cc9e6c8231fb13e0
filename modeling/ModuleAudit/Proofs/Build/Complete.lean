import ModuleAudit.Proofs.Build.Edges
import ModuleAudit.Proofs.Build.Gather
import ModuleAudit.Proofs.Visibility.Closure
import ModuleAudit.Proofs.Visibility.Coherent

/-! A build as a whole: its index is that of its findings (`Gathered`) with edges drawn, packages spread and
classes linked (`completed`). Here stand the edges that are drawn in a gathered index, and what each view
of the completed index was before the later stages. -/

namespace ModuleAudit
set_option autoImplicit false

namespace Index

/-- The index with its edges drawn, its packages made visible and its classes linked. -/
def completed (index : Index) : Index := index.drawn.spreadAll.linkSupertypes.1.inheritAll

/-! ## The edges of a gathered index -/

theorem get?_byName_of_follow {byName : OrderedMap String ModuleId} {aliases : OrderedMap String String}
    {name : String} {id : ModuleId} (h : follow byName aliases name = some id) :
    ∃ known, byName.get? known = some id := by
  fun_induction follow byName aliases name with
  | case1 aliases name id' hn => exact ⟨name, hn.trans h⟩
  | case2 aliases name hn target ht ih => exact ih h
  | case3 aliases name hn ht => exact absurd h (by simp)

section Gathered

variable {index : Index} (hg : index.Gathered)
include hg

theorem Gathered.lt_size_of_resolve {declaration : Dependency} {target : ModuleId}
    (h : index.resolve declaration = some target) : target < index.modules.size := by
  obtain ⟨name, -, hf⟩ := Option.bind_eq_some_iff.mp h
  obtain ⟨known, hk⟩ := get?_byName_of_follow hf
  exact lt_size_of_nameOf? ((hg.named known target).mp hk)

theorem Gathered.eq_of_nameOf? {id other : ModuleId} {name : String} (h : index.nameOf? id = some name)
    (ho : index.nameOf? other = some name) : id = other := by
  have e := ((hg.named name id).mpr h).symm.trans ((hg.named name other).mpr ho)
  exact Option.some.inj e

theorem Gathered.dependenciesOf_drawn (id : ModuleId) : index.drawn.dependenciesOf id = index.outgoing id := by
  rw [dependenciesOf, drawn, getElem?_foldl_addEdge, filter_allEdges, List.map_map, Option.map_map]
  cases hr : index.modules[id]? with
  | none =>
    rw [outgoing, declarationsOf, hr]
    rfl
  | some record => simp [withEdges, (hg.fresh id record hr).1, Function.comp_def]

theorem Gathered.dependentsOf_drawn (target : ModuleId) : index.drawn.dependentsOf target =
    (index.allEdges.filter (·.2.target = target)).map fun edge => ⟨edge.1, edge.2.declaration⟩ := by
  rw [dependentsOf, drawn, getElem?_foldl_addEdge, Option.map_map]
  cases hr : index.modules[target]? with
  | none =>
    have hnone : index.allEdges.filter (·.2.target = target) = [] := by
      rw [List.filter_eq_nil_iff]
      intro edge he
      obtain ⟨id, -, hid⟩ := List.mem_flatMap.mp he
      obtain ⟨out, ho, rfl⟩ := List.mem_map.mp hid
      obtain ⟨entry, -, hentry⟩ := List.mem_filterMap.mp ho
      obtain ⟨t, ht, rfl⟩ := Option.map_eq_some_iff.mp hentry
      have hlt := hg.lt_size_of_resolve ht
      have hle := Array.getElem?_eq_none_iff.mp hr
      simp only [decide_eq_true_eq]
      rintro rfl
      exact Nat.not_lt.mpr hle hlt
    rw [hnone]
    rfl
  | some record => simp [withEdges, (hg.fresh target record hr).2.1]

theorem Gathered.filter_dependentsOf_drawn (id target : ModuleId) :
    (index.drawn.dependentsOf target).filter (·.dependent = id) =
      (index.toward id target).map fun entry => ⟨id, entry.2⟩ := by
  have hbetween : (index.allEdges.filter (·.2.target = target)).filter (·.1 = id) =
      ((index.outgoing id).filter (·.target = target)).map (id, ·) := by
    calc (index.allEdges.filter (·.2.target = target)).filter (·.1 = id)
        = (index.allEdges.filter (·.1 = id)).filter (·.2.target = target) := by
          simp only [List.filter_filter, Bool.and_comm]
      _ = ((index.outgoing id).filter (·.target = target)).map (id, ·) := by
          rw [filter_allEdges, List.filter_map]
          rfl
  rw [hg.dependentsOf_drawn, List.filter_map]
  calc ((index.allEdges.filter (·.2.target = target)).filter (·.1 = id)).map
        (fun edge => (⟨edge.1, edge.2.declaration⟩ : DependentEdge))
      = (((index.outgoing id).filter (·.target = target)).map (id, ·)).map
        (fun edge => ⟨edge.1, edge.2.declaration⟩) := by rw [hbetween]
    _ = (index.toward id target).map fun entry => ⟨id, entry.2⟩ := by
      rw [filter_outgoing, List.map_map, List.map_map]
      rfl

theorem Gathered.mem_dependentsOf_drawn {edge : DependentEdge} {target : ModuleId} :
    edge ∈ index.drawn.dependentsOf target ↔
      ∃ declaration, (index.declarationsOf edge.dependent)[edge.declaration]? = some declaration ∧
        index.resolve declaration = some target := by
  have hfilter := hg.filter_dependentsOf_drawn edge.dependent target
  have hmem : edge ∈ index.drawn.dependentsOf target ↔
      edge ∈ (index.drawn.dependentsOf target).filter (·.dependent = edge.dependent) := by
    simp [List.mem_filter]
  rw [hmem, hfilter, List.mem_map]
  constructor
  · rintro ⟨⟨declaration, i⟩, hi, he⟩
    refine ⟨declaration, ?_⟩
    rw [← he]
    exact mem_toward.mp hi
  · rintro ⟨declaration, hd⟩
    exact ⟨(declaration, edge.declaration), mem_toward.mpr hd, rfl⟩

/-- Among the edges of one dependent, the first to import a package stands for the first declaration that
does. -/
theorem Gathered.find?_dependentsOf_drawn (id target : ModuleId) (package : String) :
    (index.drawn.dependentsOf target).find? (fun other =>
      other.dependent = id && index.drawn.imports other package) =
      ((index.toward id target).find? (·.1.imports.accepts package)).map fun entry => ⟨id, entry.2⟩ := by
  have himports : ∀ entry ∈ index.toward id target,
      index.drawn.imports ⟨id, entry.2⟩ package = entry.1.imports.accepts package := by
    rintro ⟨declaration, i⟩ he
    rw [imports, declared_eq, drawn, declarationsOf_foldl_addEdge, (mem_toward.mp he).1]
    rfl
  rw [← List.head?_filter, ← List.head?_filter, ← List.head?_map]
  apply congrArg List.head?
  calc (index.drawn.dependentsOf target).filter (fun other =>
        other.dependent = id && index.drawn.imports other package)
      = ((index.drawn.dependentsOf target).filter (·.dependent = id)).filter
          (index.drawn.imports · package) := by
        simp only [List.filter_filter, Bool.and_comm]
    _ = ((index.toward id target).filter fun entry => index.drawn.imports ⟨id, entry.2⟩ package).map
          fun entry => ⟨id, entry.2⟩ := by
        rw [hg.filter_dependentsOf_drawn, List.filter_map]
        rfl
    _ = ((index.toward id target).filter (·.1.imports.accepts package)).map fun entry => ⟨id, entry.2⟩ := by
        rw [List.filter_congr himports]

theorem Gathered.leads_of_firstImporter {id target : ModuleId} {package : String} {declaration : Dependency}
    (h : index.firstImporter id target package = some declaration) :
    ∃ i, (index.declarationsOf id)[i]? = some declaration ∧ index.drawn.Leads target ⟨id, i⟩ package := by
  rw [firstImporter_eq] at h
  obtain ⟨⟨d, i⟩, hf, rfl⟩ := Option.map_eq_some_iff.mp h
  refine ⟨i, (mem_toward.mp (List.mem_of_find?_eq_some hf)).1, ?_⟩
  rw [Leads, hg.find?_dependentsOf_drawn, hf]
  rfl

theorem Gathered.firstImporter_of_leads {edge : DependentEdge} {target : ModuleId} {package : String}
    (h : index.drawn.Leads target edge package) :
    ∃ declaration, (index.declarationsOf edge.dependent)[edge.declaration]? = some declaration ∧
      index.firstImporter edge.dependent target package = some declaration := by
  rw [Leads, hg.find?_dependentsOf_drawn] at h
  obtain ⟨⟨d, i⟩, hf, he⟩ := Option.map_eq_some_iff.mp h
  refine ⟨d, ?_, ?_⟩
  · rw [← he]
    exact (mem_toward.mp (List.mem_of_find?_eq_some hf)).1
  · rw [firstImporter_eq, hf]
    rfl

theorem Gathered.unspread_drawn : index.drawn.Unspread := by
  intro record hr
  obtain ⟨id, hid⟩ := Array.mem_iff_getElem?.mp hr
  rw [drawn, getElem?_foldl_addEdge] at hid
  obtain ⟨r, hi, rfl⟩ := Option.map_eq_some_iff.mp hid
  obtain ⟨-, -, hproviders, -, hreExports⟩ := hg.fresh id r hi
  exact ⟨hproviders, hreExports⟩

theorem Gathered.coherent_drawn : index.drawn.Coherent := by
  intro id record hr
  rw [drawn, getElem?_foldl_addEdge] at hr
  obtain ⟨r, hi, rfl⟩ := Option.map_eq_some_iff.mp hr
  obtain ⟨-, -, hproviders, hprovided, -⟩ := hg.fresh id r hi
  exact ModuleRecord.coherent_of_empty hproviders hprovided

end Gathered

/-! ## What the later stages keep -/

theorem map_of_ground_eq {α : Type} {f : ModuleRecord → α} (hf : ∀ record, f record.ground = f record)
    {i j : Index} (h : i.ground = j.ground) (id : ModuleId) : i.modules[id]?.map f = j.modules[id]?.map f := by
  have e := congrArg (fun index : Index => index.modules[id]?.map f) h
  simp only [getElem?_ground, Option.map_map, Function.comp_def, hf] at e
  exact e

theorem inheritClass_eq (index : Index) (id : ClassId) : ∃ (module : ModuleId) (names : List (String × UInt32)),
    index.inheritClass id = names.foldl (fun index (name, n) => index.refer module name n) index := by
  rw [inheritClass]
  cases index.classes[id]? with
  | none => exact ⟨0, [], rfl⟩
  | some record => exact ⟨record.module, (index.inheritedRefs id).map (·, 1), by rw [List.foldl_map]⟩

/-- What each `refer` keeps, inheriting keeps. -/
theorem inheritAll_induct {P : Index → Prop} {index : Index} (h : P index)
    (hstep : ∀ i module typeName n, P i → P (refer i module typeName n)) : P index.inheritAll := by
  have hrefer : ∀ (module : ModuleId) (names : List (String × UInt32)) (i : Index), P i →
      P (names.foldl (fun index (name, n) => index.refer module name n) i) := by
    intro module names
    induction names with
    | nil => exact fun _ h => h
    | cons first rest ih => exact fun i h => ih _ (hstep i module first.1 first.2 h)
  refine foldl_passed (P := fun _ i => P i) h ?_
  intro done id rest i _ hi
  obtain ⟨module, names, e⟩ := inheritClass_eq i id
  rw [e]
  exact hrefer module names i hi

section Completed

variable (index : Index)

theorem map_completed {α : Type} {f : ModuleRecord → α}
    (hf : ∀ record typeName package n, f (ModuleRecord.refer record typeName package n) = f record)
    (id : ModuleId) : index.completed.modules[id]?.map f = index.drawn.spreadAll.modules[id]?.map f :=
  inheritAll_induct (P := fun i => i.modules[id]?.map f = index.drawn.spreadAll.modules[id]?.map f) rfl
    fun i module typeName n h => (map_refer hf i module typeName n id).trans h

theorem map_completed_ground {α : Type} {f : ModuleRecord → α}
    (hf : ∀ record typeName package n, f (ModuleRecord.refer record typeName package n) = f record)
    (hground : ∀ record, f record.ground = f record)
    (hedges : ∀ out into record, f (withEdges out into record) = f record) (id : ModuleId) :
    index.completed.modules[id]?.map f = index.modules[id]?.map f := by
  rw [map_completed index hf, map_of_ground_eq hground (steps_spreadAll index.drawn).ground_eq, drawn,
    getElem?_foldl_addEdge, Option.map_map]
  congr 1
  funext record
  exact hedges _ _ record

theorem through_completed (id : ModuleId) (package : String) :
    index.completed.through id package = index.drawn.spreadAll.through id package := by
  rw [through, map_completed index (fun _ _ _ _ => rfl)]
  rfl

theorem reExportsOf_completed (id : ModuleId) :
    index.completed.reExportsOf id = index.drawn.spreadAll.reExportsOf id := by
  rw [reExportsOf, map_completed index (fun _ _ _ _ => rfl)]
  rfl

theorem dependenciesOf_completed (id : ModuleId) :
    index.completed.dependenciesOf id = index.drawn.spreadAll.dependenciesOf id := by
  rw [dependenciesOf, map_completed index (fun _ _ _ _ => rfl)]
  rfl

theorem packagesOf_completed (id : ModuleId) : index.completed.packagesOf id = index.packagesOf id := by
  rw [packagesOf, map_completed_ground index (fun _ _ _ _ => rfl) (fun _ => rfl) (fun _ _ _ => rfl)]
  rfl

theorem declarationsOf_completed (id : ModuleId) :
    index.completed.declarationsOf id = index.declarationsOf id := by
  rw [declarationsOf, map_completed_ground index (fun _ _ _ _ => rfl) (fun _ => rfl) (fun _ _ _ => rfl)]
  rfl

theorem nameOf?_completed (id : ModuleId) : index.completed.nameOf? id = index.nameOf? id :=
  map_completed_ground index (fun _ _ _ _ => rfl) (fun _ => rfl) (fun _ _ _ => rfl) id

theorem nameOf?_of_lt {index : Index} {id : ModuleId} (h : id < index.modules.size) :
    index.nameOf? id = some (index.completed.moduleName id) := by
  rw [moduleName, ← nameOf?, nameOf?_completed, nameOf?, Array.getElem?_eq_getElem h]
  rfl

/-- Completing an index loses no reference. -/
theorem packageRefsOf_completed {id : ModuleId} {package : String} (h : package ∈ index.packageRefsOf id) :
    package ∈ index.completed.packageRefsOf id := by
  refine inheritAll_induct (P := fun i => package ∈ i.packageRefsOf id) ?_
    fun _ _ _ _ hi => mem_packageRefsOf_refer_of_mem hi
  have e := map_of_ground_eq (f := fun record => record.packageRefs.keys) (fun _ => rfl)
    (steps_spreadAll index.drawn).ground_eq id
  change package ∈ (index.drawn.spreadAll.modules[id]?.map (·.packageRefs.keys)).getD []
  rw [e, drawn, getElem?_foldl_addEdge, Option.map_map]
  exact h

theorem exists_record_completed {index : Index} {id : ModuleId} (hlt : id < index.modules.size) :
    ∃ record, index.completed.modules[id]? = some record := by
  have e := nameOf?_completed index id
  rw [nameOf?, nameOf?, Array.getElem?_eq_getElem hlt] at e
  obtain ⟨record, hr, -⟩ := Option.map_eq_some_iff.mp e
  exact ⟨record, hr⟩

theorem names_completed :
    (index.completed.byName, index.completed.aliases) = (index.byName, index.aliases) := by
  refine inheritAll_induct (P := fun i => (i.byName, i.aliases) = (index.byName, index.aliases)) ?_
    fun _ _ _ _ h => h
  have hspread := congrArg (fun i => (byName i, aliases i)) (steps_spreadAll index.drawn).ground_eq
  have hdrawn := congrArg (fun i => (byName i, aliases i)) (foldl_addEdge_eq index.allEdges index)
  exact hspread.trans hdrawn

theorem resolve_completed : index.completed.resolve = index.resolve := by
  have hnames := names_completed index
  rw [Prod.mk.injEq] at hnames
  funext declaration
  rw [resolve, resolve]
  congr 1
  funext name
  rw [findModule?, hnames.1, hnames.2]
  rfl

end Completed

end Index

namespace Build

theorem run_index (findings : List Finding) : (run findings).index = (ofFindings findings).index.completed := by
  rw [run, complete]
  exact congrArg (fun index : Index => index.spreadAll.linkSupertypes.1.inheritAll) (drawEdges_index _)

end Build

end ModuleAudit
