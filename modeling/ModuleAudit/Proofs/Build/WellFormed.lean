import ModuleAudit.Proofs.Build.Ready

/-! Every index that a build passes through is well-formed (`Passes.wellFormed`): what it stores is in range, a module
is registered under its own name, and a class is filed under its name in its module. The stages after the contents
store only what they find in the index. -/

namespace ModuleAudit
set_option autoImplicit false

open NamePool

namespace Index

theorem InRange.empty : InRange {} := by
  refine ⟨by simp, by simp, ?_, ?_, by simp⟩
  · intro name id h
    simp [OrderedMap.get?] at h
  · intro name target h
    simp [OrderedMap.get?] at h

/-! ## Edges and packages -/

theorem InRange.foldl_addEdge {edges : List (ModuleId × DependencyEdge)} {index : Index} (h : index.InRange)
    (hedges : ∀ edge ∈ edges, edge.2.target < index.modules.size ∧
      edge.2.declaration < (index.declarationsOf edge.1).length) : (edges.foldl Index.addEdge index).InRange := by
  induction edges generalizing index with
  | nil => exact h
  | cons edge rest ih =>
    rw [List.forall_mem_cons] at hedges
    have hsize : (index.addEdge edge).modules.size = index.modules.size :=
      Array.size_modify.trans Array.size_modify
    have hdeclared : (index.addEdge edge).declarationsOf = index.declarationsOf :=
      declarationsOf_foldl_addEdge [edge] index
    refine ih (h.addEdge hedges.1.1 hedges.1.2) ?_
    rw [hsize, hdeclared]
    exact hedges.2

/-- The edges that are drawn lead from declarations to modules. -/
theorem Gathered.inRange_of_mem_allEdges {index : Index} (hg : index.Gathered) {edge : ModuleId × DependencyEdge}
    (h : edge ∈ index.allEdges) :
    edge.2.target < index.modules.size ∧ edge.2.declaration < (index.declarationsOf edge.1).length := by
  obtain ⟨id, -, hid⟩ := List.mem_flatMap.mp h
  obtain ⟨out, ho, rfl⟩ := List.mem_map.mp hid
  obtain ⟨⟨declaration, i⟩, hentry, hr⟩ := List.mem_filterMap.mp ho
  obtain ⟨target, ht, rfl⟩ := Option.map_eq_some_iff.mp hr
  exact ⟨hg.lt_size_of_resolve ht, (List.getElem?_eq_some_iff.mp (List.mem_zipIdx_iff_getElem?.mp hentry)).1⟩

/-- The package is one of the packages of the modules. -/
def HeldSomewhere (index : Index) (_ : ModuleId) (package : String) : Prop := ∃ id, package ∈ index.packagesOf id

theorem InRange.has_of_mem_packagesOf {index : Index} (h : index.InRange) {id : ModuleId} {package : String}
    (hp : package ∈ index.packagesOf id) : index.pool.Has package := by
  rw [packagesOf] at hp
  cases hr : index.modules[id]? with
  | none => simp [hr] at hp
  | some record => exact (h.modules record (Array.mem_of_getElem? hr)).packages package (by simpa [hr] using hp)

theorem InRange.of_mem_dependentsOf {index : Index} (h : index.InRange) {source : ModuleId} {edge : DependentEdge}
    (he : edge ∈ index.dependentsOf source) : source < index.modules.size ∧ edge.dependent < index.modules.size ∧
      edge.declaration < (index.declarationsOf edge.dependent).length := by
  rw [dependentsOf] at he
  cases hr : index.modules[source]? with
  | none => simp [hr] at he
  | some record =>
    exact ⟨(Array.getElem?_eq_some_iff.mp hr).1,
      (h.modules record (Array.mem_of_getElem? hr)).dependents edge (by simpa [hr] using he)⟩

theorem InRange.step {base index other : Index} (h : index.InRange) (hbase : base.InRange)
    (hpool : index.pool = base.pool) (hs : Step base.HeldSomewhere index other) : other.InRange := by
  cases hs with
  | @provide source edge packages member nonempty arrive =>
    obtain ⟨hsource, -, hdeclared⟩ := h.of_mem_dependentsOf member
    refine h.updateModule _ _ (fun _ => Nat.le_refl _) fun record hr hrecord => ?_
    rw [declarationsOf, hr] at hdeclared
    refine hrecord.provide (fun package hp => ?_) hsource hdeclared
    obtain ⟨id, hid⟩ := (arrive package hp).1
    rw [hpool]
    exact hbase.has_of_mem_packagesOf hid
  | @reExport source edge package member arrives imported exported =>
    exact h.updateModule _ _ (fun _ => Nat.le_refl _) fun record _ hrecord =>
      hrecord.reExport (h.of_mem_dependentsOf member).1

theorem InRange.steps {base index : Index} (h : base.InRange) (hs : Steps base.HeldSomewhere base index) :
    index.InRange := by
  induction hs with
  | refl => exact h
  | tail hs hstep ih =>
    have hpool := congrArg Index.pool (Steps.ground_eq hs)
    exact ih.step h hpool hstep

/-- Spreading makes packages of modules visible and no others. -/
theorem steps_heldSomewhere (index : Index) : Steps index.HeldSomewhere index index.spreadAll :=
  spreadAll_steps index (fun _ _ _ _ h _ _ => h) fun id _ hp => ⟨id, hp⟩

/-! ## Links -/

/-- The index with its first `n` classes linked. -/
def linkFirst (index : Index) (n : Nat) : Index :=
  { index with classes := index.classes.mapIdx fun id record => if id < n then (index.linkClass record).1 else record }

theorem linkFirst_size (index : Index) : index.linkFirst index.classes.size = index.linkSupertypes.1 := by
  refine congrArg (fun classes => { index with classes }) (Array.ext_getElem? fun id => ?_)
  rw [Array.getElem?_mapIdx, Array.map_map, Array.getElem?_map]
  cases hr : index.classes[id]? with
  | none => rfl
  | some record =>
    have hlt := (Array.getElem?_eq_some_iff.mp hr).1
    simp [hlt]

theorem InRange.lt_of_ownClass? {index : Index} (h : index.InRange) {id : ModuleId} {name : String} {classId : ClassId}
    (hown : index.ownClass? id name = some classId) : classId < index.classes.size := by
  obtain ⟨record, hr, hget⟩ := Option.bind_eq_some_iff.mp hown
  exact ((h.modules record (Array.mem_of_getElem? hr)).classes name classId hget).2

theorem InRange.lt_of_visibleClass? {index : Index} (h : index.InRange) {id : ModuleId} {name : String}
    {classId : ClassId} (hv : index.visibleClass? id name = some classId) : classId < index.classes.size := by
  rw [visibleClass?] at hv
  split at hv
  · rename_i hown
    rw [← Option.some.inj hv]
    exact h.lt_of_ownClass? hown
  · obtain ⟨provider, -, hown⟩ := List.exists_of_findSome?_eq_some hv
    exact h.lt_of_ownClass? hown

theorem InRange.linkClass {index : Index} (h : index.InRange) {record : ClassRecord} (hr : record.InRange index) :
    (index.linkClass record).1.InRange index := by
  refine { hr with links := fun classId hc => ?_ }
  rcases List.mem_append.mp hc with hsuper | hinterface
  · obtain ⟨name, -, hv⟩ := Option.bind_eq_some_iff.mp (Option.mem_toList.mp hsuper)
    exact h.lt_of_visibleClass? hv
  · rcases (OrderedSet.mem_insertAll _ _ _).mp hinterface with hold | hnew
    · exact hr.links classId (List.mem_append_right _ hold)
    · obtain ⟨name, -, hv⟩ := List.mem_filterMap.mp hnew
      exact h.lt_of_visibleClass? hv

theorem InRange.linkFirst {index : Index} (h : index.InRange) (n : Nat) : (index.linkFirst n).InRange := by
  have hg : index.Grown (index.linkFirst n) :=
    ⟨fun _ hn => hn, Nat.le_refl _, Nat.le_of_eq Array.size_mapIdx.symm, fun _ => Nat.le_refl _⟩
  refine h.of_grown hg (fun _ hr => Or.inl hr) (fun record hr => ?_) rfl rfl
  obtain ⟨id, hid⟩ := Array.mem_iff_getElem?.mp hr
  rw [Index.linkFirst, Array.getElem?_mapIdx] at hid
  obtain ⟨old, hold, rfl⟩ := Option.map_eq_some_iff.mp hid
  have hin := h.classes old (Array.mem_of_getElem? hold)
  split
  · exact Or.inr ((h.linkClass hin).grown hg)
  · exact Or.inl (Array.mem_of_getElem? hold)

/-! ## What is inherited -/

/-- What a class inherits, with the module of the class. -/
def inheritancesOf (index : Index) (id : ClassId) : List (ModuleId × String) :=
  (index.classes[id]?.map fun record => (index.inheritedRefs id).map (record.module, ·)).getD []

/-- What classes inherit, each with the module of the class that inherits it. -/
def inheritances (index : Index) : List (ModuleId × String) :=
  (List.range index.classes.size).flatMap index.inheritancesOf

/-- Makes a module refer to what one of its classes inherits. -/
def inheritRef (index : Index) (inherited : ModuleId × String) : Index := index.refer inherited.1 inherited.2 1

theorem kept_foldl_inheritRef (inherited : List (ModuleId × String)) (index : Index) :
    (inherited.foldl inheritRef index).byName = index.byName ∧
    (inherited.foldl inheritRef index).classes = index.classes ∧
    ∀ id : ModuleId, (inherited.foldl inheritRef index).modules[id]?.map (fun r => (r.name, r.classes)) =
      index.modules[id]?.map fun r => (r.name, r.classes) := by
  induction inherited generalizing index with
  | nil => exact ⟨rfl, rfl, fun _ => rfl⟩
  | cons first rest ih =>
    obtain ⟨hn, hc, hm⟩ := ih (index.inheritRef first)
    exact ⟨hn, hc, fun id => (hm id).trans (map_refer (fun _ _ _ _ => rfl) _ _ _ _ _)⟩

theorem inheritClass_eq_foldl {i j : Index} (h : i.classes = j.classes) (id : ClassId) :
    i.inheritClass id = (j.inheritancesOf id).foldl inheritRef i := by
  rw [inheritClass, inheritancesOf, h, inheritedRefs_congr h]
  cases j.classes[id]? with
  | none => rfl
  | some record =>
    rw [Option.map_some, Option.getD_some, List.foldl_map]
    rfl

theorem inheritAll_eq (index : Index) : index.inheritAll = index.inheritances.foldl inheritRef index := by
  have hfold : ∀ (ids : List ClassId) (i : Index), i.classes = index.classes →
      ids.foldl inheritClass i = (ids.flatMap index.inheritancesOf).foldl inheritRef i := by
    intro ids
    induction ids with
    | nil => exact fun _ _ => rfl
    | cons id rest ih =>
      intro i hi
      rw [List.foldl_cons, inheritClass_eq_foldl hi, ih _ ((kept_foldl_inheritRef _ i).2.1.trans hi),
        List.flatMap_cons, List.foldl_append]
  exact hfold _ index rfl

theorem InRange.has_of_mem_inheritances {index : Index} (h : index.InRange) {inherited : ModuleId × String}
    (hi : inherited ∈ index.inheritances) : index.pool.Has inherited.2 := by
  obtain ⟨id, -, hid⟩ := List.mem_flatMap.mp hi
  rw [inheritancesOf] at hid
  cases hr : index.classes[id]? with
  | none => simp [hr] at hid
  | some record =>
    rw [hr] at hid
    obtain ⟨name, hname, rfl⟩ := List.mem_map.mp hid
    obtain ⟨ancestor, -, hm⟩ := List.mem_flatMap.mp hname
    rw [memberRefsOf] at hm
    cases ha : index.classes[ancestor]? with
    | none => simp [ha] at hm
    | some found => exact (h.classes found (Array.mem_of_getElem? ha)).memberRefs name (by simpa [ha] using hm)

theorem InRange.foldl_inheritRef {inherited : List (ModuleId × String)} {index : Index} (h : index.InRange)
    (hall : ∀ entry ∈ inherited, index.pool.Has entry.2) : (inherited.foldl inheritRef index).InRange := by
  induction inherited generalizing index with
  | nil => exact h
  | cons first rest ih =>
    rw [List.forall_mem_cons] at hall
    exact ih (h.refer hall.1 first.1 1) fun entry he => (grown_refer index _ _ _).names _ (hall.2 entry he)

/-! ## Names of modules and classes -/

/-- What is stored is in range, exactly the modules are registered, each under its own name, and what a module has
under a name is a class of its own with that name. -/
structure WellFormed (index : Index) : Prop where
  inRange : index.InRange
  named : ∀ name id, index.byName.get? name = some id ↔ index.nameOf? id = some name
  filed : ∀ id name classId, index.ownClass? id name = some classId →
    ∃ record, index.classes[classId]? = some record ∧ record.name = some name ∧ record.module = id

theorem Filed.wellFormed {index : Index} (h : index.Filed) (hr : index.InRange)
    (hn : ∀ name id, index.byName.get? name = some id ↔ index.nameOf? id = some name) : index.WellFormed := by
  refine ⟨hr, hn, fun id name classId hown => ?_⟩
  have hlast := h.filed id name
  rw [hown, Option.map_some] at hlast
  obtain ⟨record, hrecord, he⟩ := Option.map_eq_some_iff.mp hlast.symm
  have hfound := List.find?_some hrecord
  simp only [decide_eq_true_eq] at hfound
  exact ⟨record, he.symm, hfound.2, hfound.1⟩

/-- What keeps the registered names, and the names and classes of records, keeps all but the ranges. -/
theorem WellFormed.of_map {i j : Index} (h : i.WellFormed) (hr : j.InRange) (hn : j.byName = i.byName)
    (hmap : ∀ id : ModuleId, j.modules[id]?.map (fun r => (r.name, r.classes)) =
      i.modules[id]?.map fun r => (r.name, r.classes))
    (hclasses : ∀ classId : ClassId, j.classes[classId]?.map (fun r => (r.name, r.module)) =
      i.classes[classId]?.map fun r => (r.name, r.module)) : j.WellFormed := by
  have hname : ∀ id, j.nameOf? id = i.nameOf? id := by
    intro id
    have e := congrArg (Option.map Prod.fst) (hmap id)
    simp only [Option.map_map] at e
    exact e
  have hown : ∀ id name, j.ownClass? id name = i.ownClass? id name := by
    intro id name
    have e := congrArg (Option.bind · fun known => known.2.get? name) (hmap id)
    simp only [Option.bind_map] at e
    exact e
  refine ⟨hr, fun name id => by rw [hn, hname]; exact h.named name id, fun id name classId ho => ?_⟩
  rw [hown] at ho
  obtain ⟨record, hrecord, hrname, hrmodule⟩ := h.filed id name classId ho
  have e := hclasses classId
  rw [hrecord, Option.map_some] at e
  obtain ⟨found, hfound, he⟩ := Option.map_eq_some_iff.mp e
  obtain ⟨hen, hem⟩ := Prod.mk.inj he
  exact ⟨found, hfound, hen.trans hrname, hem.trans hrmodule⟩

theorem WellFormed.foldl_addEdge {index : Index} (h : index.WellFormed) {edges : List (ModuleId × DependencyEdge)}
    (hr : (edges.foldl Index.addEdge index).InRange) : (edges.foldl Index.addEdge index).WellFormed := by
  refine h.of_map hr ?_ (fun id => ?_) (fun classId => ?_)
  · rw [foldl_addEdge_eq]
  · rw [getElem?_foldl_addEdge, Option.map_map]
    rfl
  · rw [foldl_addEdge_eq]

theorem WellFormed.steps {base index : Index} (h : base.WellFormed) (hs : Steps base.HeldSomewhere base index) :
    index.WellFormed := by
  have hg := Steps.ground_eq hs
  have hnames := congrArg Index.byName hg
  have hclasses := classes_of_core_eq (core_of_ground_eq hg)
  exact h.of_map (h.inRange.steps hs) hnames (map_of_ground_eq (fun _ => rfl) hg) fun _ => by rw [hclasses]

theorem WellFormed.linkFirst {index : Index} (h : index.WellFormed) (n : Nat) : (index.linkFirst n).WellFormed := by
  refine h.of_map (h.inRange.linkFirst n) rfl (fun _ => rfl) fun classId => ?_
  rw [Index.linkFirst, Array.getElem?_mapIdx, Option.map_map]
  refine congrArg (Option.map · _) (funext fun record => ?_)
  simp only [Function.comp_apply]
  split <;> rfl

theorem WellFormed.foldl_inheritRef {inherited : List (ModuleId × String)} {index : Index} (h : index.WellFormed)
    (hr : (inherited.foldl inheritRef index).InRange) : (inherited.foldl inheritRef index).WellFormed := by
  obtain ⟨hn, hc, hm⟩ := kept_foldl_inheritRef inherited index
  exact h.of_map hr hn hm fun _ => by rw [hc]

end Index

/-! ## All of a build -/

theorem Change.byName_foldl_apply (module : ModuleId) (changes : List Change) (index : Index) :
    (changes.foldl (Change.apply module) index).byName = index.byName := by
  induction changes generalizing index with
  | nil => rfl
  | cons change rest ih =>
    rw [List.foldl_cons, ih]
    cases change with
    | attach record => rw [Change.apply, Index.attachClass_eq]
    | _ => rfl

namespace Build

open Index

/-- The indexes that a build of findings passes through. -/
inductive Passes (findings : List Finding) : Index → Prop where
  /-- Some of the findings have been added. -/
  | found {done rest : List Finding} (split : findings = done ++ rest) : Passes findings (ofFindings done).index
  /-- Some of what is in the next module has been added. -/
  | filled {done rest : List Finding} {finding : Finding} {name : String} {mainClass : Option String}
      {roots : List ResourceRoot} {dependencies : List Dependency} {before after : List Change}
      (split : findings = done ++ finding :: rest)
      (spec : finding.spec? = some (.module name mainClass roots dependencies))
      (contents : contentChanges ((ofFindings done).index.addModule name).2 mainClass roots dependencies =
        before ++ after) :
      Passes findings (before.foldl (Change.apply ((ofFindings done).index.addModule name).2)
        ((ofFindings done).index.addModule name).1)
  /-- Some of the edges have been drawn. -/
  | drawn {before after : List (ModuleId × DependencyEdge)}
      (edges : (ofFindings findings).index.allEdges = before ++ after) :
      Passes findings (before.foldl addEdge (ofFindings findings).index)
  /-- Some packages have become visible. -/
  | spread {index : Index} (steps : Steps (ofFindings findings).drawEdges.index.HeldSomewhere
      (ofFindings findings).drawEdges.index index) : Passes findings index
  /-- Some classes have been linked. -/
  | linked (n : Nat) : Passes findings ((ofFindings findings).drawEdges.index.spreadAll.linkFirst n)
  /-- Some of what classes inherit is referred to. -/
  | inherited {before after : List (ModuleId × String)}
      (split : (ofFindings findings).drawEdges.index.spreadAll.linkSupertypes.1.inheritances = before ++ after) :
      Passes findings
        (before.foldl inheritRef (ofFindings findings).drawEdges.index.spreadAll.linkSupertypes.1)

theorem ofFindings_inRange (findings : List Finding) : (ofFindings findings).index.InRange := by
  refine ofFindings_induct (P := fun _ index => index.InRange) InRange.empty ?_ ?_ ?_ findings
  · exact fun _ _ _ _ _ h => h
  · exact fun _ _ _ name target _ _ h => h.addAlias name target
  · intro done finding index name mainClass roots dependencies _ hg h
    exact (h.addModule name).foldl_apply _ (fun _ => tame_of_mem_contentChanges)
      (allReady_contentChanges mainClass roots dependencies (lt_size_of_nameOf? (hg.addModule name).2))

theorem ofFindings_wellFormed (findings : List Finding) : (ofFindings findings).index.WellFormed :=
  (ofFindings_filed findings).wellFormed (ofFindings_inRange findings)
    (ofFindings_gathered (fun _ _ => true) findings).1.named

theorem drawn_wellFormed {findings : List Finding} {before after : List (ModuleId × DependencyEdge)}
    (h : (ofFindings findings).index.allEdges = before ++ after) :
    (before.foldl addEdge (ofFindings findings).index).WellFormed := by
  have hg := (ofFindings_gathered (fun _ _ => true) findings).1
  refine (ofFindings_wellFormed findings).foldl_addEdge ((ofFindings_inRange findings).foldl_addEdge fun edge he => ?_)
  exact hg.inRange_of_mem_allEdges (h ▸ List.mem_append_left _ he)

theorem filled_wellFormed {index : Index} (h : index.InRange) (hg : index.Gathered) (hf : index.Filed) {name : String}
    {mainClass : Option String} {roots : List ResourceRoot} {dependencies : List Dependency}
    {before after : List Change}
    (hc : contentChanges (index.addModule name).2 mainClass roots dependencies = before ++ after) :
    (before.foldl (Change.apply (index.addModule name).2) (index.addModule name).1).WellFormed := by
  obtain ⟨hadded, hname⟩ := hg.addModule name
  have hready := allReady_contentChanges mainClass roots dependencies (lt_size_of_nameOf? hname)
  rw [hc, Change.allReady_append] at hready
  have hattached : ∀ record ∈ before.flatMap Change.attached, record.module = (index.addModule name).2 ∧
      record.Unlinked := by
    intro record hr
    have hin : record ∈ (contentChanges (index.addModule name).2 mainClass roots dependencies).flatMap
        Change.attached := by
      rw [hc, List.flatMap_append]
      exact List.mem_append_left _ hr
    exact ⟨module_of_attached hin, unlinked_of_attached hin⟩
  refine ((hf.addModule name).foldl_apply before hname hattached).wellFormed
    ((h.addModule name).foldl_apply before (fun change hm => ?_) hready.1) fun other id => ?_
  · exact tame_of_mem_contentChanges (hc ▸ List.mem_append_left _ hm)
  · rw [Change.byName_foldl_apply, Change.nameOf?_foldl_apply]
    exact hadded.named other id

section Ends

variable (findings : List Finding)

theorem passes_drawEdges : Passes findings (ofFindings findings).drawEdges.index := by
  rw [drawEdges_index]
  exact .drawn (List.append_nil _).symm

theorem passes_spreadAll : Passes findings (ofFindings findings).drawEdges.index.spreadAll :=
  .spread (steps_heldSomewhere _)

theorem passes_linkSupertypes : Passes findings (ofFindings findings).drawEdges.index.spreadAll.linkSupertypes.1 :=
  .inherited (List.nil_append _).symm

theorem run_index_eq : (run findings).index =
    (ofFindings findings).drawEdges.index.spreadAll.linkSupertypes.1.inheritAll := by
  rw [run_index, completed, drawEdges_index]

theorem passes_run : Passes findings (run findings).index := by
  rw [run_index_eq, inheritAll_eq]
  exact .inherited (List.append_nil _).symm

end Ends

theorem Passes.wellFormed {findings : List Finding} {index : Index} (h : Passes findings index) :
    index.WellFormed := by
  have hdrawn : (ofFindings findings).drawEdges.index.WellFormed := by
    rw [drawEdges_index]
    exact drawn_wellFormed (List.append_nil _).symm
  have hspread := hdrawn.steps (steps_heldSomewhere _)
  cases h with
  | @found done rest split => exact ofFindings_wellFormed done
  | @filled done rest finding name mainClass roots dependencies before after split spec contents =>
    exact filled_wellFormed (ofFindings_inRange done) (ofFindings_gathered (fun _ _ => true) done).1
      (ofFindings_filed done) contents
  | drawn edges => exact drawn_wellFormed edges
  | spread steps => exact hdrawn.steps steps
  | linked n => exact hspread.linkFirst n
  | inherited split =>
    have hlinked := hspread.linkFirst (ofFindings findings).drawEdges.index.spreadAll.classes.size
    rw [linkFirst_size] at hlinked
    refine hlinked.foldl_inheritRef (hlinked.inRange.foldl_inheritRef fun entry he => ?_)
    exact hlinked.inRange.has_of_mem_inheritances (split ▸ List.mem_append_left _ he)

end Build

end ModuleAudit
