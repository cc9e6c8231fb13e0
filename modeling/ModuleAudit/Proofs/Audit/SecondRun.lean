import ModuleAudit.Proofs.Audit.Classified
import ModuleAudit.Proofs.Build.WellFormed
import ModuleAudit.Proofs.Visibility.Marked
import ModuleAudit.Proofs.Visibility.Repeated

/-! What a second run of spreading means for the search for unused dependencies. The edges that it appends lead to
modules that the same module has an edge to already, and only the first edge to a module is judged. Linking does not
read the edges, so this is so whether or not classes are linked in between. -/

namespace ModuleAudit
set_option autoImplicit false

namespace Index

/-! ## Edges that are not judged -/

theorem firstEdges_append (edges added : List DependencyEdge) : firstEdges (edges ++ added) =
    firstEdges edges ++ (firstEdges added).filter fun later => edges.all fun edge => later.target ≠ edge.target := by
  induction edges with
  | nil => simp [firstEdges]
  | cons edge rest ih =>
    simp only [List.cons_append, firstEdges, ih, List.filter_append, List.filter_filter, List.all_cons]

theorem firstEdges_append_of_known {edges added : List DependencyEdge}
    (h : ∀ later ∈ added, ∃ edge ∈ edges, edge.target = later.target) :
    firstEdges (edges ++ added) = firstEdges edges := by
  have hnone : (firstEdges added).filter (fun later => edges.all fun edge => later.target ≠ edge.target) = [] := by
    refine List.filter_eq_nil_iff.mpr fun later hl hall => ?_
    obtain ⟨edge, he, ht⟩ := h later (List.mem_of_find?_eq_some (mem_firstEdges.mp hl))
    exact absurd ht.symm (by simpa using List.all_eq_true.mp hall edge he)
  rw [firstEdges_append, hnone, List.append_nil]

section Append

variable {index : Index} {edges : ModuleId → List DependencyEdge}

/-- A view of records that does not read the edges. -/
theorem map_appendEdges {α : Type} {f : ModuleRecord → α}
    (hf : ∀ record added, f (ModuleRecord.appendEdges record added) = f record) (id : ModuleId) :
    (index.appendEdges edges).modules[id]?.map f = index.modules[id]?.map f := by
  rw [getElem?_appendEdges, Option.map_map]
  congr 1
  funext record
  exact hf record _

theorem dependenciesOf_appendEdges {id : ModuleId} (hlt : id < index.modules.size) :
    (index.appendEdges edges).dependenciesOf id = index.dependenciesOf id ++ edges id := by
  rw [dependenciesOf, dependenciesOf, getElem?_appendEdges, Array.getElem?_eq_getElem hlt]
  rfl

theorem moduleName_appendEdges : (index.appendEdges edges).moduleName = index.moduleName := by
  funext id
  rw [moduleName, moduleName, map_appendEdges fun _ _ => rfl]

theorem usage_appendEdges : (index.appendEdges edges).usage = index.usage := by
  funext id edge
  simp only [usage, getElem?_appendEdges]
  cases index.modules[id]? with
  | none => rfl
  | some record =>
    cases index.modules[edge.target]? with
    | none => rfl
    | some provider => rfl

theorem judgements_appendEdges
    (h : ∀ id, ∀ later ∈ edges id, ∃ edge ∈ index.dependenciesOf id, edge.target = later.target) :
    (index.appendEdges edges).judgements = index.judgements := by
  rw [judgements, judgements, judgementsOn_eq, judgementsOn_eq, size_congr ground_appendEdges, usage_appendEdges]
  refine List.flatMap_congr fun id hid => ?_
  rw [dependenciesOf_appendEdges (List.mem_range.mp hid), firstEdges_append_of_known (h id)]

theorem unusedDependencies_appendEdges
    (h : ∀ id, ∀ later ∈ edges id, ∃ edge ∈ index.dependenciesOf id, edge.target = later.target) :
    (index.appendEdges edges).unusedDependencies = index.unusedDependencies := by
  have hfinding : (index.appendEdges edges).findingOf? = index.findingOf? := by
    funext judgement
    rw [findingOf?, findingOf?, moduleName_appendEdges]
  rw [unusedDependencies, unusedDependencies, judgements_appendEdges h, hfinding]

/-! ## Linking -/

theorem visibleClass?_appendEdges : (index.appendEdges edges).visibleClass? = index.visibleClass? := by
  funext id name
  refine visibleClass?_congr (core_of_ground_eq ground_appendEdges) fun package _ => ?_
  rw [through, through, map_appendEdges fun _ _ => rfl]

theorem linkSupertypes_appendEdges :
    (index.appendEdges edges).linkSupertypes.1 = index.linkSupertypes.1.appendEdges edges := by
  have hlink : (index.appendEdges edges).linkClass = index.linkClass := by
    funext record
    rw [linkClass, linkClass, visibleClass?_appendEdges]
  simp only [linkSupertypes, hlink]
  rfl

theorem refer_appendEdges (index : Index) (edges : ModuleId → List DependencyEdge) (module : ModuleId)
    (typeName : String) (n : UInt32) :
    (index.appendEdges edges).refer module typeName n = (index.refer module typeName n).appendEdges edges := by
  refine congrArg (fun modules => { index.pooling (·.addPackage typeName) with modules })
    (Array.ext_getElem? fun id => ?_)
  have hrefer : (index.refer module typeName n).modules[id]? = if module = id then
      index.modules[id]?.map (·.refer typeName (packageOf? typeName) n) else index.modules[id]? := Array.getElem?_modify
  have happend : ((index.appendEdges edges).pooling (·.addPackage typeName)).modules[id]? =
      index.modules[id]?.map (·.appendEdges (edges id)) := getElem?_appendEdges id
  rw [Array.getElem?_modify, Array.getElem?_mapIdx, hrefer, happend]
  split
  · rw [Option.map_map, Option.map_map]
    rfl
  · rfl

theorem inheritAll_appendEdges : (index.appendEdges edges).inheritAll = index.inheritAll.appendEdges edges := by
  have hfold : ∀ (inherited : List (ModuleId × String)) (index : Index),
      inherited.foldl inheritRef (index.appendEdges edges) = (inherited.foldl inheritRef index).appendEdges edges := by
    intro inherited
    induction inherited with
    | nil => exact fun _ => rfl
    | cons first rest ih =>
      intro index
      rw [List.foldl_cons, List.foldl_cons, inheritRef, inheritRef, refer_appendEdges, ih]
  have hinheritances : (index.appendEdges edges).inheritances = index.inheritances := rfl
  rw [inheritAll_eq, inheritAll_eq, hinheritances, hfold]

end Append

/-! ## Two runs -/

/-- The edges that the second run appends lead where an edge of the same module leads after the first. -/
theorem known_of_mem_directEdges {index : Index} {id : ModuleId} {later : DependencyEdge}
    (h : later ∈ index.directEdges id) : ∃ edge ∈ index.spreadAll.dependenciesOf id, edge.target = later.target := by
  obtain ⟨source, -, hsource⟩ := List.mem_flatMap.mp h
  obtain ⟨edge, hedge, rfl⟩ := List.mem_map.mp hsource
  obtain ⟨hmem, hpass⟩ := List.mem_filter.mp hedge
  rw [Bool.and_eq_true, decide_eq_true_eq, List.any_eq_true] at hpass
  obtain ⟨rfl, package, hp, hi⟩ := hpass
  have hground := (steps_spreadAll index).ground_eq
  rw [← dependentsOf_congr hground] at hmem
  rw [← packagesOf_congr hground] at hp
  rw [← imports_congr hground] at hi
  obtain ⟨record, hr, hshows⟩ := showsOwn_spreadAll index source edge hmem package hp hi
  refine ⟨_, ?_, rfl⟩
  rw [dependenciesOf, hr]
  exact hshows.listed

theorem dependenciesOf_linked (index : Index) (id : ModuleId) :
    index.linkSupertypes.1.inheritAll.dependenciesOf id = index.dependenciesOf id := by
  refine inheritAll_induct (P := fun i => i.dependenciesOf id = index.dependenciesOf id) rfl ?_
  intro i module typeName n h
  rw [← h, dependenciesOf, dependenciesOf, map_refer fun _ _ _ _ => rfl]

/-- Spreading ends when it is run again, and then it has appended the edges that import a package of the module they
lead to and changed nothing else. The search for unused dependencies finds the same, with classes linked before it or
not. Every call ends as well, from any path, and no task leaves other marks than it found. -/
theorem second_spread_only_appends (index : Index) (h : index.EdgesInRange) :
    (∀ final, Performs (.modules (List.range index.modules.size)) ⟨∅, index⟩ final ↔ final = ⟨∅, index.spreadAll⟩) ∧
    (∀ final, Performs (.modules (List.range index.spreadAll.modules.size)) ⟨∅, index.spreadAll⟩ final ↔
      final = ⟨∅, index.spreadAll.spreadAll⟩) ∧
    index.spreadAll.spreadAll = index.spreadAll.appendEdges index.directEdges ∧
    index.spreadAll.spreadAll.unusedDependencies = index.spreadAll.unusedDependencies ∧
    index.spreadAll.spreadAll.linkSupertypes.1.inheritAll.unusedDependencies =
      index.spreadAll.linkSupertypes.1.inheritAll.unusedDependencies ∧
    (∀ path packages source, path.Nodup → (∀ id ∈ path, id < index.modules.size) → source < index.modules.size →
      ∀ final, Performs (.call packages source) ⟨path.toFinset, index⟩ final ↔
        final = ⟨path.toFinset, spreadIn (index.modules.size - path.length) path packages source index⟩) ∧
    ∀ task start final, Performs task start final → final.marks = start.marks := by
  have hagain : index.spreadAll.EdgesInRange := h.congr (steps_spreadAll index).ground_eq
  have hknown : ∀ id, ∀ later ∈ index.directEdges id,
      ∃ edge ∈ index.spreadAll.dependenciesOf id, edge.target = later.target :=
    fun _ _ hl => known_of_mem_directEdges hl
  refine ⟨h.performs_iff, hagain.performs_iff, spreadAll_spreadAll index, ?_, ?_, ?_, fun _ _ _ hp => hp.marks_eq⟩
  · rw [spreadAll_spreadAll]
    exact unusedDependencies_appendEdges hknown
  · rw [spreadAll_spreadAll, linkSupertypes_appendEdges, inheritAll_appendEdges]
    refine unusedDependencies_appendEdges fun id later hl => ?_
    rw [dependenciesOf_linked]
    exact hknown id later hl
  · intro path packages source hnodup hpath hlt final
    exact h.performs_call_iff packages hlt hnodup hpath final

/-- In the pair of modules that pass everything on to each other, the second run appends one edge to each. -/
theorem second_spread_only_appends_mutualPair :
    mutualPair.EdgesInRange ∧ mutualPair.directEdges 0 = [⟨1, 0⟩] ∧ mutualPair.directEdges 1 = [⟨0, 0⟩] ∧
      mutualPair.spreadAll.spreadAll = mutualPair.spreadAll.appendEdges mutualPair.directEdges ∧
      mutualPair.spreadAll.spreadAll.unusedDependencies = mutualPair.spreadAll.unusedDependencies ∧
      (∀ final, Performs (.modules [0, 1]) ⟨∅, mutualPair.spreadAll⟩ final ↔
        final = ⟨∅, mutualPair.spreadAll.spreadAll⟩) ∧
      ∀ final, Performs (.call ["pa"] 1) ⟨{0}, mutualPair⟩ final ↔
        final = ⟨{0}, spreadIn 1 [0] ["pa"] 1 mutualPair⟩ := by
  have hrange : mutualPair.EdgesInRange := by
    intro source
    rcases source with - | - | source
    · decide
    · decide
    · simp [dependentsOf, mutualPair]
  obtain ⟨-, hsecond, happended, hunused, -, hcalls, -⟩ := second_spread_only_appends mutualPair hrange
  have hmodules : List.range mutualPair.spreadAll.modules.size = [0, 1] := by decide +kernel
  rw [hmodules] at hsecond
  exact ⟨hrange, by decide +kernel, by decide +kernel, happended, hunused, hsecond,
    hcalls [0] ["pa"] 1 (by decide) (by decide) (by decide)⟩

end Index

end ModuleAudit
