import Mathlib.Data.List.Nodup
import ModuleAudit.Proofs.Audit.Reported

/-! What the search for unused dependencies considers. Spreading adds edges to a module, but none of them leads
where no declaration led before it. So the judgements are on the declared dependencies alone, each of them once
and by its first declaration, and every judgement falls into one of three classes (`Classified`). -/

namespace ModuleAudit
set_option autoImplicit false

namespace Index

/-! ## The dependencies that are considered -/

/-- The modules that the declarations of a module lead to, each once, in the order of their first
declarations. -/
def targetsOf (index : Index) (id : ModuleId) : List ModuleId :=
  ((index.declarationsOf id).filterMap index.resolve).eraseDups

/-- Every module with each of the modules that its declarations lead to. -/
def dependencyPairs (index : Index) : List (ModuleId × ModuleId) :=
  (List.range index.modules.size).flatMap fun id => (index.targetsOf id).map (id, ·)

/-- A pair of modules by their names. -/
def named (index : Index) (pair : ModuleId × ModuleId) : UnusedDependency :=
  ⟨index.moduleName pair.1, index.moduleName pair.2⟩

/-- The pair of modules that a judgement is on. -/
def pairOf (judgement : Judgement) : ModuleId × ModuleId := (judgement.module, judgement.edge.target)

/-- The judgements that keep a dependency for another reason than that it is passed on. -/
def otherwiseUsed (index : Index) : List Judgement :=
  index.judgements.filter fun judgement => judgement.usage ≠ none ∧ judgement.usage ≠ some .reExported

theorem map_target_firstEdges (edges : List DependencyEdge) :
    (firstEdges edges).map (·.target) = (edges.map (·.target)).eraseDups := by
  induction edges with
  | nil => rfl
  | cons edge rest ih =>
    rw [firstEdges, List.map_cons, List.map_cons, eraseDups_cons_eq, ← ih, List.filter_map]
    rfl

theorem map_target_outgoing (index : Index) (id : ModuleId) :
    (index.outgoing id).map (·.target) = (index.declarationsOf id).filterMap index.resolve := by
  have hmap : (index.outgoing id).map (·.target) =
      (index.declarationsOf id).zipIdx.filterMap (fun entry => index.resolve entry.1) := by
    rw [outgoing, List.map_filterMap]
    refine List.filterMap_congr fun entry _ => ?_
    cases hr : index.resolve entry.1 <;> simp [hr]
  have hfst := List.filterMap_map (f := Prod.fst) (g := index.resolve) (l := (index.declarationsOf id).zipIdx)
  rw [List.zipIdx_map_fst] at hfst
  rw [hmap, hfst]
  rfl

theorem judgementsOn_eq (select : List DependencyEdge → List DependencyEdge) (index : Index) :
    index.judgementsOn select = (List.range index.modules.size).flatMap fun module =>
      (select (index.dependenciesOf module)).map fun edge => ⟨module, edge, index.usage module edge⟩ := by
  have hnumbers : List.range index.modules.size = index.modules.toList.zipIdx.map Prod.snd := by
    rw [List.zipIdx_map_snd, List.range_eq_range', Array.length_toList]
  rw [judgementsOn, hnumbers, List.flatMap_map]
  refine List.flatMap_congr fun entry hentry => ?_
  obtain ⟨record, module⟩ := entry
  have hrecord : index.modules[module]? = some record := by
    rw [← Array.getElem?_toList]
    exact List.mem_zipIdx_iff_getElem?.mp hentry
  simp only [dependenciesOf, hrecord, Option.map_some, Option.getD_some]

theorem nodup_dependencyPairs (index : Index) : index.dependencyPairs.Nodup := by
  refine List.nodup_flatMap.mpr ⟨fun id _ => ?_, ?_⟩
  · exact (nodup_eraseDups _).map fun a b h => congrArg Prod.snd h
  · refine List.nodup_range.imp fun {a b} hne pair ha hb => ?_
    obtain ⟨target, -, rfl⟩ := List.mem_map.mp ha
    obtain ⟨other, -, he⟩ := List.mem_map.mp hb
    exact hne (congrArg Prod.fst he).symm

theorem findings_eq (index : Index) : index.unusedDependencies.findings =
    (index.judgements.filter (·.usage = none)).map fun judgement => index.named (pairOf judgement) := by
  simp only [unusedDependencies]
  generalize index.judgements = judgements
  induction judgements with
  | nil => rfl
  | cons judgement rest ih =>
    cases hu : judgement.usage with
    | none => simp [findingOf?, hu, ih, named, pairOf]
    | some usage => simp [findingOf?, hu, ih]

theorem length_classes (judgements : List Judgement) :
    (judgements.filter (·.usage = none)).length +
      (judgements.filter (·.usage = some .reExported)).length +
      (judgements.filter fun judgement => judgement.usage ≠ none ∧ judgement.usage ≠ some .reExported).length =
        judgements.length := by
  induction judgements with
  | nil => rfl
  | cons judgement rest ih =>
    by_cases hnone : judgement.usage = none
    · simp [hnone] at ih ⊢
      omega
    · by_cases hexport : judgement.usage = some .reExported
      · simp [hexport] at ih ⊢
        omega
      · simp [hnone, hexport] at ih ⊢
        omega

/-- The search for unused dependencies judges the declared dependencies that lead to a module, each of them once.
-/
structure Classified (index : Index) : Prop where
  /-- The judgements are on these pairs, in this order. -/
  considered : index.judgements.map pairOf = index.dependencyPairs
  /-- A pair is judged by the first declaration of it. -/
  judged : ∀ judgement ∈ index.judgements, ∃ record provider declared,
    index.modules[judgement.module]? = some record ∧ index.modules[judgement.edge.target]? = some provider ∧
    record.declarations.findIdx? (fun d => index.resolve d = some judgement.edge.target) =
      some judgement.edge.declaration ∧
    record.declarations[judgement.edge.declaration]? = some declared ∧
    judgement.usage = usageOf record judgement.edge.target provider declared
  listed : index.unusedDependencies.findings.Sublist (index.dependencyPairs.map index.named)
  distinct : index.unusedDependencies.findings.Nodup
  /-- A pair is reported, passed on, or used for another reason, and no two of these. -/
  decided : ∀ judgement ∈ index.judgements,
    index.named (pairOf judgement) ∈ index.unusedDependencies.findings ∧ judgement.usage = none ∨
    index.named (pairOf judgement) ∉ index.unusedDependencies.findings ∧ judgement.usage = some .reExported ∨
    index.named (pairOf judgement) ∉ index.unusedDependencies.findings ∧ judgement ∈ index.otherwiseUsed
  total : index.unusedDependencies.findings.length + index.unusedDependencies.exports +
    index.otherwiseUsed.length = index.dependencyPairs.length

section Gathered

variable {index : Index} (hg : index.Gathered)
include hg

omit hg in
theorem mem_targetsOf_completed {id target : ModuleId} : target ∈ index.completed.targetsOf id ↔
    ∃ declared ∈ index.declarationsOf id, index.resolve declared = some target := by
  rw [targetsOf, declarationsOf_completed, resolve_completed, List.mem_eraseDups, List.mem_filterMap]

theorem Gathered.map_target_firstEdges_completed (id : ModuleId) :
    (firstEdges (index.completed.dependenciesOf id)).map (·.target) = index.completed.targetsOf id := by
  obtain ⟨added, hdeps, hadded⟩ := (steps_spreadAll index.drawn).dependenciesOf_eq id
  -- An edge that spreading added stands for a declaration, which had led there before.
  have hknown : ∀ target ∈ added.map (·.target), target ∈ (index.outgoing id).map (·.target) := by
    intro target ht
    obtain ⟨edge, he, rfl⟩ := List.mem_map.mp ht
    obtain ⟨declared, hd, hr⟩ := hg.mem_dependentsOf_drawn.mp (hadded edge he)
    rw [map_target_outgoing, List.mem_filterMap]
    exact ⟨declared, List.mem_of_getElem? hd, hr⟩
  rw [map_target_firstEdges, dependenciesOf_completed, hdeps, hg.dependenciesOf_drawn, List.map_append,
    eraseDups_append_of_subset hknown, map_target_outgoing, targetsOf, declarationsOf_completed, resolve_completed]

theorem Gathered.map_pairOf_judgements :
    index.completed.judgements.map pairOf = index.completed.dependencyPairs := by
  rw [judgements, judgementsOn_eq, List.map_flatMap, dependencyPairs]
  refine List.flatMap_congr fun id _ => ?_
  rw [← hg.map_target_firstEdges_completed, List.map_map, List.map_map]
  rfl

theorem Gathered.lt_size_of_mem_pairs {pair : ModuleId × ModuleId} (h : pair ∈ index.completed.dependencyPairs) :
    pair.1 < index.modules.size ∧ pair.2 < index.modules.size := by
  obtain ⟨id, -, hpair⟩ := List.mem_flatMap.mp h
  obtain ⟨target, ht, rfl⟩ := List.mem_map.mp hpair
  obtain ⟨declared, hd, hr⟩ := mem_targetsOf_completed.mp ht
  exact ⟨lt_size_of_mem hd, hg.lt_size_of_resolve hr⟩

theorem Gathered.eq_of_named {pair other : ModuleId × ModuleId} (h : pair ∈ index.completed.dependencyPairs)
    (ho : other ∈ index.completed.dependencyPairs) (hn : index.completed.named pair = index.completed.named other) :
    pair = other := by
  have hid : ∀ {a b : ModuleId}, a < index.modules.size → b < index.modules.size →
      index.completed.moduleName a = index.completed.moduleName b → a = b := by
    intro a b ha hb he
    have hb' := nameOf?_of_lt hb
    rw [← he] at hb'
    exact hg.eq_of_nameOf? (nameOf?_of_lt ha) hb'
  obtain ⟨hmodule, htarget⟩ := UnusedDependency.mk.inj hn
  have hlt := hg.lt_size_of_mem_pairs h
  have hlt' := hg.lt_size_of_mem_pairs ho
  exact Prod.ext (hid hlt.1 hlt'.1 hmodule) (hid hlt.2 hlt'.2 htarget)

theorem Gathered.nodup_named : (index.completed.dependencyPairs.map index.completed.named).Nodup :=
  (nodup_dependencyPairs _).map_on fun _ h _ ho => hg.eq_of_named h ho

theorem Gathered.judged_by_first {judgement : Judgement} (h : judgement ∈ index.completed.judgements) :
    ∃ record provider declared,
      index.completed.modules[judgement.module]? = some record ∧
      index.completed.modules[judgement.edge.target]? = some provider ∧
      record.declarations.findIdx? (fun d => index.completed.resolve d = some judgement.edge.target) =
        some judgement.edge.declaration ∧
      record.declarations[judgement.edge.declaration]? = some declared ∧
      judgement.usage = usageOf record judgement.edge.target provider declared := by
  obtain ⟨module, ⟨target, position⟩, usage⟩ := judgement
  obtain ⟨hfind, husage⟩ := mem_judgements.mp h
  rw [hg.find?_dependenciesOf_completed] at hfind
  obtain ⟨⟨declared, i⟩, hhead, hedge⟩ := Option.map_eq_some_iff.mp hfind
  obtain ⟨-, rfl⟩ := DependencyEdge.mk.inj hedge
  have hmem := List.mem_of_head? hhead
  obtain ⟨hlt, hlt'⟩ := hg.lt_size_of_toward hmem
  obtain ⟨record, hrecord⟩ := exists_record_completed hlt
  obtain ⟨provider, hprovider⟩ := exists_record_completed hlt'
  have hdeclarations : record.declarations = index.declarationsOf module := by
    rw [← declarationsOf_completed, declarationsOf, hrecord]
    rfl
  refine ⟨record, provider, declared, hrecord, hprovider, ?_, ?_, ?_⟩
  · rw [toward, List.head?_filter] at hhead
    rw [hdeclarations, resolve_completed, List.findIdx?_eq_fst_find?_zipIdx]
    exact Option.map_eq_some_iff.mpr ⟨_, hhead, rfl⟩
  · rw [hdeclarations]
    exact (mem_toward.mp hmem).1
  · rw [← usage_completed hrecord hprovider hmem]
    exact husage

theorem Gathered.mem_findings_iff {judgement : Judgement} (h : judgement ∈ index.completed.judgements) :
    index.completed.named (pairOf judgement) ∈ index.completed.unusedDependencies.findings ↔
      judgement.usage = none := by
  have hpair : ∀ {other}, other ∈ index.completed.judgements →
      pairOf other ∈ index.completed.dependencyPairs := by
    intro other ho
    rw [← hg.map_pairOf_judgements]
    exact List.mem_map_of_mem ho
  rw [findings_eq, List.mem_map]
  constructor
  · rintro ⟨other, ho, hn⟩
    obtain ⟨hmem, hnone⟩ := List.mem_filter.mp ho
    -- No two judgements are on the same pair.
    have hnodup : (index.completed.judgements.map pairOf).Nodup := by
      rw [hg.map_pairOf_judgements]
      exact nodup_dependencyPairs _
    have hsame := List.inj_on_of_nodup_map hnodup hmem h (hg.eq_of_named (hpair hmem) (hpair h) hn)
    rw [← hsame]
    simpa using hnone
  · intro hnone
    exact ⟨judgement, List.mem_filter.mpr ⟨h, by simpa using hnone⟩, rfl⟩

theorem Gathered.classified : index.completed.Classified where
  considered := hg.map_pairOf_judgements
  judged _ h := hg.judged_by_first h
  listed := by
    have hsub := (List.filter_sublist (p := fun judgement : Judgement => judgement.usage = none)
      (l := index.completed.judgements)).map fun judgement => index.completed.named (pairOf judgement)
    rw [findings_eq, ← hg.map_pairOf_judgements, List.map_map]
    exact hsub
  distinct := by
    have hsub := (List.filter_sublist (p := fun judgement : Judgement => judgement.usage = none)
      (l := index.completed.judgements)).map fun judgement => index.completed.named (pairOf judgement)
    have hnodup := hg.nodup_named
    rw [← hg.map_pairOf_judgements, List.map_map] at hnodup
    rw [findings_eq]
    exact hnodup.sublist hsub
  decided judgement h := by
    rw [hg.mem_findings_iff h]
    by_cases hnone : judgement.usage = none
    · exact Or.inl ⟨hnone, hnone⟩
    · by_cases hexport : judgement.usage = some .reExported
      · exact Or.inr (Or.inl ⟨hnone, hexport⟩)
      · exact Or.inr (Or.inr ⟨hnone, List.mem_filter.mpr ⟨h, by simp [hnone, hexport]⟩⟩)
  total := by
    rw [findings_eq, List.length_map, ← hg.map_pairOf_judgements, List.length_map]
    exact length_classes _

end Gathered

end Index

namespace Build

theorem run_classified (findings : List Finding) : (run findings).index.Classified := by
  rw [run_index]
  exact (ofFindings_gathered (fun _ _ => true) findings).1.classified

end Build

end ModuleAudit
