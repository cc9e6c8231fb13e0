import ModuleAudit.Index.Build
import ModuleAudit.Proofs.Visibility.View

/-! The edges that a build draws. They are listed once (`allEdges`), module by module and declaration by
declaration, and drawing them is a fold over that list, so each end of an edge has them in that order.
Between two modules they are the declarations of the one that lead to the other (`toward`). -/

namespace ModuleAudit
set_option autoImplicit false

namespace Index

/-- The module that a declaration leads to. -/
def resolve (index : Index) (declaration : Dependency) : Option ModuleId :=
  declaration.moduleName?.bind index.findModule?

/-- The declarations of a module. -/
def declarationsOf (index : Index) (id : ModuleId) : List Dependency :=
  (index.modules[id]?.map (·.declarations)).getD []

/-- The edges that the declarations of a module stand for. -/
def outgoing (index : Index) (id : ModuleId) : List DependencyEdge :=
  (index.declarationsOf id).zipIdx.filterMap fun (declaration, i) =>
    (index.resolve declaration).map (⟨·, i⟩)

/-- The declarations of a module that lead to `target`, with their positions. -/
def toward (index : Index) (id target : ModuleId) : List (Dependency × Nat) :=
  (index.declarationsOf id).zipIdx.filter fun entry => index.resolve entry.1 = some target

/-- The first of the declarations that lead from a module to `target` to import a package. -/
def firstImporter (index : Index) (id target : ModuleId) (package : String) : Option Dependency :=
  (index.declarationsOf id).find? fun declaration =>
    index.resolve declaration = some target ∧ declaration.imports.accepts package = true

/-- The edges of all modules, each with the module that declares it. -/
def allEdges (index : Index) : List (ModuleId × DependencyEdge) :=
  (List.range index.modules.size).flatMap fun id => (index.outgoing id).map (id, ·)

/-- Draws an edge at both of its ends. -/
def addEdge (index : Index) (edge : ModuleId × DependencyEdge) : Index :=
  (index.addDependent edge.2.target ⟨edge.1, edge.2.declaration⟩).addDependency edge.1 edge.2

/-- The index with all edges drawn. -/
def drawn (index : Index) : Index := index.allEdges.foldl addEdge index

theorem mem_toward {index : Index} {id target : ModuleId} {declaration : Dependency} {i : Nat} :
    (declaration, i) ∈ index.toward id target ↔
      (index.declarationsOf id)[i]? = some declaration ∧ index.resolve declaration = some target := by
  rw [toward, List.mem_filter, List.mem_zipIdx_iff_getElem?, decide_eq_true_eq]

theorem map_fst_toward (index : Index) (id target : ModuleId) :
    (index.toward id target).map Prod.fst =
      (index.declarationsOf id).filter fun declaration => index.resolve declaration = some target := by
  have e := List.filter_map (f := Prod.fst) (l := (index.declarationsOf id).zipIdx)
    (p := fun declaration => index.resolve declaration = some target)
  rw [List.zipIdx_map_fst] at e
  exact e.symm

theorem firstImporter_eq (index : Index) (id target : ModuleId) (package : String) :
    index.firstImporter id target package =
      ((index.toward id target).find? (·.1.imports.accepts package)).map Prod.fst := by
  have e := List.find?_map (f := Prod.fst) (l := index.toward id target)
    (p := fun declaration => declaration.imports.accepts package)
  rw [map_fst_toward, List.find?_filter] at e
  simp only [decide_eq_true_eq] at e
  exact e

theorem declared_eq (index : Index) (edge : DependentEdge) :
    index.declared edge = (index.declarationsOf edge.dependent)[edge.declaration]? := by
  rw [declared, declarationsOf]
  cases index.modules[edge.dependent]? with
  | none => rfl
  | some record => rfl

theorem filter_outgoing (index : Index) (id target : ModuleId) :
    (index.outgoing id).filter (fun edge => edge.target = target) =
      (index.toward id target).map fun entry => ⟨target, entry.2⟩ := by
  rw [outgoing, toward]
  generalize (index.declarationsOf id).zipIdx = entries
  induction entries with
  | nil => rfl
  | cons entry rest ih =>
    cases hr : index.resolve entry.1 with
    | none => simp [hr, ih]
    | some other => by_cases ho : other = target <;> simp [hr, ho, ih]

theorem declarationsOf_of_size_le {index : Index} {id : ModuleId} (h : index.modules.size ≤ id) :
    index.declarationsOf id = [] := by
  rw [declarationsOf, Array.getElem?_eq_none h]
  rfl

theorem filter_allEdges (index : Index) (id : ModuleId) :
    index.allEdges.filter (fun edge => edge.1 = id) = (index.outgoing id).map (id, ·) := by
  -- By induction on the number of modules, each of which starts its own edges only.
  have hrange : ∀ n, ((List.range n).flatMap fun id => (index.outgoing id).map (id, ·)).filter
      (fun edge => edge.1 = id) = if id < n then (index.outgoing id).map (id, ·) else [] := by
    intro n
    induction n with
    | zero => rfl
    | succ n ih =>
      rw [List.range_succ, List.flatMap_append, List.filter_append, ih, List.flatMap_singleton,
        List.filter_map]
      by_cases hn : n = id
      · subst hn
        rw [if_neg (Nat.lt_irrefl n), if_pos (Nat.lt_succ_self n), List.nil_append,
          List.filter_eq_self.mpr (by simp)]
      · have hlt : id < n + 1 ↔ id < n :=
          Nat.lt_succ_iff_lt_or_eq.trans (or_iff_left fun e => hn e.symm)
        simp [Function.comp_def, hn, hlt]
  rw [allEdges, hrange]
  split
  · rfl
  · rename_i hlt
    rw [outgoing, declarationsOf_of_size_le (Nat.le_of_not_lt hlt)]
    rfl

/-! ## One edge -/

@[simp] theorem resolve_addEdge (index : Index) (edge : ModuleId × DependencyEdge) :
    (index.addEdge edge).resolve = index.resolve := rfl

/-- A record with more edges. -/
def withEdges (out : List DependencyEdge) (into : List DependentEdge) (record : ModuleRecord) :
    ModuleRecord :=
  { record with dependencies := record.dependencies ++ out, dependents := record.dependents ++ into }

theorem getElem?_addEdge (index : Index) (edge : ModuleId × DependencyEdge) (id : ModuleId) :
    (index.addEdge edge).modules[id]? = index.modules[id]?.map
      (withEdges (if edge.1 = id then [edge.2] else [])
        (if edge.2.target = id then [⟨edge.1, edge.2.declaration⟩] else [])) := by
  simp only [addEdge, addDependency, addDependent, getElem?_updateModule]
  cases index.modules[id]? with
  | none => simp
  | some record => by_cases h1 : edge.1 = id <;> by_cases h2 : edge.2.target = id <;> simp [h1, h2, withEdges]

/-! ## All edges -/

theorem getElem?_foldl_addEdge (edges : List (ModuleId × DependencyEdge)) (index : Index) (id : ModuleId) :
    (edges.foldl addEdge index).modules[id]? = index.modules[id]?.map
      (withEdges ((edges.filter (·.1 = id)).map (·.2))
        ((edges.filter (·.2.target = id)).map fun edge => ⟨edge.1, edge.2.declaration⟩)) := by
  induction edges generalizing index with
  | nil =>
    simp only [List.foldl_nil, List.filter_nil, List.map_nil]
    cases index.modules[id]? with
    | none => rfl
    | some record => simp [withEdges]
  | cons edge rest ih =>
    rw [List.foldl_cons, ih, getElem?_addEdge, Option.map_map]
    congr 1
    funext record
    by_cases h1 : edge.1 = id <;> by_cases h2 : edge.2.target = id <;> simp [h1, h2, withEdges]

theorem foldl_addEdge_eq (edges : List (ModuleId × DependencyEdge)) (index : Index) :
    edges.foldl addEdge index = { index with modules := (edges.foldl addEdge index).modules } := by
  induction edges generalizing index with
  | nil => rfl
  | cons edge rest ih =>
    rw [List.foldl_cons, ih]
    rfl

theorem declarationsOf_foldl_addEdge (edges : List (ModuleId × DependencyEdge)) (index : Index) :
    (edges.foldl addEdge index).declarationsOf = index.declarationsOf := by
  funext id
  rw [declarationsOf, getElem?_foldl_addEdge, Option.map_map]
  rfl

theorem resolve_foldl_addEdge (edges : List (ModuleId × DependencyEdge)) (index : Index) :
    (edges.foldl addEdge index).resolve = index.resolve := by
  rw [foldl_addEdge_eq]
  rfl

theorem outgoing_foldl_addEdge (edges : List (ModuleId × DependencyEdge)) (index : Index) :
    (edges.foldl addEdge index).outgoing = index.outgoing := by
  funext id
  rw [outgoing, declarationsOf_foldl_addEdge, resolve_foldl_addEdge]
  rfl

end Index

/-! ## Drawing -/

namespace Build

theorem drawEdge_index (id : ModuleId) (build : Build) (declaration : Dependency) (i : Nat) :
    (drawEdge id build (declaration, i)).index =
      match build.index.resolve declaration with
      | some target => build.index.addEdge (id, ⟨target, i⟩)
      | none => build.index := by
  simp only [drawEdge, Index.resolve]
  cases declaration.moduleName? with
  | none => rfl
  | some name =>
    simp only [Option.bind_some]
    cases build.index.findModule? name with
    | some target => rfl
    | none =>
      simp only
      split <;> rfl

theorem foldl_drawEdge_index (id : ModuleId) (declarations : List (Dependency × Nat)) (build : Build) :
    (declarations.foldl (drawEdge id) build).index =
      ((declarations.filterMap fun (declaration, i) =>
        (build.index.resolve declaration).map (⟨·, i⟩)).map (id, ·)).foldl Index.addEdge build.index := by
  induction declarations generalizing build with
  | nil => rfl
  | cons entry rest ih =>
    obtain ⟨declaration, i⟩ := entry
    rw [List.foldl_cons, ih, drawEdge_index]
    cases h : build.index.resolve declaration with
    | none => simp [h]
    | some target => simp [h]

theorem drawEdgesOf_index (build : Build) (id : ModuleId) :
    (build.drawEdgesOf id).index = ((build.index.outgoing id).map (id, ·)).foldl Index.addEdge build.index :=
  foldl_drawEdge_index id _ build

theorem foldl_drawEdgesOf_index (ids : List ModuleId) (build : Build) :
    (ids.foldl drawEdgesOf build).index =
      (ids.flatMap fun id => (build.index.outgoing id).map (id, ·)).foldl Index.addEdge build.index := by
  induction ids generalizing build with
  | nil => rfl
  | cons id rest ih =>
    rw [List.foldl_cons, ih, drawEdgesOf_index, Index.outgoing_foldl_addEdge, List.flatMap_cons,
      List.foldl_append]

theorem drawEdges_index (build : Build) : build.drawEdges.index = build.index.drawn :=
  foldl_drawEdgesOf_index _ _

end Build

end ModuleAudit
