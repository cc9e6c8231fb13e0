import ModuleAudit.Proofs.Build.Complete
import ModuleAudit.Proofs.Build.Contents

/-! The pool of names beside the rest of an index. Whatever is pooled only adds to the pool (`NamePool.Grows`), and no
stage looks at the pool: two indices that differ in nothing but their pools, one of which is within the other
(`Index.Fuller`), differ in nothing else after any change of contents and in the end (`Fuller.completed`). -/

namespace ModuleAudit
set_option autoImplicit false

/-! ## Pools grow -/

namespace NamePool

/-- The names and the loaded texts of a pool are among those of the other. -/
structure Within (pool other : NamePool) : Prop where
  names : ∀ name ∈ pool.names.toList, name ∈ other.names.toList
  literals : ∀ text, pool.hasLiteral text = true → other.hasLiteral text = true

theorem Within.refl (pool : NamePool) : pool.Within pool := ⟨fun _ h => h, fun _ h => h⟩

theorem Within.trans {p q r : NamePool} (h : p.Within q) (h' : q.Within r) : p.Within r :=
  ⟨fun name hn => h'.names name (h.names name hn), fun text ht => h'.literals text (h.literals text ht)⟩

/-- The change only adds to a pool, and leads to no less from a larger one. -/
structure Grows (change : NamePool → NamePool) : Prop where
  within : ∀ pool : NamePool, pool.Within (change pool)
  mono : ∀ {pool other : NamePool}, pool.Within other → (change pool).Within (change other)

theorem grows_id : Grows id := ⟨Within.refl, id⟩

theorem Grows.comp {f g : NamePool → NamePool} (hf : Grows f) (hg : Grows g) : Grows fun pool => g (f pool) :=
  ⟨fun pool => (hf.within pool).trans (hg.within _), fun h => hg.mono (hf.mono h)⟩

theorem grows_add (name : String) : Grows (·.add name) where
  within pool := ⟨fun _ h => (OrderedSet.mem_insert pool.names name _).mpr (Or.inl h), by simp⟩
  mono {pool other} h := by
    refine ⟨fun added hadded => ?_, by simpa using h.literals⟩
    rw [add, OrderedSet.mem_insert] at hadded ⊢
    exact hadded.imp_left (h.names added)

theorem grows_addPath (name : String) : Grows (·.addPath name) := grows_add (slashed name)

theorem grows_addPackage (typeName : String) : Grows (·.addPackage typeName) := by
  unfold addPackage
  cases packageOf? typeName with
  | none => exact grows_id
  | some package => exact grows_add package

theorem grows_addLiteral (text : String) : Grows (·.addLiteral text) where
  within pool := ⟨((grows_add text).within pool).names,
    fun loaded h => (pool.hasLiteral_addLiteral text loaded).mpr (Or.inl h)⟩
  mono {pool other} h := by
    refine ⟨((grows_add text).mono h).names, fun loaded hloaded => ?_⟩
    rw [hasLiteral_addLiteral] at hloaded ⊢
    exact hloaded.imp_left (h.literals loaded)

/-- A step of something with a pool that makes the same growing change of the pool in every state. -/
def Pools {σ : Type} (pool : σ → NamePool) (step : σ → σ) : Prop :=
  ∃ change, Grows change ∧ ∀ state, pool (step state) = change (pool state)

theorem pools_foldl {α σ : Type} {pool : σ → NamePool} {f : σ → α → σ} (hf : ∀ a, Pools pool (f · a))
    (l : List α) : Pools pool (l.foldl f) := by
  induction l with
  | nil => exact ⟨id, grows_id, fun _ => rfl⟩
  | cons a rest ih =>
    obtain ⟨first, hfirst, efirst⟩ := hf a
    obtain ⟨others, hothers, eothers⟩ := ih
    refine ⟨fun pool => others (first pool), hfirst.comp hothers, fun state => ?_⟩
    exact (eothers (f state a)).trans (congrArg others (efirst state))

end NamePool

open NamePool

theorem Ingestion.pools_add (event : ClassFile.Event) : Pools Ingestion.pool (Ingestion.add · event) := by
  have hmention : ∀ mention, Pools Ingestion.pool (Ingestion.mention · mention) := by
    intro mention
    cases mention with
    | error failure => exact ⟨id, grows_id, fun _ => rfl⟩
    | ok named => exact ⟨_, grows_addPath named.2, fun _ => rfl⟩
  have hnote : Pools Ingestion.pool (Ingestion.note · event) := by
    have hnone : Pools Ingestion.pool id := ⟨id, grows_id, fun _ => rfl⟩
    cases event with
    | header access name superName interfaces => exact ⟨_, grows_addPath name, fun _ => rfl⟩
    | load constant =>
      cases constant with
      | text text => exact ⟨_, grows_addLiteral text, fun _ => rfl⟩
      | _ => exact hnone
    | _ => exact hnone
  obtain ⟨mentions, hmentions, ementions⟩ := pools_foldl hmention event.mentions
  obtain ⟨note, hgrows, enote⟩ := hnote
  refine ⟨fun pool => note (mentions pool), hmentions.comp hgrows, fun state => ?_⟩
  exact (enote _).trans (congrArg note (ementions state))

/-- Whether or not a class file can be read, it only adds to the pool. -/
theorem grows_ingest (module : ModuleId) (contents : Bytes) : Grows fun pool => (ingest pool module contents).1 := by
  have hpool : ∀ pool, (ingest pool module contents).1 =
      ((ClassFile.read contents).events.foldl Ingestion.add { pool, record := { module } }).pool := by
    intro pool
    rw [ingest]
    split <;> rfl
  obtain ⟨change, hgrows, hchange⟩ := pools_foldl Ingestion.pools_add (ClassFile.read contents).events
  have e : (fun pool => (ingest pool module contents).1) = change := by
    funext pool
    rw [hpool, hchange]
  rw [e]
  exact hgrows

/-! ## An index and its pool -/

namespace Index

/-- All of an index but its pool. -/
def bare (index : Index) : Index := { index with pool := {} }

/-- Two indices that differ in their pools only, and the pool of the second is within that of the first. -/
structure Fuller (i j : Index) : Prop where
  bare_eq : i.bare = j.bare
  pool : j.pool.Within i.pool

section Fuller

variable {i j : Index} (h : i.Fuller j)
include h

theorem Fuller.fields_eq :
    i.modules = j.modules ∧ i.byName = j.byName ∧ i.aliases = j.aliases ∧ i.classes = j.classes := by
  have e := h.bare_eq
  simp only [bare, mk.injEq, true_and] at e
  exact e

/-- A step that neither looks at the pool nor changes it. -/
theorem Fuller.step {f : Index → Index} (hbare : ∀ index, (f index).bare = f index.bare)
    (hpool : ∀ index, (f index).pool = index.pool) : (f i).Fuller (f j) :=
  ⟨by rw [hbare, hbare, h.bare_eq], by rw [hpool, hpool]; exact h.pool⟩

theorem Fuller.pooling_left {change : NamePool → NamePool} (hgrows : Grows change) : (i.pooling change).Fuller j :=
  ⟨h.bare_eq, h.pool.trans (hgrows.within i.pool)⟩

theorem Fuller.pooling {change : NamePool → NamePool} (hgrows : Grows change) :
    (i.pooling change).Fuller (j.pooling change) :=
  ⟨h.bare_eq, hgrows.mono h.pool⟩

theorem Fuller.updateModule (id : ModuleId) (change : ModuleRecord → ModuleRecord) :
    (i.updateModule id change).Fuller (j.updateModule id change) :=
  h.step (f := (·.updateModule id change)) (fun _ => rfl) fun _ => rfl

/-! ## Adding findings -/

theorem Fuller.refer (module : ModuleId) (typeName : String) (n : UInt32) :
    (i.refer module typeName n).Fuller (j.refer module typeName n) :=
  (h.pooling (grows_addPackage typeName)).updateModule module _

omit h in
theorem Fuller.foldl_refer (module : ModuleId) (references : List (String × UInt32)) {i j : Index} (h : i.Fuller j) :
    (references.foldl (fun index (name, n) => index.refer module name n) i).Fuller
      (references.foldl (fun index (name, n) => index.refer module name n) j) := by
  induction references generalizing i j with
  | nil => exact h
  | cons first rest ih => exact ih (h.refer module first.1 first.2)

theorem Fuller.attachClass (record : ClassRecord) : (i.attachClass record).1.Fuller (j.attachClass record).1 := by
  have hrefs := Fuller.foldl_refer record.module record.references h
  have hpush : ∀ {i j : Index}, i.Fuller j → Fuller { i with classes := i.classes.push record }
      { j with classes := j.classes.push record } :=
    fun h => h.step (f := fun index => { index with classes := index.classes.push record })
      (fun _ => rfl) fun _ => rfl
  obtain ⟨-, -, -, hclasses⟩ := h.fields_eq
  rw [Index.attachClass, Index.attachClass, hclasses]
  cases record.name with
  | none => exact hpush hrefs
  | some name =>
    exact hpush ((hrefs.pooling (grows_addPackage name)).updateModule record.module _)

theorem Fuller.addModule (name : String) : (i.addModule name).1.Fuller (j.addModule name).1 ∧
    (i.addModule name).2 = (j.addModule name).2 := by
  have hpool : ∀ index : Index, (index.addModule name).1.pool = index.pool.add name := by
    intro index
    simp only [Index.addModule, Index.pooling]
    split <;> rfl
  have hbare : ∀ index : Index, (index.addModule name).1.bare = (index.bare.addModule name).1.bare := by
    intro index
    simp only [Index.addModule, Index.pooling, bare]
    split <;> rfl
  have hnumber : ∀ index : Index, (index.addModule name).2 = (index.bare.addModule name).2 := by
    intro index
    simp only [Index.addModule, Index.pooling, bare]
    split <;> rfl
  have hid : (i.addModule name).2 = (j.addModule name).2 := by rw [hnumber i, h.bare_eq, ← hnumber j]
  refine ⟨⟨?_, ?_⟩, hid⟩
  · rw [hbare i, h.bare_eq, ← hbare j]
  · rw [hpool, hpool]
    exact (grows_add name).mono h.pool

theorem Fuller.addAlias (name target : String) : (i.addAlias name target).Fuller (j.addAlias name target) :=
  (h.pooling ((grows_add name).comp (grows_add target))).step
    (f := fun index => { index with aliases := index.aliases.insert name target }) (fun _ => rfl) fun _ => rfl

end Fuller

end Index

namespace Change

/-- What the change pools only adds to the pool. -/
def Tame : Change → Prop
  | .pool change => Grows change
  | _ => True

theorem Tame.apply {change : Change} (ht : change.Tame) (module : ModuleId) {i j : Index} (h : i.Fuller j) :
    (change.apply module i).Fuller (change.apply module j) := by
  cases change with
  | pool change => exact h.pooling ht
  | refer typeName n => exact h.refer module typeName n
  | attach record => exact h.attachClass record
  | main name => exact (h.pooling (grows_addPath name)).updateModule module _
  | service interface implementation =>
    exact (h.pooling ((grows_addPath interface).comp (grows_addPath implementation))).updateModule module _
  | declare dependency => exact h.updateModule module _

theorem fuller_foldl_apply {changes : List Change} (ht : ∀ change ∈ changes, change.Tame) (module : ModuleId)
    {i j : Index} (h : i.Fuller j) :
    (changes.foldl (apply module) i).Fuller (changes.foldl (apply module) j) := by
  induction changes generalizing i j with
  | nil => exact h
  | cons change rest ih =>
    rw [List.forall_mem_cons] at ht
    exact ih ht.2 (ht.1.apply module h)

end Change

theorem ServiceFile.tame_of_mem_changes {service : ServiceFile} {change : Change} (h : change ∈ service.changes) :
    change.Tame := by
  simp only [ServiceFile.changes, List.mem_cons, List.mem_flatMap, List.not_mem_nil, or_false] at h
  rcases h with rfl | ⟨implementation, -, rfl | rfl | rfl | rfl⟩
  · exact (grows_add _).comp (grows_addPackage _)
  · exact (grows_addPath _).comp (grows_addPackage _)
  · trivial
  · trivial
  · trivial

theorem ResourceItem.tame_of_mem_changes {module : ModuleId} {item : ResourceItem} {change : Change}
    (h : change ∈ item.changes module) : change.Tame := by
  cases item with
  | notice message => exact absurd h List.not_mem_nil
  | entry name contents =>
    cases contents with
    | error reason => exact absurd h List.not_mem_nil
    | ok contents =>
      rw [ResourceItem.changes] at h
      split at h
      · rcases List.mem_cons.mp h with rfl | h
        · exact grows_ingest module contents
        · obtain ⟨record, -, rfl⟩ := List.mem_map.mp h
          trivial
      · cases hs : ServiceFile.parse? name (Utf8.lossy contents) with
        | none => simp [hs] at h
        | some service =>
          rw [hs] at h
          exact ServiceFile.tame_of_mem_changes h

theorem Change.tame_of_mem_main {mainClass : Option String} {change : Change}
    (h : change ∈ mainClass.toList.flatMap fun name => [Change.main name, .refer (slashed name) 1]) : change.Tame := by
  obtain ⟨name, -, hname⟩ := List.mem_flatMap.mp h
  simp only [List.mem_cons, List.not_mem_nil, or_false] at hname
  rcases hname with rfl | rfl <;> trivial

theorem Change.tame_of_mem_declared {dependencies : List Dependency} {change : Change}
    (h : change ∈ dependencies.map Change.declare) : change.Tame := by
  obtain ⟨dependency, -, rfl⟩ := List.mem_map.mp h
  trivial

theorem tame_of_mem_contentChanges {module : ModuleId} {mainClass : Option String} {roots : List ResourceRoot}
    {dependencies : List Dependency} {change : Change}
    (h : change ∈ contentChanges module mainClass roots dependencies) : change.Tame := by
  rw [contentChanges_eq, List.mem_append, List.mem_append] at h
  rcases h with (h | h) | h
  · exact Change.tame_of_mem_main h
  · obtain ⟨item, -, hitem⟩ := List.mem_flatMap.mp h
    exact ResourceItem.tame_of_mem_changes hitem
  · exact Change.tame_of_mem_declared h

/-! ## The later stages -/

namespace Index

theorem bare_drawn (index : Index) : index.drawn.bare = index.bare.drawn := by
  have hfold : ∀ (edges : List (ModuleId × DependencyEdge)) (index : Index),
      (edges.foldl addEdge index).bare = edges.foldl addEdge index.bare := by
    intro edges
    induction edges with
    | nil => exact fun _ => rfl
    | cons edge rest ih => exact fun index => ih (index.addEdge edge)
  exact hfold index.allEdges index

theorem bare_spreadAlong {further : List String → ModuleId → Index → Index}
    (hf : ∀ packages source index, (further packages source index).bare = further packages source index.bare)
    (packages : List String) (source : ModuleId) (index : Index) (edge : DependentEdge) :
    (spreadAlong further packages source index edge).bare = spreadAlong further packages source index.bare edge := by
  have himported : ∀ packages, index.bare.imported edge packages = index.imported edge packages := fun _ => rfl
  have hnewly : ∀ packages, index.bare.newlyVisible source edge packages = index.newlyVisible source edge packages :=
    fun _ => rfl
  have hupdate : ∀ (index : Index) change, index.bare.updateModule edge.dependent change =
      (index.updateModule edge.dependent change).bare := fun _ _ => rfl
  have hexported : ∀ (index : Index) packages, index.bare.exported edge packages = index.exported edge packages :=
    fun _ _ => rfl
  simp only [spreadAlong, himported, hnewly, hupdate, hexported]
  split
  · rfl
  · split
    · rfl
    · split
      · rfl
      · exact hf _ _ _

theorem bare_spreadIn (room : Nat) (path : List ModuleId) (packages : List String) (source : ModuleId)
    (index : Index) :
    (spreadIn room path packages source index).bare = spreadIn room path packages source index.bare := by
  induction room generalizing path packages source index with
  | zero => rfl
  | succ room ih =>
    have hfold : ∀ (edges : List DependentEdge) (index : Index),
        (edges.foldl (spreadAlong (spreadIn room (source :: path)) packages source) index).bare =
          edges.foldl (spreadAlong (spreadIn room (source :: path)) packages source) index.bare := by
      intro edges
      induction edges with
      | nil => exact fun _ => rfl
      | cons edge rest ihe =>
        intro index
        rw [List.foldl_cons, ihe, bare_spreadAlong fun packages source index => ih _ packages source index,
          List.foldl_cons]
    rw [spreadIn, spreadIn]
    split
    · rfl
    · exact hfold _ index

theorem bare_spreadAll (index : Index) : index.spreadAll.bare = index.bare.spreadAll := by
  have hfold : ∀ (ids : List ModuleId) (index : Index),
      (ids.foldl (fun index id => index.spread id (index.packagesOf id)) index).bare =
        ids.foldl (fun index id => index.spread id (index.packagesOf id)) index.bare := by
    intro ids
    induction ids with
    | nil => exact fun _ => rfl
    | cons id rest ih =>
      intro index
      have hspread : (index.spread id (index.packagesOf id)).bare = index.bare.spread id (index.bare.packagesOf id) :=
        bare_spreadIn _ _ _ _ _
      rw [List.foldl_cons, ih, hspread, List.foldl_cons]
  exact hfold _ index

theorem pool_spreadAll (index : Index) : index.spreadAll.pool = index.pool := by
  have e := congrArg Index.pool (steps_spreadAll index).ground_eq
  exact e

theorem pool_drawn (index : Index) : index.drawn.pool = index.pool := by
  rw [drawn, foldl_addEdge_eq]

theorem Fuller.inheritClass {i j : Index} (h : i.Fuller j) (id : ClassId) :
    (i.inheritClass id).Fuller (j.inheritClass id) := by
  obtain ⟨-, -, -, hclasses⟩ := h.fields_eq
  have hrefs := congrArg (inheritedRefs · id) h.bare_eq
  have hsame : i.inheritedRefs id = j.inheritedRefs id := hrefs
  rw [Index.inheritClass, Index.inheritClass, hclasses, hsame]
  cases j.classes[id]? with
  | none => exact h
  | some record =>
    have hfold := Fuller.foldl_refer record.module ((j.inheritedRefs id).map (·, 1)) h
    simp only [List.foldl_map] at hfold
    exact hfold

theorem Fuller.inheritAll {i j : Index} (h : i.Fuller j) : i.inheritAll.Fuller j.inheritAll := by
  obtain ⟨-, -, -, hclasses⟩ := h.fields_eq
  rw [Index.inheritAll, Index.inheritAll, hclasses]
  clear hclasses
  generalize List.range j.classes.size = ids
  induction ids generalizing i j with
  | nil => exact h
  | cons id rest ih => exact ih (h.inheritClass id)

/-- What differs in the pool only does so in the end. -/
theorem Fuller.completed {i j : Index} (h : i.Fuller j) : i.completed.Fuller j.completed := by
  have hdrawn := h.step bare_drawn pool_drawn
  have hspread := hdrawn.step bare_spreadAll pool_spreadAll
  have hlinked := hspread.step (f := fun index => index.linkSupertypes.1) (fun _ => rfl) fun _ => rfl
  exact hlinked.inheritAll

end Index

end ModuleAudit
