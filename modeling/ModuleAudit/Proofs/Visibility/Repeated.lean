import ModuleAudit.Proofs.Visibility.Transposed

/-! Spreading a second time. The first run shows every package of a module along all edges to it that import the
package, whatever the index held before (`showsOwn_spreadAll`). So in a second run no call goes further, and all that it
does is to append an edge wherever an edge imports a package of the module it leads to (`spreadAll_spreadAll`). -/

namespace ModuleAudit
set_option autoImplicit false

/-! ## Changes that change nothing -/

namespace OrderedMap

variable {κ υ : Type} [DecidableEq κ] {key : κ} {value : υ} {f : Option υ → υ}

theorem alterEntries_of_find? {entries : List (κ × υ)}
    (hv : (entries.find? fun entry => entry.1 = key).map Prod.snd = some value) (hf : f (some value) = value) :
    alterEntries key f entries = entries := by
  induction entries with
  | nil => simp at hv
  | cons entry rest ih =>
    obtain ⟨k, v⟩ := entry
    by_cases hk : k = key
    · obtain rfl : v = value := by simpa [hk] using hv
      rw [alterEntries, if_pos hk, hf, hk]
    · rw [alterEntries, if_neg hk, ih (by simpa [hk] using hv)]

theorem alter_of_get? {m : OrderedMap κ υ} (hv : m.get? key = some value) (hf : f (some value) = value) :
    m.alter key f = m := by
  cases m with
  | mk entries distinct =>
    have he : alterEntries key f entries = entries := alterEntries_of_find? hv hf
    simp only [alter, he]

end OrderedMap

theorem OrderedSet.insertAll_of_subset {α : Type} [DecidableEq α] {s : OrderedSet α} {elements : List α}
    (h : ∀ a ∈ elements, a ∈ s.toList) : s.insertAll elements = s := by
  induction elements with
  | nil => rfl
  | cons a rest ih =>
    rw [List.forall_mem_cons] at h
    rw [insertAll, List.foldl_cons, insert_of_mem s h.1]
    exact ih h.2

namespace ModuleRecord

/-- A record shows a package along an edge: both tables hold the pair, and the edge is there. -/
structure Shows (record : ModuleRecord) (edge : DependencyEdge) (package : String) : Prop where
  through : edge.target ∈ record.through package
  passedBy : package ∈ record.passedBy edge.target
  listed : edge ∈ record.dependencies

/-- The record with edges appended to its own. -/
def appendEdges (record : ModuleRecord) (edges : List DependencyEdge) : ModuleRecord :=
  { record with dependencies := record.dependencies ++ edges }

variable {record later : ModuleRecord} {edge : DependencyEdge} {package : String} {packages : List String}

theorem Shows.mono (h : record.Shows edge package) (he : record.Extends later) : later.Shows edge package :=
  ⟨(he.through package).subset h.through, (he.passedBy edge.target).subset h.passedBy,
    he.dependencies.subset h.listed⟩

theorem shows_provide (record : ModuleRecord) (edge : DependencyEdge) (hp : package ∈ packages) :
    (record.provide packages edge).Shows edge package where
  through := (mem_through_provide ..).mpr (Or.inr ⟨hp, rfl⟩)
  passedBy := (mem_passedBy_provide ..).mpr (Or.inr ⟨hp, rfl⟩)
  listed := List.mem_append_right _ List.mem_cons_self

/-- A view that shows anything has an entry behind it. -/
theorem exists_of_mem_getD {κ α : Type} [DecidableEq κ] {m : OrderedMap κ (OrderedSet α)} {key : κ} {a : α}
    (h : a ∈ ((m.get? key).getD {}).toList) : ∃ s, m.get? key = some s ∧ a ∈ s.toList := by
  cases hs : m.get? key with
  | none => simp [hs] at h
  | some s =>
    rw [hs] at h
    exact ⟨s, rfl, h⟩

/-- What is shown already is not made visible again: only the edge is added. -/
theorem provide_of_shows (hne : packages ≠ []) (h : ∀ package ∈ packages, record.Shows edge package) :
    record.provide packages edge = record.appendEdges [edge] := by
  have hproviders : packages.foldl (fun providers package =>
      providers.alter package fun known => (known.getD {}).insert edge.target) record.providers =
        record.providers := by
    refine foldl_passed (P := fun _ providers => providers = record.providers) rfl ?_
    rintro done package rest providers hl rfl
    obtain ⟨s, hs, hmem⟩ := exists_of_mem_getD (h package (by simp [hl])).through
    exact OrderedMap.alter_of_get? hs (OrderedSet.insert_of_mem s hmem)
  have hprovided : record.provided.alter edge.target (fun known => (known.getD {}).insertAll packages) =
      record.provided := by
    obtain ⟨package, hp⟩ := List.exists_mem_of_ne_nil packages hne
    obtain ⟨s, hs, -⟩ := exists_of_mem_getD (h package hp).passedBy
    refine OrderedMap.alter_of_get? hs (OrderedSet.insertAll_of_subset fun other ho => ?_)
    have hpassed := (h other ho).passedBy
    rw [passedBy, hs] at hpassed
    exact hpassed
  rw [provide, hproviders, hprovided, appendEdges]

end ModuleRecord

namespace Index

/-! ## What the first run shows -/

/-- The dependent of an edge that leads to `source` shows a package along it. -/
def ShowsAlong (index : Index) (source : ModuleId) (edge : DependentEdge) (package : String) : Prop :=
  ∃ record, index.modules[edge.dependent]? = some record ∧ record.Shows ⟨source, edge.declaration⟩ package

/-- Every edge shows the packages that it imports of those that the module it leads to holds itself. -/
def ShowsOwn (index : Index) : Prop :=
  ∀ source, ∀ edge ∈ index.dependentsOf source, ∀ package ∈ index.packagesOf source,
    index.imports edge package = true → index.ShowsAlong source edge package

section First

variable {source : ModuleId} {edge : DependentEdge} {package : String}

theorem Steps.showsAlong {carried : ModuleId → String → Prop} {i j : Index} (hs : Steps carried i j)
    (h : i.ShowsAlong source edge package) : j.ShowsAlong source edge package := by
  obtain ⟨record, hr, hshows⟩ := h
  obtain ⟨later, hl, hgains⟩ := hs.gains hr
  have hextends : record.Extends later :=
    ModuleRecord.gains_induct (P := record.Extends) (fun hg he => he.trans hg.extends) hgains
      (ModuleRecord.Extends.refl record)
  exact ⟨later, hl, hshows.mono hextends⟩

theorem showsAlong_provideAt {index : Index} {packages : List String} (hlt : edge.dependent < index.modules.size)
    (hp : package ∈ packages) : (index.provideAt source edge packages).ShowsAlong source edge package := by
  refine ⟨_, ?_, ModuleRecord.shows_provide index.modules[edge.dependent] _ hp⟩
  rw [provideAt, getElem?_updateModule, if_pos rfl, Array.getElem?_eq_getElem hlt]
  rfl

theorem ShowsAlong.reExportAt {index : Index} (h : index.ShowsAlong source edge package) :
    (index.reExportAt source edge).ShowsAlong source edge package := by
  obtain ⟨record, hr, hshows⟩ := h
  refine ⟨record.reExport source, ?_, hshows.mono (ModuleRecord.Gains.reExport record source).extends⟩
  rw [Index.reExportAt, getElem?_updateModule, if_pos rfl, hr]
  rfl

variable {base : Index} {packages : List String}

theorem spreadAlong_shows {index : Index} (hg : index.ground = base.ground) (room : Nat) (path : List ModuleId)
    (hp : package ∈ packages) (hi : base.imports edge package = true) :
    (spreadAlong (spreadIn room path) packages source index edge).ShowsAlong source edge package := by
  have htaken : package ∈ base.taken edge packages := mem_taken.mpr ⟨hp, hi⟩
  have hprovided : (index.provideAt source edge (base.taken edge packages)).ShowsAlong source edge package :=
    showsAlong_provideAt (dependent_lt_of_taken hg (List.ne_nil_of_mem htaken)) htaken
  rcases spreadAlong_cases hg (spreadIn room path) packages source edge with
    ⟨hnil, -⟩ | ⟨-, -, e⟩ | ⟨-, hex, e⟩
  · rw [hnil] at htaken
    exact absurd htaken (by simp)
  · rw [e]
    exact hprovided
  · have hground : ((index.provideAt source edge (base.taken edge packages)).reExportAt source edge).ground =
        base.ground := by
      rw [ground_reExportAt, ground_provideAt, hg]
    rw [e]
    exact (spreadIn_steps (passesOn_true base) room path _ _ _ hground fun _ _ => trivial).showsAlong
      hprovided.reExportAt

/-- A call from the top shows its packages along all edges that import them. -/
theorem spread_shows {index : Index} (hg : index.ground = base.ground) (hlt : source < base.modules.size)
    (hmem : edge ∈ base.dependentsOf source) (hp : package ∈ packages) (hi : base.imports edge package = true) :
    (index.spread source packages).ShowsAlong source edge package := by
  obtain ⟨room, hroom⟩ := Nat.exists_eq_add_one.mpr (Nat.zero_lt_of_lt ((size_congr hg).symm ▸ hlt))
  have hedges : (index.modules[source]?.map (·.dependents)).getD [] = base.dependentsOf source :=
    congrFun (dependentsOf_congr hg) source
  rw [spread, hroom, spreadIn, if_neg List.not_mem_nil, hedges]
  -- The edges that the loop has passed show the packages, and go on to do so.
  have hloop := foldl_passed (l := base.dependentsOf source) (b := index)
    (f := spreadAlong (spreadIn room [source]) packages source)
    (P := fun done j => Steps (fun _ _ => True) index j ∧ ∀ e ∈ done, ∀ p ∈ packages, base.imports e p = true →
      j.ShowsAlong source e p)
    ⟨Relation.ReflTransGen.refl, by simp⟩
    (by
      rintro done next rest j hl ⟨hsteps, hdone⟩
      have hgj := hsteps.ground_eq.trans hg
      have hnext : next ∈ base.dependentsOf source := by simp [hl]
      have hstep : Steps (fun _ _ => True) j (spreadAlong (spreadIn room [source]) packages source j next) :=
        spreadAlong_steps (passesOn_true base) (spreadIn_steps (passesOn_true base) room [source]) hgj
          (fun _ _ => trivial) hnext
      refine ⟨hsteps.trans hstep, fun e he p hpe hie => ?_⟩
      rcases List.mem_append.mp he with he | he
      · exact hstep.showsAlong (hdone e he p hpe hie)
      · obtain rfl := List.mem_singleton.mp he
        exact spreadAlong_shows hgj room [source] hpe hie)
  exact hloop.2 edge hmem package hp hi

end First

theorem showsOwn_spreadAll (index : Index) : index.spreadAll.ShowsOwn := by
  have hloop := foldl_passed (l := List.range index.modules.size) (b := index)
    (f := fun index id => index.spread id (index.packagesOf id))
    (P := fun done j => Steps (fun _ _ => True) index j ∧ ∀ source ∈ done, ∀ edge ∈ index.dependentsOf source,
      ∀ package ∈ index.packagesOf source, index.imports edge package = true → j.ShowsAlong source edge package)
    ⟨Relation.ReflTransGen.refl, by simp⟩
    (by
      rintro done id rest j hl ⟨hsteps, hdone⟩
      have hlt : id < index.modules.size := List.mem_range.mp (by simp [hl])
      have hstep := spreadIn_steps (passesOn_true index) j.modules.size [] (j.packagesOf id) id j hsteps.ground_eq
        (fun _ _ => trivial)
      refine ⟨hsteps.trans hstep, fun source hs edge hmem package hp hi => ?_⟩
      rcases List.mem_append.mp hs with hs | hs
      · exact hstep.showsAlong (hdone source hs edge hmem package hp hi)
      · obtain rfl := List.mem_singleton.mp hs
        rw [← packagesOf_congr hsteps.ground_eq] at hp
        exact spread_shows hsteps.ground_eq hlt hmem hp hi)
  have hground := (steps_spreadAll index).ground_eq
  intro source edge hmem package hp hi
  rw [dependentsOf_congr hground] at hmem
  rw [packagesOf_congr hground] at hp
  rw [imports_congr hground] at hi
  exact hloop.2 source (List.mem_range.mpr (lt_size_of_mem hmem)) edge hmem package hp hi

/-! ## What the second run adds -/

/-- The index with edges appended to those of each module. -/
def appendEdges (index : Index) (edges : ModuleId → List DependencyEdge) : Index :=
  { index with modules := index.modules.mapIdx fun id record => record.appendEdges (edges id) }

/-- One edge of a module for each of its dependents' edges to `source` that import a package of `source`. -/
def importingEdges (index : Index) (source id : ModuleId) : List DependencyEdge :=
  ((index.dependentsOf source).filter fun edge =>
    edge.dependent = id && (index.packagesOf source).any (index.imports edge)).map fun edge =>
      ⟨source, edge.declaration⟩

/-- The edges of a module that import a package of the module they lead to, in the order of these modules. -/
def directEdges (index : Index) (id : ModuleId) : List DependencyEdge :=
  (List.range index.modules.size).flatMap (index.importingEdges · id)

section Append

variable {index : Index} {edges : ModuleId → List DependencyEdge}

theorem getElem?_appendEdges (id : ModuleId) :
    (index.appendEdges edges).modules[id]? = index.modules[id]?.map (·.appendEdges (edges id)) :=
  Array.getElem?_mapIdx

theorem ground_appendEdges : (index.appendEdges edges).ground = index.ground := by
  refine congrArg (fun modules => { index with modules }) (Array.ext_getElem? fun id => ?_)
  rw [Array.getElem?_map, Array.getElem?_map, getElem?_appendEdges, Option.map_map]
  rfl

/-- Two changes that append edges are one. -/
theorem appendEdges_appendEdges (more : ModuleId → List DependencyEdge) :
    (index.appendEdges edges).appendEdges more = index.appendEdges fun id => edges id ++ more id := by
  refine congrArg (fun modules => { index with modules }) (Array.ext_getElem? fun id => ?_)
  rw [Array.getElem?_mapIdx, Array.getElem?_mapIdx, getElem?_appendEdges, Option.map_map]
  simp only [Function.comp_def, ModuleRecord.appendEdges, List.append_assoc]

theorem appendEdges_nil : (index.appendEdges fun _ => []) = index := by
  have hmodules : (index.modules.mapIdx fun _ record => record.appendEdges []) = index.modules := by
    refine Array.ext_getElem? fun id => ?_
    rw [Array.getElem?_mapIdx]
    simp only [ModuleRecord.appendEdges, List.append_nil, Option.map_id']
  rw [appendEdges, hmodules]

theorem ShowsAlong.appendEdges {source : ModuleId} {edge : DependentEdge} {package : String}
    (h : index.ShowsAlong source edge package) : (index.appendEdges edges).ShowsAlong source edge package := by
  obtain ⟨record, hr, hshows⟩ := h
  have hextends : record.Extends (record.appendEdges (edges edge.dependent)) :=
    ⟨fun _ => List.prefix_rfl, fun _ => List.prefix_rfl, List.prefix_append _ _⟩
  refine ⟨_, ?_, hshows.mono hextends⟩
  rw [getElem?_appendEdges, hr]
  rfl

theorem ShowsOwn.appendEdges (h : index.ShowsOwn) : (index.appendEdges edges).ShowsOwn := by
  intro source edge hmem package hp hi
  rw [dependentsOf_congr ground_appendEdges] at hmem
  rw [packagesOf_congr ground_appendEdges] at hp
  rw [imports_congr ground_appendEdges] at hi
  exact (h source edge hmem package hp hi).appendEdges

theorem importingEdges_appendEdges : (index.appendEdges edges).importingEdges = index.importingEdges := by
  funext source id
  rw [importingEdges, importingEdges, dependentsOf_congr ground_appendEdges, packagesOf_congr ground_appendEdges,
    imports_congr ground_appendEdges]

end Append

section Second

variable {index : Index} {source : ModuleId} {packages : List String}

theorem provideAt_of_shown {edge : DependentEdge} (hne : packages ≠ [])
    (h : ∀ package ∈ packages, index.ShowsAlong source edge package) :
    index.provideAt source edge packages =
      index.appendEdges fun id => if edge.dependent = id then [⟨source, edge.declaration⟩] else [] := by
  refine congrArg (fun modules => { index with modules }) (Array.ext_getElem? fun id => ?_)
  rw [Array.getElem?_modify, Array.getElem?_mapIdx]
  by_cases hid : edge.dependent = id
  · obtain ⟨package, hp⟩ := List.exists_mem_of_ne_nil packages hne
    obtain ⟨record, hr, -⟩ := h package hp
    have hshows : ∀ other ∈ packages, record.Shows ⟨source, edge.declaration⟩ other := by
      intro other ho
      obtain ⟨same, hsame, hshown⟩ := h other ho
      rw [Option.some.inj (hr.symm.trans hsame)]
      exact hshown
    subst hid
    simp only [if_true, hr, Option.map_some, ModuleRecord.provide_of_shows hne hshows]
  · simp only [if_neg hid, ModuleRecord.appendEdges, List.append_nil, Option.map_id']

/-- An edge that shows what it imports makes no call, and adds an edge if it imports anything. -/
theorem spreadAlong_of_shown {edge : DependentEdge} (further : List String → ModuleId → Index → Index)
    (h : ∀ package ∈ packages, index.imports edge package = true → index.ShowsAlong source edge package) :
    spreadAlong further packages source index edge = index.appendEdges fun id =>
      if edge.dependent = id && packages.any (index.imports edge) then [⟨source, edge.declaration⟩] else [] := by
  have hshown : ∀ package ∈ index.taken edge packages, index.ShowsAlong source edge package :=
    fun package hp => h package (mem_taken.mp hp).1 (mem_taken.mp hp).2
  rcases spreadAlong_cases rfl further packages source edge with ⟨hnil, e⟩ | ⟨hne, -, e⟩ | ⟨hnew, -, -⟩
  · have hany : packages.any (index.imports edge) = false := List.any_eq_false.mpr (List.filter_eq_nil_iff.mp hnil)
    simp only [e, hany, Bool.and_false, Bool.false_eq_true, if_false, appendEdges_nil]
  · obtain ⟨package, hp⟩ := List.exists_mem_of_ne_nil _ hne
    have hany : packages.any (index.imports edge) = true := List.any_eq_true.mpr ⟨package, mem_taken.mp hp⟩
    simp only [e, provideAt_of_shown hne hshown, hany, Bool.and_true, decide_eq_true_eq]
  · obtain ⟨package, hp, hnot⟩ := hnew
    obtain ⟨record, hr, hshows⟩ := hshown package hp
    refine absurd ?_ hnot
    rw [through, hr]
    exact hshows.through

/-- The loop of a call over edges that show what they import. -/
theorem foldl_spreadAlong_of_shown (further : List String → ModuleId → Index → Index) {edges : List DependentEdge}
    (h : ∀ edge ∈ edges, ∀ package ∈ packages, index.imports edge package = true →
      index.ShowsAlong source edge package) :
    edges.foldl (spreadAlong further packages source) index = index.appendEdges fun id =>
      (edges.filter fun edge => edge.dependent = id && packages.any (index.imports edge)).map fun edge =>
        ⟨source, edge.declaration⟩ := by
  induction edges generalizing index with
  | nil => exact appendEdges_nil.symm
  | cons edge rest ih =>
    rw [List.forall_mem_cons] at h
    rw [List.foldl_cons, spreadAlong_of_shown further h.1, ih ?_, appendEdges_appendEdges,
      imports_congr ground_appendEdges]
    · congr 1
      funext id
      rw [List.filter_cons]
      split <;> rfl
    · intro next hn package hp hi
      rw [imports_congr ground_appendEdges] at hi
      exact (h.2 next hn package hp hi).appendEdges

theorem ShowsOwn.spread_eq (h : index.ShowsOwn) (hlt : source < index.modules.size) :
    index.spread source (index.packagesOf source) = index.appendEdges (index.importingEdges source) := by
  obtain ⟨room, hroom⟩ := Nat.exists_eq_add_one.mpr (Nat.zero_lt_of_lt hlt)
  rw [spread, hroom, spreadIn, if_neg List.not_mem_nil]
  exact foldl_spreadAlong_of_shown _ (h source)

theorem ShowsOwn.spreadAll_eq (h : index.ShowsOwn) : index.spreadAll = index.appendEdges index.directEdges := by
  have hmodules : ∀ (left : List ModuleId) {index : Index}, index.ShowsOwn → (∀ id ∈ left, id < index.modules.size) →
      left.foldl (fun index id => index.spread id (index.packagesOf id)) index =
        index.appendEdges fun id => left.flatMap (index.importingEdges · id) := by
    intro left
    induction left with
    | nil => exact fun _ _ => appendEdges_nil.symm
    | cons source rest ih =>
      intro index h hleft
      rw [List.forall_mem_cons] at hleft
      have hrest : ∀ id ∈ rest, id < (index.appendEdges (index.importingEdges source)).modules.size := by
        rw [size_congr ground_appendEdges]
        exact hleft.2
      rw [List.foldl_cons, h.spread_eq hleft.1, ih h.appendEdges hrest, appendEdges_appendEdges,
        importingEdges_appendEdges]
      rfl
  exact hmodules _ h fun _ hid => List.mem_range.mp hid

end Second

theorem directEdges_congr {i j : Index} (h : i.ground = j.ground) : i.directEdges = j.directEdges := by
  funext id
  simp only [directEdges, importingEdges, size_congr h, dependentsOf_congr h, packagesOf_congr h, imports_congr h]

theorem spreadAll_spreadAll (index : Index) :
    index.spreadAll.spreadAll = index.spreadAll.appendEdges index.directEdges := by
  rw [(showsOwn_spreadAll index).spreadAll_eq, directEdges_congr (steps_spreadAll index).ground_eq]

end Index

end ModuleAudit
