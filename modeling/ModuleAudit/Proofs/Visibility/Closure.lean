import ModuleAudit.Proofs.Visibility.Settle

/-! Spreading computes the closure of the modules' own packages under the edges: a package that a module
carries goes along every edge that imports it, and is carried further where the edge exports it too.
Nothing else becomes visible (`spreadAll_sound`). What an edge passes on is visible along all edges
that import it (`spreadAll_relayed`), and where no module has two edges to the same one, every edge
passes on what it exports (`SingleEdges.settled`). -/

namespace ModuleAudit
set_option autoImplicit false

namespace Index

/-- A module carries its own packages and those that an edge of it imports and exports from a module
that carries them. -/
inductive Carries (index : Index) : ModuleId → String → Prop
  | own {id : ModuleId} {package : String} (member : package ∈ index.packagesOf id) :
      Carries index id package
  | passed {source : ModuleId} {edge : DependentEdge} {package : String}
      (member : edge ∈ index.dependentsOf source) (carried : Carries index source package)
      (imported : index.imports edge package = true) (exported : index.exports edge package = true) :
      Carries index edge.dependent package

/-- Nothing has been made visible or passed on yet. -/
def Unspread (index : Index) : Prop :=
  ∀ record ∈ index.modules, record.providers = {} ∧ record.reExports = {}

/-- No module has two edges to the same one. -/
def SingleEdges (index : Index) : Prop := ∀ id, ((index.dependentsOf id).map (·.dependent)).Nodup

theorem passesOn_carries (index : Index) : index.PassesOn index.Carries :=
  fun _ _ _ he hc hi hx => Carries.passed he hc hi hx

/-! ## What is visible was carried -/

section Sound

variable {carried : ModuleId → String → Prop} {i j : Index}

theorem Steps.through_sound (h : Steps carried i j) {id target : ModuleId} {package : String}
    (ht : target ∈ j.through id package) : target ∈ i.through id package ∨
      ∃ edge ∈ i.dependentsOf target, edge.dependent = id ∧ i.imports edge package = true ∧
        carried target package := by
  induction h with
  | refl => exact Or.inl ht
  | @tail b c hs hstep ih =>
    cases hstep with
    | @provide source edge packages member nonempty arrive =>
      obtain ⟨q, hq⟩ := List.exists_mem_of_ne_nil packages nonempty
      have hlt := lt_size_of_imports (arrive q hq).2
      rcases (mem_through_provideAt source packages hlt id target package).mp ht with h | ⟨rfl, hp, rfl⟩
      · exact ih h
      · have hg := Steps.ground_eq hs
        rw [dependentsOf_congr hg] at member
        rw [imports_congr hg] at arrive
        exact Or.inr ⟨edge, member, rfl, (arrive package hp).2, (arrive package hp).1⟩
    | reExport =>
      rw [through_reExportAt] at ht
      exact ih ht

theorem Steps.reExports_sound (h : Steps carried i j) {id target : ModuleId}
    (ht : target ∈ j.reExportsOf id) : target ∈ i.reExportsOf id ∨
      ∃ edge ∈ i.dependentsOf target, edge.dependent = id ∧
        ∃ package, i.imports edge package = true ∧ i.exports edge package = true ∧
          carried target package := by
  induction h with
  | refl => exact Or.inl ht
  | @tail b c hs hstep ih =>
    cases hstep with
    | provide =>
      rw [reExportsOf_provideAt] at ht
      exact ih ht
    | @reExport source edge package member arrives imported exported =>
      have hlt := lt_size_of_imports imported
      rcases (mem_reExportsOf_reExportAt source hlt id target).mp ht with h | ⟨rfl, rfl⟩
      · exact ih h
      · have hg := Steps.ground_eq hs
        rw [dependentsOf_congr hg] at member
        rw [imports_congr hg] at imported
        rw [exports_congr hg] at exported
        exact Or.inr ⟨edge, member, rfl, package, imported, exported, arrives⟩

end Sound

section Fresh

variable {index : Index} (hnew : index.Unspread)
include hnew

theorem Unspread.through_eq (id : ModuleId) (package : String) : index.through id package = [] := by
  rw [through]
  cases h : index.modules[id]? with
  | none => rfl
  | some record =>
    have hr := hnew record (Array.mem_of_getElem? h)
    simp [ModuleRecord.through, hr.1, OrderedMap.get?]

theorem Unspread.reExportsOf_eq (id : ModuleId) : index.reExportsOf id = [] := by
  rw [reExportsOf]
  cases h : index.modules[id]? with
  | none => rfl
  | some record =>
    have hr := hnew record (Array.mem_of_getElem? h)
    simp [hr.2]

theorem spreadAll_sound :
    (∀ id target package, target ∈ index.spreadAll.through id package →
      ∃ edge ∈ index.dependentsOf target, edge.dependent = id ∧ index.imports edge package = true ∧
        index.Carries target package) ∧
    (∀ id target, target ∈ index.spreadAll.reExportsOf id →
      ∃ edge ∈ index.dependentsOf target, edge.dependent = id ∧
        ∃ package, index.imports edge package = true ∧ index.exports edge package = true ∧
          index.Carries target package) := by
  have hs := spreadAll_steps index (passesOn_carries index) (fun _ _ hp => Carries.own hp)
  constructor
  · intro id target package ht
    rcases hs.through_sound ht with h | h
    · rw [hnew.through_eq] at h
      exact absurd h (by simp)
    · exact h
  · intro id target ht
    rcases hs.reExports_sound ht with h | h
    · rw [hnew.reExportsOf_eq] at h
      exact absurd h (by simp)
    · exact h

end Fresh

/-! ## What is carried becomes visible -/

/-- An edge of the module imports and exports a package that is carried to it. -/
def Receives (index : Index) (id : ModuleId) : Prop :=
  ∃ source edge package, edge ∈ index.dependentsOf source ∧ edge.dependent = id ∧
    index.Carries source package ∧ index.imports edge package = true ∧ index.exports edge package = true

/-- Two packages in company are the same, or both are packages of a module that receives none. -/
def Company (index : Index) (id : ModuleId) (q p : String) : Prop :=
  p = q ∨ q ∈ index.packagesOf id ∧ p ∈ index.packagesOf id ∧ ¬index.Receives id

theorem passedAlone_company (index : Index) : PassedAlone index index.Carries index.Company := by
  rintro source edge r he hc hi hx q p (h | ⟨-, -, hnone⟩)
  · exact h
  · exact absurd ⟨source, edge, r, he, rfl, hc, hi, hx⟩ hnone

section Complete

variable {index : Index} (hnew : index.Unspread)

/-- Spreading the packages of one module, with no call open before or after. -/
theorem spread_balanced {j : Index} (hs : Steps index.Carries index j) {id : ModuleId}
    (hlt : id < index.modules.size)
    (hb : Balanced index index.Carries index.Company (fun _ _ => False) j) :
    Steps index.Carries j (j.spread id (j.packagesOf id)) ∧
      Balanced index index.Carries index.Company (fun _ _ => False) (j.spread id (j.packagesOf id)) ∧
      ∀ p ∈ index.packagesOf id, Settled index (j.spread id (j.packagesOf id)) id p := by
  have hg := hs.ground_eq
  have hown : ∀ p ∈ index.packagesOf id, index.Carries id p := fun _ hp => Carries.own hp
  have call : Call index index.Carries index.Company (fun _ _ => False) index.modules.size []
      (index.packagesOf id) id := by
    refine ⟨hlt, List.nodup_nil, by simp, by simp, hown, ?_, by simp⟩
    rintro q hq p (rfl | ⟨-, hp, -⟩)
    · exact hq
    · exact hp
  rw [spread, packagesOf_congr hg, size_congr hg]
  obtain ⟨hbal, hset⟩ :=
    spreadIn_balanced (passesOn_carries index) (passedAlone_company index) _ _ _ _ _ j hg call hb
  exact ⟨spreadIn_steps (passesOn_carries index) _ _ _ _ _ hg hown, hbal, hset (by simp)⟩

include hnew

/-- When all is done nothing waits: the balance holds with no open call, and the packages of every
module are settled. -/
theorem spreadAll_balanced :
    Balanced index index.Carries index.Company (fun _ _ => False) index.spreadAll ∧
      ∀ id, ∀ p ∈ index.packagesOf id, Settled index index.spreadAll id p := by
  have hstart : Balanced index index.Carries index.Company (fun _ _ => False) index := by
    constructor
    · intro source edge q p ht
      rw [hnew.through_eq] at ht
      exact absurd ht (by simp)
    · intro source id ht
      rw [hnew.reExportsOf_eq] at ht
      exact absurd ht (by simp)
  have hloop : Steps index.Carries index index.spreadAll ∧
      Balanced index index.Carries index.Company (fun _ _ => False) index.spreadAll ∧
      ∀ id ∈ List.range index.modules.size, ∀ p ∈ index.packagesOf id,
        Settled index index.spreadAll id p := by
    refine foldl_passed (P := fun done j => Steps index.Carries index j ∧
      Balanced index index.Carries index.Company (fun _ _ => False) j ∧
      ∀ id ∈ done, ∀ p ∈ index.packagesOf id, Settled index j id p)
      ⟨Relation.ReflTransGen.refl, hstart, by simp⟩ ?_
    rintro done id rest j hl ⟨hsteps, hbal, hdone⟩
    have hlt : id < index.modules.size := by
      rw [← List.mem_range, hl]
      simp
    obtain ⟨hstep, hbal', hset⟩ := spread_balanced hsteps hlt hbal
    refine ⟨hsteps.trans hstep, hbal', ?_⟩
    intro other ho p hp
    rcases List.mem_append.mp ho with ho | ho
    · exact (hdone other ho p hp).mono hstep
    · rw [List.mem_singleton.mp ho] at hp ⊢
      exact hset p hp
  refine ⟨hloop.2.1, fun id p hp => hloop.2.2 id ?_ p hp⟩
  exact List.mem_range.mpr (lt_size_of_mem hp)

/-- An edge passes on what it imports and exports of a company of which it is the first to import one
that came. -/
theorem spreadAll_relayed {source : ModuleId} {edge : DependentEdge} {q p : String}
    (ht : source ∈ index.spreadAll.through edge.dependent q) (hl : index.Leads source edge q)
    (hco : index.Company source q p) (hi : index.imports edge p = true) (hx : index.exports edge p = true) :
    source ∈ index.spreadAll.reExportsOf edge.dependent ∧ Settled index index.spreadAll edge.dependent p := by
  obtain ⟨hr, hs⟩ := (spreadAll_balanced hnew).1.relayed source edge q p ht hl hco hi hx
  exact ⟨hr, hs.resolve_right (fun h => h)⟩

end Complete

/-! ## Single edges -/

theorem SingleEdges.leads {index : Index} (h : index.SingleEdges) {source : ModuleId}
    {edge : DependentEdge} {package : String} (he : edge ∈ index.dependentsOf source)
    (hi : index.imports edge package = true) : index.Leads source edge package := by
  obtain ⟨done, rest, hl⟩ := List.append_of_mem he
  rw [Leads, List.find?_eq_some_iff_append]
  refine ⟨by simpa using hi, done, rest, hl, ?_⟩
  intro e hed
  have hnd := h source
  rw [hl, List.map_append, List.map_cons, List.nodup_append] at hnd
  have hne : e.dependent ≠ edge.dependent :=
    hnd.2.2 _ (List.mem_map_of_mem hed) _ (by simp)
  simp [hne]

theorem SingleEdges.settled {index : Index} (h : index.SingleEdges) (hnew : index.Unspread)
    {id : ModuleId} {package : String} (hc : index.Carries id package) :
    Settled index index.spreadAll id package := by
  induction hc with
  | own hp => exact (spreadAll_balanced hnew).2 _ _ hp
  | passed he hc hi hx ih =>
    exact (spreadAll_relayed hnew (ih _ he hi) (h.leads he hi) (Or.inl rfl) hi hx).2

/-- Every visible package was carried to where it is visible from and imported there, and every module
that is passed on has a package that was carried to it and is imported and exported. Where no module has
two edges to the same one, the converses hold too. -/
theorem spreadAll_closure (index : Index) (hnew : index.Unspread) :
    ((∀ id target package, target ∈ index.spreadAll.through id package →
        ∃ edge ∈ index.dependentsOf target, edge.dependent = id ∧ index.imports edge package = true ∧
          index.Carries target package) ∧
      (∀ id target, target ∈ index.spreadAll.reExportsOf id →
        ∃ edge ∈ index.dependentsOf target, edge.dependent = id ∧
          ∃ package, index.imports edge package = true ∧ index.exports edge package = true ∧
            index.Carries target package)) ∧
    (index.SingleEdges →
      (∀ id target package, target ∈ index.spreadAll.through id package ↔
        ∃ edge ∈ index.dependentsOf target, edge.dependent = id ∧ index.imports edge package = true ∧
          index.Carries target package) ∧
      (∀ id target, target ∈ index.spreadAll.reExportsOf id ↔
        ∃ edge ∈ index.dependentsOf target, edge.dependent = id ∧
          ∃ package, index.imports edge package = true ∧ index.exports edge package = true ∧
            index.Carries target package)) := by
  obtain ⟨hthrough, hreExports⟩ := spreadAll_sound hnew
  refine ⟨⟨hthrough, hreExports⟩, fun hsingle => ⟨?_, ?_⟩⟩
  · intro id target package
    refine ⟨hthrough id target package, ?_⟩
    rintro ⟨edge, he, rfl, hi, hc⟩
    exact hsingle.settled hnew hc edge he hi
  · intro id target
    refine ⟨hreExports id target, ?_⟩
    rintro ⟨edge, he, rfl, package, hi, hx, hc⟩
    have ht := hsingle.settled hnew hc edge he hi
    exact (spreadAll_relayed hnew ht (hsingle.leads he hi) (Or.inl rfl) hi hx).1

/-- Two modules that depend on each other and pass on all that they import. -/
def mutualPair : Index where
  modules := #[
    { name := "a"
      packages := .ofList [("pa", 1)]
      declarations := [{ Dependency.onModule "b" with exports := .acceptAll }]
      dependents := [⟨1, 0⟩] },
    { name := "b"
      packages := .ofList [("pb", 1)]
      declarations := [{ Dependency.onModule "a" with exports := .acceptAll }]
      dependents := [⟨0, 0⟩] }]

/-- Each module of the pair sees its own package come back through the other. -/
theorem spreadAll_closure_mutualPair :
    mutualPair.Unspread ∧ mutualPair.SingleEdges ∧
      1 ∈ mutualPair.spreadAll.through 0 "pa" ∧ 1 ∈ mutualPair.spreadAll.reExportsOf 0 := by
  have hnew : mutualPair.Unspread := by simp [Unspread, mutualPair]
  have hsingle : mutualPair.SingleEdges := by
    intro id
    rcases id with - | - | id
    · decide
    · decide
    · simp [dependentsOf, mutualPair]
  have ha : mutualPair.Carries 0 "pa" := Carries.own (by decide)
  have he : (⟨1, 0⟩ : DependentEdge) ∈ mutualPair.dependentsOf 0 := by decide
  have hb : mutualPair.Carries 1 "pa" := Carries.passed he ha (by decide) (by decide)
  obtain ⟨hthrough, hreExports⟩ := (spreadAll_closure mutualPair hnew).2 hsingle
  refine ⟨hnew, hsingle, (hthrough 0 1 "pa").mpr ?_, (hreExports 0 1).mpr ?_⟩
  · exact ⟨⟨0, 0⟩, by decide, rfl, by decide, hb⟩
  · exact ⟨⟨0, 0⟩, by decide, rfl, "pa", by decide, by decide, hb⟩

end Index

end ModuleAudit
