import Mathlib.Data.List.Forall2
import ModuleAudit.Proofs.Audit.Pruning
import ModuleAudit.Proofs.Audit.Unneeded
import ModuleAudit.Proofs.Build.References
import ModuleAudit.Proofs.Visibility.SameView

/-! What the audits read of an index: the view of what is visible, the names of the modules, which packages they refer
to, which of them have a main class, and which texts are loaded. Indices that show the same there get the same
findings (`SameView.unusedDependencies_eq`, `SameView.unusedModules_eq`). -/

namespace ModuleAudit
set_option autoImplicit false

theorem any_congr_of_mem_iff {l l' : List String} (h : ∀ a, a ∈ l ↔ a ∈ l') (p : String → Bool) :
    l.any p = l'.any p := by
  rw [Bool.eq_iff_iff, List.any_eq_true, List.any_eq_true]
  simp only [h]

/-- The reasons to keep a dependency are the same where both records show the same. -/
theorem usageOf_congr {record record' provider provider' : ModuleRecord} (hr : record.Coherent)
    (hr' : record'.Coherent) (hp : provider.Coherent) (hp' : provider'.Coherent)
    (hre : record.reExports = record'.reExports) (hthrough : record.through = record'.through)
    (hrefs : ∀ package, package ∈ record.packageRefs.keys ↔ package ∈ record'.packageRefs.keys)
    (hpackages : ∀ package, package ∈ provider.packages.keys ↔ package ∈ provider'.packages.keys)
    (hproviders : provider.through = provider'.through) (target : ModuleId) (declared : Dependency) :
    usageOf record target provider declared = usageOf record' target provider' declared := by
  have hrefers : record.refersThrough target = record'.refersThrough target := by
    rw [Bool.eq_iff_iff, hr.refersThrough_iff, hr'.refersThrough_iff, hthrough]
    simp only [hrefs]
  have hkeys : ∀ package, package ∈ provider.providers.keys ↔ package ∈ provider'.providers.keys := by
    intro package
    rw [hp.mem_keys_providers, hp'.mem_keys_providers, hproviders]
  rw [usageOf, usageOf, hre, hrefers, any_congr_of_mem_iff hpackages, any_congr_of_mem_iff hkeys]

namespace Index

theorem size_completed (index : Index) : index.completed.modules.size = index.modules.size := by
  have hspread : index.drawn.spreadAll.modules.size = index.modules.size := size_of_core_eq (core_spreadAll_drawn index)
  exact inheritAll_induct (P := fun i => i.modules.size = index.modules.size) hspread
    fun i module typeName n h => (size_refer i module typeName n).trans h

section Audits

variable {i j : Index} (hview : SameView i j) (hname : i.nameOf? = j.nameOf?)
include hview

theorem SameView.records (id : ModuleId) : i.modules[id]? = none ∧ j.modules[id]? = none ∨
    ∃ record record', i.modules[id]? = some record ∧ j.modules[id]? = some record' := by
  by_cases hlt : id < i.modules.size
  · have hlt' : id < j.modules.size := hview.size_eq ▸ hlt
    exact Or.inr ⟨_, _, Array.getElem?_eq_getElem hlt, Array.getElem?_eq_getElem hlt'⟩
  · have hlt' : ¬id < j.modules.size := hview.size_eq ▸ hlt
    exact Or.inl ⟨Array.getElem?_eq_none (Nat.le_of_not_lt hlt), Array.getElem?_eq_none (Nat.le_of_not_lt hlt')⟩

theorem SameView.through_record {id : ModuleId} {record record' : ModuleRecord} (hr : i.modules[id]? = some record)
    (hr' : j.modules[id]? = some record') : record.through = record'.through := by
  funext package
  have e := congrFun (congrFun hview.through_eq id) package
  rw [through, through, hr, hr'] at e
  exact e

theorem SameView.reExports_record {id : ModuleId} {record record' : ModuleRecord}
    (hr : i.modules[id]? = some record) (hr' : j.modules[id]? = some record') :
    record.reExports = record'.reExports := by
  have e := congrFun hview.reExportsOf_eq id
  rw [reExportsOf, reExportsOf, hr, hr'] at e
  exact OrderedSet.ext_toList e

variable (hi : i.Coherent) (hj : j.Coherent)
  (hrefs : ∀ id package, package ∈ i.packageRefsOf id ↔ package ∈ j.packageRefsOf id)
include hi hj hrefs

theorem SameView.usage_eq (module : ModuleId) (edge : DependencyEdge) : i.usage module edge = j.usage module edge := by
  rw [usage, usage]
  rcases hview.records module with ⟨hr, hr'⟩ | ⟨record, record', hr, hr'⟩
  · rw [hr, hr']
    rfl
  · rcases hview.records edge.target with ⟨hp, hp'⟩ | ⟨provider, provider', hp, hp'⟩
    · rw [hr, hr', hp, hp']
      rfl
    · have hdeclarations : record.declarations = record'.declarations := by
        have e := congrFun hview.declarationsOf_eq module
        rw [declarationsOf, declarationsOf, hr, hr'] at e
        exact e
      have hrefs' := hrefs module
      have hpackages := hview.packagesOf_iff edge.target
      simp only [packageRefsOf, packagesOf, hr, hr', hp, hp', Option.map_some, Option.getD_some] at hrefs' hpackages
      have husage := usageOf_congr (hi _ _ hr) (hj _ _ hr') (hi _ _ hp) (hj _ _ hp') (hview.reExports_record hr hr')
        (hview.through_record hr hr') hrefs' hpackages (hview.through_record hp hp') edge.target
      simp only [hr, hr', hp, hp', bind, Option.bind_some, hdeclarations, husage]

include hname in
theorem SameView.unusedDependencies_eq : i.unusedDependencies = j.unusedDependencies := by
  have hjudgements : i.judgements = j.judgements := by
    rw [judgements, judgements, judgementsOn_eq, judgementsOn_eq, hview.size_eq, hview.dependenciesOf_eq]
    simp only [hview.usage_eq hi hj hrefs]
  have hmoduleName : i.moduleName = j.moduleName := by
    funext id
    rw [moduleName, moduleName, ← nameOf?, ← nameOf?, hname]
  have hfinding : i.findingOf? = j.findingOf? := by
    funext judgement
    rw [findingOf?, findingOf?, hmoduleName]
  rw [unusedDependencies, unusedDependencies, hjudgements, hfinding]

omit hi hj hrefs

include hname in
theorem SameView.unusedModules_eq (hmain : i.hasMain = j.hasMain)
    (hloaded : i.pool.hasLiteral = j.pool.hasLiteral) (retain : List Pattern) :
    i.unusedModules retain = j.unusedModules retain := by
  have hfilter : ∀ {records records' : List ModuleRecord}, List.Forall₂ (fun record record' =>
      record.name = record'.name ∧ (i.verdict retain record = .unused ↔ j.verdict retain record' = .unused))
        records records' →
      (records.filter fun record => i.verdict retain record = .unused).map (·.name) =
        (records'.filter fun record => j.verdict retain record = .unused).map (·.name) := by
    intro records records' h
    induction h with
    | nil => rfl
    | @cons record record' _ _ hfirst _ ih =>
      rw [List.filter_cons, List.filter_cons]
      by_cases hunused : i.verdict retain record = .unused
      · simp [hunused, hfirst.2.mp hunused, hfirst.1, ih]
      · have hunused' : j.verdict retain record' ≠ .unused := fun e => hunused (hfirst.2.mpr e)
        simp [hunused, hunused', ih]
  refine hfilter (List.forall₂_iff_get.mpr ⟨hview.size_eq, fun id hlt hlt' => ?_⟩)
  have hr : i.modules[id]? = some (i.modules.toList.get ⟨id, hlt⟩) := Array.getElem?_eq_getElem hlt
  have hr' : j.modules[id]? = some (j.modules.toList.get ⟨id, hlt'⟩) := Array.getElem?_eq_getElem hlt'
  have hsame : (i.modules.toList.get ⟨id, hlt⟩).name = (j.modules.toList.get ⟨id, hlt'⟩).name := by
    have e := congrFun hname id
    rw [nameOf?, nameOf?, hr, hr'] at e
    exact Option.some.inj e
  refine ⟨hsame, ?_⟩
  rw [verdict_eq_unused_iff hr, verdict_eq_unused_iff hr', hmain, hview.dependentsOf_eq, hsame, hloaded]

end Audits

end Index

end ModuleAudit
