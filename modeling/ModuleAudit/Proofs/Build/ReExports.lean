import ModuleAudit.Proofs.Build.Complete

/-! When a declared re-export takes effect. A declaration that imports and exports a package of its target
passes it on if it is the first of its module's declarations of that target to import the package; a
declaration that comes later finds nothing new. From a target that receives no packages all come at once, so
there it is enough to be the first to import one of them. -/

namespace ModuleAudit
set_option autoImplicit false

namespace Index

/-! ## What is carried in a completed index -/

theorem Carries.of_views {i j : Index} (hd : i.dependentsOf = j.dependentsOf) (hp : i.packagesOf = j.packagesOf)
    (hi : i.imports = j.imports) (hx : i.exports = j.exports) {id : ModuleId} {package : String}
    (h : i.Carries id package) : j.Carries id package := by
  induction h with
  | own member => exact Carries.own (hp ▸ member)
  | passed member _ imported exported ih =>
    exact Carries.passed (hd ▸ member) ih (hi ▸ imported) (hx ▸ exported)

section Completed

variable (index : Index)

theorem dependentsOf_completed : index.completed.dependentsOf = index.drawn.dependentsOf := by
  funext id
  rw [dependentsOf, map_completed index (fun _ _ _ _ => rfl),
    map_of_ground_eq (fun _ => rfl) (steps_spreadAll index.drawn).ground_eq]
  rfl

theorem packagesOf_drawn : index.drawn.packagesOf = index.packagesOf := by
  funext id
  rw [packagesOf, drawn, getElem?_foldl_addEdge, Option.map_map]
  rfl

theorem declared_completed : index.completed.declared = index.drawn.declared := by
  funext edge
  rw [declared_eq, declared_eq, declarationsOf_completed, drawn, declarationsOf_foldl_addEdge]

theorem imports_completed : index.completed.imports = index.drawn.imports := by
  funext edge package
  simp only [imports, declared_completed]

theorem exports_completed : index.completed.exports = index.drawn.exports := by
  funext edge package
  simp only [exports, declared_completed]

theorem carries_completed (id : ModuleId) (package : String) :
    index.completed.Carries id package ↔ index.drawn.Carries id package := by
  have hd := dependentsOf_completed index
  have hp : index.completed.packagesOf = index.drawn.packagesOf := by
    rw [packagesOf_drawn]
    exact funext (packagesOf_completed index)
  have hi := imports_completed index
  have hx := exports_completed index
  exact ⟨fun h => h.of_views hd hp hi hx, fun h => h.of_views hd.symm hp.symm hi.symm hx.symm⟩

theorem receives_completed (id : ModuleId) : index.completed.Receives id ↔ index.drawn.Receives id := by
  simp only [Receives, dependentsOf_completed, carries_completed, imports_completed, exports_completed]

end Completed

/-- A module that receives nothing carries its own packages only. -/
theorem Carries.own_of_not_receives {index : Index} {id : ModuleId} {package : String}
    (h : index.Carries id package) (hnone : ¬index.Receives id) : package ∈ index.packagesOf id := by
  cases h with
  | own member => exact member
  | passed member carried imported exported =>
    exact absurd ⟨_, _, package, member, rfl, carried, imported, exported⟩ hnone

/-! ## Edges of declarations -/

section Gathered

variable {index : Index} {id target : ModuleId} {i : Nat} {declaration : Dependency}

theorem imports_drawn (h : (index.declarationsOf id)[i]? = some declaration) (package : String) :
    index.drawn.imports ⟨id, i⟩ package = declaration.imports.accepts package := by
  rw [imports, declared_eq, drawn, declarationsOf_foldl_addEdge, h]
  rfl

theorem exports_drawn (h : (index.declarationsOf id)[i]? = some declaration) (package : String) :
    index.drawn.exports ⟨id, i⟩ package = declaration.exports.accepts package := by
  rw [exports, declared_eq, drawn, declarationsOf_foldl_addEdge, h]
  rfl

variable (hg : index.Gathered)
include hg

/-- Settled packages are visible through every declaration that imports them. -/
theorem Gathered.through_of_settled {package : String}
    (h : Settled index.drawn index.drawn.spreadAll target package)
    (hd : declaration ∈ index.declarationsOf id) (hr : index.resolve declaration = some target)
    (himports : declaration.imports.accepts package = true) :
    target ∈ index.drawn.spreadAll.through id package := by
  obtain ⟨i, hi⟩ := List.mem_iff_getElem?.mp hd
  refine h ⟨id, i⟩ (hg.mem_dependentsOf_drawn.mpr ⟨declaration, hi, hr⟩) ?_
  rw [imports_drawn hi]
  exact himports

/-- The first declaration to import a package passes on what it imports and exports of the packages that come
with it. -/
theorem Gathered.reExported {q p : String} (hq : q ∈ index.packagesOf target)
    (hfirst : index.firstImporter id target q = some declaration) (hp : p ∈ index.packagesOf target)
    (hpass : declaration.passesOn p = true) (hco : p = q ∨ ¬index.completed.Receives target) :
    target ∈ index.completed.reExportsOf id ∧
      ∀ other, ∀ d ∈ index.declarationsOf other, index.resolve d = some id →
        d.imports.accepts p = true → id ∈ index.completed.through other p := by
  obtain ⟨i, hi, hlead⟩ := hg.leads_of_firstImporter hfirst
  rw [← packagesOf_drawn] at hq hp
  rw [receives_completed] at hco
  obtain ⟨himports, hexports⟩ := Bool.and_eq_true_iff.mp hpass
  have hthrough : target ∈ index.drawn.spreadAll.through (DependentEdge.mk id i).dependent q :=
    (spreadAll_balanced hg.unspread_drawn).2 target q hq ⟨id, i⟩ hlead.mem hlead.imports_eq
  have hcompany : index.drawn.Company target q p := hco.imp (fun h => h) fun h => ⟨hq, hp, h⟩
  obtain ⟨hre, hsettled⟩ := spreadAll_relayed hg.unspread_drawn hthrough hlead hcompany
    ((imports_drawn hi p).trans himports) ((exports_drawn hi p).trans hexports)
  refine ⟨?_, fun other d hd hr hacc => ?_⟩
  · rw [reExportsOf_completed]
    exact hre
  · rw [through_completed]
    exact hg.through_of_settled hsettled hd hr hacc

/-- What is passed on was first imported by a declaration that passes something on. -/
theorem Gathered.exists_of_reExported (h : target ∈ index.completed.reExportsOf id) :
    ∃ q p declaration, index.completed.Carries target q ∧ index.completed.Carries target p ∧
      index.firstImporter id target q = some declaration ∧ declaration.passesOn p = true := by
  rw [reExportsOf_completed] at h
  obtain ⟨edge, q, p, rfl, hq, hlead, hp, himports, hexports⟩ :=
    (spreadAll_balanced hg.unspread_drawn).1.led target id h
  obtain ⟨declaration, hd, hfirst⟩ := hg.firstImporter_of_leads hlead
  rw [imports_drawn hd] at himports
  rw [exports_drawn hd] at hexports
  refine ⟨q, p, declaration, ?_, ?_, hfirst, Bool.and_eq_true_iff.mpr ⟨himports, hexports⟩⟩
  · exact (carries_completed index target q).mpr hq
  · exact (carries_completed index target p).mpr hp

end Gathered

end Index

namespace Build

/-- The first declaration of a target to import a package of it passes the package on if it exports it; and
if the target receives nothing, it passes on whatever it exports of the target's packages. A later
declaration does not: a target that is passed on has a declaration that is the first to import a package
carried by it and passes one on. -/
theorem reExport_takes_effect (findings : List Finding) (module target : ModuleId) :
    (∀ q ∈ (run findings).index.packagesOf target, ∀ p ∈ (run findings).index.packagesOf target,
      ∀ declared, (run findings).index.firstImporter module target q = some declared →
        declared.passesOn p = true → p = q ∨ ¬(run findings).index.Receives target →
        target ∈ (run findings).index.reExportsOf module ∧
          ∀ other, ∀ d ∈ (run findings).index.declarationsOf other,
            (run findings).index.resolve d = some module → d.imports.accepts p = true →
              module ∈ (run findings).index.through other p) ∧
    (target ∈ (run findings).index.reExportsOf module →
      ∃ q p declared, (run findings).index.Carries target q ∧ (run findings).index.Carries target p ∧
        (run findings).index.firstImporter module target q = some declared ∧ declared.passesOn p = true) ∧
    (¬(run findings).index.Receives target →
      (target ∈ (run findings).index.reExportsOf module ↔
        ∃ q ∈ (run findings).index.packagesOf target, ∃ p ∈ (run findings).index.packagesOf target,
          ∃ declared, (run findings).index.firstImporter module target q = some declared ∧
            declared.passesOn p = true)) := by
  have hg := (ofFindings_gathered (fun _ _ => true) findings).1
  have hdeclarations := funext (Index.declarationsOf_completed (ofFindings findings).index)
  have hresolve := Index.resolve_completed (ofFindings findings).index
  have hfirst : (run findings).index.firstImporter = (ofFindings findings).index.firstImporter := by
    funext id target package
    rw [run_index, Index.firstImporter, hdeclarations, hresolve]
    rfl
  rw [hfirst, run_index, hdeclarations, hresolve, funext (Index.packagesOf_completed _)]
  refine ⟨?_, hg.exists_of_reExported, fun hnone => ⟨fun h => ?_, ?_⟩⟩
  · exact fun q hq p hp declared hlead hpass hco => hg.reExported hq hlead hp hpass hco
  · obtain ⟨q, p, declared, hq, hp, hlead, hpass⟩ := hg.exists_of_reExported h
    rw [← funext (Index.packagesOf_completed (ofFindings findings).index)]
    exact ⟨q, hq.own_of_not_receives hnone, p, hp.own_of_not_receives hnone, declared, hlead, hpass⟩
  · rintro ⟨q, hq, p, hp, declared, hlead, hpass⟩
    exact (hg.reExported hq hlead hp hpass (Or.inr hnone)).1

/-- The file of a class `p/A` that has no supertype and no members. -/
def bareClass : Bytes :=
  [0xCA, 0xFE, 0xBA, 0xBE, 0, 0, 0, 52,
    -- The constants: the name as text, and the class of that name.
    0, 3, 1, 0, 3, 0x70, 0x2F, 0x41, 7, 0, 1,
    0, 1, 0, 2, 0, 0, 0, 0, 0, 0, 0, 0, 0, 0]

/-- A module that declares another plainly and then with an export, and a module that depends on it. -/
def lateExport : List Finding :=
  [{ name := "base"
     outcome := .ok (some (.module "base" none
       [.listed { location := "base.jar", items := [.entry "p/A.class" (.ok bareClass)] }] [])) },
   { name := "middle"
     outcome := .ok (some (.module "middle" none []
       [Dependency.onModule "base", { Dependency.onModule "base" with exports := .acceptAll }])) },
   { name := "top", outcome := .ok (some (.module "top" none [] [Dependency.onModule "middle"])) }]

/-- The second declaration imports and exports the package, and yet nothing is passed on. -/
theorem late_export_without_effect :
    ("p" ∈ (run lateExport).index.packagesOf 0 ∧
      ∃ declared ∈ (run lateExport).index.declarationsOf 1,
        (run lateExport).index.resolve declared = some 0 ∧ declared.passesOn "p" = true) ∧
    (∃ d ∈ (run lateExport).index.declarationsOf 2,
      (run lateExport).index.resolve d = some 1 ∧ d.imports.accepts "p" = true) ∧
    0 ∉ (run lateExport).index.reExportsOf 1 ∧ 1 ∉ (run lateExport).index.through 2 "p" := by
  rw [run_index, Index.packagesOf_completed, Index.declarationsOf_completed, Index.declarationsOf_completed,
    Index.resolve_completed, Index.reExportsOf_completed, Index.through_completed]
  decide +kernel

end Build

end ModuleAudit
