import Mathlib.Data.List.Forall2
import ModuleAudit.Audit.UnusedDependencies
import ModuleAudit.Proofs.Audit.Unneeded
import ModuleAudit.Proofs.Build.Pool

/-! Class files that cannot be read. All that such a file leaves behind is names and loaded texts in the pool, so the
index of findings is that of the findings without such files but for a larger pool (`ofFindings_fuller`), and so it is
in the end (`Fuller.completed`). Of the audits only that of unused modules looks at the pool, and a larger pool can
only speak for a module. -/

namespace ModuleAudit
set_option autoImplicit false

/-! ## Leaving out what cannot be read -/

/-- A class file that gives no class: its contents cannot be had, or something is wrong with them. -/
def ResourceItem.Broken : ResourceItem → Prop
  | .entry name (.ok contents) => Build.endsWith Build.classSuffix name = true ∧ classIn? 0 contents = none
  | .entry name (.error _) => Build.endsWith Build.classSuffix name = true
  | .notice _ => False

/-- Entries, and those that remain when some broken class files are left out. -/
inductive Cleared : List ResourceItem → List ResourceItem → Prop
  | nil : Cleared [] []
  | kept (item : ResourceItem) {items rest : List ResourceItem} (h : Cleared items rest) :
      Cleared (item :: items) (item :: rest)
  | dropped {item : ResourceItem} {items rest : List ResourceItem} (broken : item.Broken) (h : Cleared items rest) :
      Cleared (item :: items) rest

/-- A finding, and what it is when some broken class files are left out. -/
structure Finding.Cleared (finding other : Finding) : Prop extends Alike finding other where
  items : ModuleAudit.Cleared finding.items other.items

theorem ResourceItem.Broken.changes_eq {item : ResourceItem} (h : item.Broken) (module : ModuleId) :
    item.changes module = [] ∨ ∃ change, NamePool.Grows change ∧ item.changes module = [.pool change] := by
  cases item with
  | notice message => exact Or.inl rfl
  | entry name contents =>
    cases contents with
    | error reason => exact Or.inl rfl
    | ok contents =>
      obtain ⟨hclass, hnone⟩ := h
      refine Or.inr ⟨_, grows_ingest module contents, ?_⟩
      rw [ResourceItem.changes, if_pos hclass, classIn?_eq, hnone]
      rfl

namespace Index

variable {i j : Index}

theorem Fuller.items {items rest : List ResourceItem} (h : i.Fuller j) (hc : Cleared items rest)
    (module : ModuleId) : ((items.flatMap (ResourceItem.changes module)).foldl (Change.apply module) i).Fuller
      ((rest.flatMap (ResourceItem.changes module)).foldl (Change.apply module) j) := by
  induction hc generalizing i j with
  | nil => exact h
  | kept item _ ih =>
    rw [List.flatMap_cons, List.flatMap_cons, List.foldl_append, List.foldl_append]
    exact ih (Change.fuller_foldl_apply (fun _ => ResourceItem.tame_of_mem_changes) module h)
  | dropped broken _ ih =>
    rw [List.flatMap_cons, List.foldl_append]
    rcases broken.changes_eq module with e | ⟨change, hgrows, e⟩
    · rw [e]
      exact ih h
    · rw [e]
      exact ih (h.pooling_left hgrows)

theorem Fuller.contents (module : ModuleId) (mainClass : Option String) {roots roots' : List ResourceRoot}
    (dependencies : List Dependency) (h : i.Fuller j)
    (hc : Cleared (roots.flatMap ResourceRoot.items) (roots'.flatMap ResourceRoot.items)) :
    ((contentChanges module mainClass roots dependencies).foldl (Change.apply module) i).Fuller
      ((contentChanges module mainClass roots' dependencies).foldl (Change.apply module) j) := by
  rw [contentChanges_eq, contentChanges_eq, List.foldl_append, List.foldl_append, List.foldl_append,
    List.foldl_append]
  refine Change.fuller_foldl_apply (fun _ => Change.tame_of_mem_declared) module (Fuller.items ?_ hc module)
  exact Change.fuller_foldl_apply (fun _ => Change.tame_of_mem_main) module h

end Index

/-- Findings that are alike found nothing, the same alias, or the same module with other entries. -/
theorem Finding.Alike.spec?_cases {finding other : Finding} (h : finding.Alike other) :
    (finding.spec? = none ∧ other.spec? = none) ∨
    (∃ name target, finding.spec? = some (.link name target) ∧ other.spec? = some (.link name target)) ∨
    ∃ name mainClass roots roots' dependencies,
      finding.spec? = some (.module name mainClass roots dependencies) ∧
        other.spec? = some (.module name mainClass roots' dependencies) := by
  obtain ⟨hname, hmain, hdeclared, hlink⟩ := h
  rw [moduleName?, moduleName?] at hname
  rw [mainClass?, mainClass?] at hmain
  rw [declarations, declarations] at hdeclared
  -- An alias is told by what its own name leads to.
  have hlinks := fun name => congrFun hlink name
  simp only [linkOf?] at hlinks
  cases hs : finding.spec? with
  | none =>
    cases ho : other.spec? with
    | none => exact Or.inl ⟨rfl, rfl⟩
    | some spec =>
      cases spec with
      | link known target => simpa [hs, ho] using hlinks known
      | module known mainClass roots dependencies => simp [hs, ho] at hname
  | some spec =>
    cases spec with
    | link known target =>
      have hhere := hlinks known
      cases ho : other.spec? with
      | none => simp [hs, ho] at hhere
      | some spec =>
        cases spec with
        | module name mainClass roots dependencies => simp [hs, ho] at hname
        | link known' target' =>
          simp only [hs, ho, if_true] at hhere
          by_cases he : known' = known
          · rw [if_pos he] at hhere
            obtain rfl := he
            obtain rfl := Option.some.inj hhere
            exact Or.inr (Or.inl ⟨_, _, rfl, rfl⟩)
          · rw [if_neg he] at hhere
            cases hhere
    | module known mainClass roots dependencies =>
      cases ho : other.spec? with
      | none => simp [hs, ho] at hname
      | some spec =>
        cases spec with
        | link known' target => simp [hs, ho] at hname
        | module known' mainClass' roots' dependencies' =>
          simp only [hs, ho, Option.some.injEq] at hname hmain hdeclared
          subst hname hmain hdeclared
          exact Or.inr (Or.inr ⟨_, _, _, _, _, rfl, rfl⟩)

namespace Build

theorem addFinding_fuller {b c : Build} (h : b.index.Fuller c.index) {finding other : Finding}
    (hc : finding.Cleared other) : (b.addFinding finding).index.Fuller (c.addFinding other).index := by
  rw [addFinding_index, addFinding_index]
  have hitems := hc.items
  rw [Finding.items, Finding.items] at hitems
  rcases hc.spec?_cases with ⟨hs, ho⟩ | ⟨name, target, hs, ho⟩ |
    ⟨name, mainClass, roots, roots', dependencies, hs, ho⟩
  · rw [hs, ho]
    exact h
  · rw [hs, ho]
    exact h.addAlias name target
  · rw [hs, ho] at hitems ⊢
    obtain ⟨hadded, hid⟩ := h.addModule name
    simp only [hid]
    exact hadded.contents _ mainClass dependencies hitems

theorem ofFindings_fuller {findings others : List Finding} (h : List.Forall₂ Finding.Cleared findings others) :
    (ofFindings findings).index.Fuller (ofFindings others).index := by
  have hfold : ∀ b c : Build, b.index.Fuller c.index →
      (findings.foldl addFinding b).index.Fuller (others.foldl addFinding c).index := by
    induction h with
    | nil => exact fun _ _ h => h
    | cons hc _ ih => exact fun b c h => ih _ _ (addFinding_fuller h hc)
  exact hfold {} {} ⟨rfl, .refl _⟩

end Build

/-! ## What the audits see of the pool -/

namespace Index

variable {i j : Index} (h : i.Fuller j)
include h

theorem Fuller.unusedDependencies_eq : i.unusedDependencies = j.unusedDependencies := by
  have e := congrArg unusedDependencies h.bare_eq
  exact e

theorem Fuller.verdict_unused {retain : List Pattern} {record : ModuleRecord}
    (hv : i.verdict retain record = .unused) : j.verdict retain record = .unused := by
  have hliteral : ∀ text, i.pool.hasLiteral text = false → j.pool.hasLiteral text = false := by
    intro text ht
    rw [← Bool.not_eq_true] at ht ⊢
    exact fun hj => ht (h.pool.literals text hj)
  have hname : i.loadsName record.name = false → j.loadsName record.name = false := by
    simp only [loadsName, Bool.or_eq_false_iff]
    exact fun hi => ⟨hliteral _ hi.1, hliteral _ hi.2⟩
  rw [verdict] at hv ⊢
  split
  · rename_i hneeded
    rw [if_pos hneeded] at hv
    cases hv
  · rename_i hneeded
    rw [if_neg hneeded] at hv
    cases hi : i.loadsName record.name with
    | true => simp [hi] at hv
    | false =>
      rw [hname hi]
      rw [hi] at hv
      exact hv

theorem Fuller.unusedModules_sublist (retain : List Pattern) :
    (i.unusedModules retain).Sublist (j.unusedModules retain) := by
  rw [unusedModules, unusedModules, h.fields_eq.1]
  refine (List.monotone_filter_right _ fun record hv => ?_).map _
  rw [decide_eq_true_eq] at hv ⊢
  exact h.verdict_unused hv

end Index

namespace Build

/-- Class files that cannot be read change nothing but the pool. With them or without, the modules with their
references and what is visible in them, the classes with their links, and all names are the same, the pool holds no
less with them, the same dependencies are reported, and what is unused with them is unused without them. -/
theorem run_ignores_broken_classes {findings others : List Finding}
    (h : List.Forall₂ Finding.Cleared findings others) :
    (run findings).index.modules = (run others).index.modules ∧
    (run findings).index.classes = (run others).index.classes ∧
    (run findings).index.byName = (run others).index.byName ∧
    (run findings).index.aliases = (run others).index.aliases ∧
    (run others).index.pool.Within (run findings).index.pool ∧
    (run findings).index.unusedDependencies = (run others).index.unusedDependencies ∧
    ∀ retain, ((run findings).index.unusedModules retain).Sublist ((run others).index.unusedModules retain) := by
  have hfuller := (ofFindings_fuller h).completed
  rw [run_index, run_index]
  obtain ⟨hmodules, hbyName, haliases, hclasses⟩ := hfuller.fields_eq
  exact ⟨hmodules, hclasses, hbyName, haliases, hfuller.pool, hfuller.unusedDependencies_eq,
    hfuller.unusedModules_sublist⟩

/-- The file of a class `p/B` with a method that loads the text "top", cut off before the last two bytes. -/
def cutClass : Bytes :=
  [0xCA, 0xFE, 0xBA, 0xBE, 0, 0, 0, 52,
    -- The constants: the name as text and the class of that name, "Code", "top" as text and as a string, "()V".
    0, 7, 1, 0, 3, 0x70, 0x2F, 0x42, 7, 0, 1, 1, 0, 4, 0x43, 0x6F, 0x64, 0x65, 1, 0, 3, 0x74, 0x6F, 0x70, 8, 0, 4,
    1, 0, 3, 0x28, 0x29, 0x56,
    0, 1, 0, 2, 0, 0, 0, 0, 0, 0,
    -- The method, with its code.
    0, 1, 0, 1, 0, 4, 0, 6, 0, 1, 0, 3, 0, 0, 0, 14, 0, 1, 0, 1, 0, 0, 0, 2, 0x12, 5, 0, 0, 0, 0]

/-- A module with these entries, and a module `top` that depends on it. -/
def underTop (items : List ResourceItem) : List Finding :=
  [{ name := "base", outcome := .ok (some (.module "base" none [.listed { location := "base.jar", items }] [])) },
   { name := "top", outcome := .ok (some (.module "top" none [] [Dependency.onModule "base"])) }]

/-- Entries of which only the first can be read. -/
def halfReadable : List ResourceItem :=
  [.entry "p/A.class" (.ok bareClass), .entry "p/B.class" (.ok cutClass), .entry "p/C.class" (.error "denied")]

/-- The class file that is cut off leaves a text in the pool, and nothing else comes of it. -/
theorem run_ignores_broken_classes_halfReadable :
    List.Forall₂ Finding.Cleared (underTop halfReadable) (underTop (halfReadable.take 1)) ∧
    (run (underTop halfReadable)).index.pool.hasLiteral "top" = true ∧
    (run (underTop (halfReadable.take 1))).index.pool.hasLiteral "top" = false ∧
    (run (underTop halfReadable)).index.modules = (run (underTop (halfReadable.take 1))).index.modules ∧
    (run (underTop halfReadable)).index.classes = (run (underTop (halfReadable.take 1))).index.classes ∧
    ((run (underTop halfReadable)).index.unusedModules []).Sublist
      ((run (underTop (halfReadable.take 1))).index.unusedModules []) := by
  have hcleared : Cleared halfReadable (halfReadable.take 1) :=
    .kept _ (.dropped ⟨by decide +kernel, by decide +kernel⟩ (.dropped (by decide +kernel : _ = true) .nil))
  have h : List.Forall₂ Finding.Cleared (underTop halfReadable) (underTop (halfReadable.take 1)) :=
    .cons ⟨⟨rfl, rfl, rfl, rfl⟩, by simpa [Finding.items, Finding.spec?, ResourceRoot.items] using hcleared⟩
      (.cons ⟨⟨rfl, rfl, rfl, rfl⟩, .nil⟩ .nil)
  obtain ⟨hmodules, hclasses, -, -, -, -, hunused⟩ := run_ignores_broken_classes h
  refine ⟨h, ?_, ?_, hmodules, hclasses, hunused []⟩
  · rw [run_index, Index.hasLiteral_completed]
    decide +kernel
  · rw [run_index, Index.hasLiteral_completed]
    decide +kernel

end Build

end ModuleAudit
