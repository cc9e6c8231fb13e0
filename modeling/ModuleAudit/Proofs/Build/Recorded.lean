import ModuleAudit.Proofs.Audit.Classified
import ModuleAudit.Proofs.Build.Contents

/-! What the index of findings records of them: the modules in the order in which they were first found, whether
they have a main class, what they declare, their classes, the aliases, and the texts that compiled code loads
(`ofFindings_recorded`). Each is told by the findings alone. -/

namespace ModuleAudit
set_option autoImplicit false

/-! ## What findings say -/

namespace Finding

/-- The name of the module that was found. -/
def moduleName? (finding : Finding) : Option String :=
  match finding.spec? with
  | some (.module name _ _ _) => some name
  | _ => none

/-- The main class of the module that was found. -/
def mainClass? (finding : Finding) : Option String :=
  match finding.spec? with
  | some (.module _ mainClass _ _) => mainClass
  | _ => none

/-- The entries of the module that was found, root by root. -/
def items (finding : Finding) : List ResourceItem :=
  match finding.spec? with
  | some (.module _ _ roots _) => roots.flatMap ResourceRoot.items
  | _ => []

/-- The declarations of the module that was found. -/
def declarations (finding : Finding) : List Dependency :=
  match finding.spec? with
  | some (.module _ _ _ dependencies) => dependencies
  | _ => []

/-- What a name is found to be an alias of. -/
def linkOf? (finding : Finding) (name : String) : Option String :=
  match finding.spec? with
  | some (.link known target) => if known = name then some target else none
  | _ => none

/-- Two findings of the same module or alias, whatever entries the module has. -/
structure Alike (finding other : Finding) : Prop where
  moduleName?_eq : finding.moduleName? = other.moduleName?
  mainClass?_eq : finding.mainClass? = other.mainClass?
  declarations_eq : finding.declarations = other.declarations
  linkOf?_eq : finding.linkOf? = other.linkOf?

/-- The texts that the class files of the module load. -/
def texts (finding : Finding) : List String := finding.items.flatMap ResourceItem.texts

/-- What the finding declares for the module `name`. -/
def declarationsFor (finding : Finding) (name : String) : List Dependency :=
  if finding.moduleName? = some name then finding.declarations else []

/-- Whether the finding gives the module `name` a main class. -/
def starts (finding : Finding) (name : String) : Bool :=
  finding.moduleName? = some name && finding.mainClass?.isSome

/-- The classes of the module that was found, where `names` numbers the modules. -/
def classesIn (names : List String) (finding : Finding) : List ClassRecord :=
  match finding.moduleName? with
  | some name => finding.items.filterMap (ResourceItem.class? (names.idxOf name))
  | none => []

end Finding

/-- The names of the modules that were found, each once, in the order in which they were first found. -/
def registered (findings : List Finding) : List String := (findings.filterMap Finding.moduleName?).eraseDups

/-- What a name is an alias of: the last finding counts. -/
def aliasOf? (findings : List Finding) (name : String) : Option String :=
  findings.reverse.findSome? (·.linkOf? name)

theorem registered_append_of_none (findings : List Finding) {finding : Finding} (h : finding.moduleName? = none) :
    registered (findings ++ [finding]) = registered findings := by
  simp [registered, h]

theorem registered_append_of_some (findings : List Finding) {finding : Finding} {name : String}
    (h : finding.moduleName? = some name) : registered (findings ++ [finding]) =
      if name ∈ registered findings then registered findings else registered findings ++ [name] := by
  simp only [registered, List.filterMap_append, List.eraseDups_append, List.mem_eraseDups]
  rw [List.filterMap_cons_some h, List.filterMap_nil]
  generalize findings.filterMap Finding.moduleName? = names
  by_cases hmem : name ∈ names
  · simp [List.removeAll, hmem]
  · simp [List.removeAll, hmem, List.eraseDups_cons]

/-! ## The index of findings -/

namespace Index

/-- What an index records of findings, where `names` are those of its modules. -/
structure Recorded (index : Index) (names : List String) (findings : List Finding) : Prop where
  known : ∀ finding ∈ findings, ∀ name, finding.moduleName? = some name → name ∈ names
  names_eq : index.modules.toList.map (·.name) = names
  started : ∀ id name, index.nameOf? id = some name → index.hasMain id = findings.any (·.starts name)
  declared : ∀ id name, index.nameOf? id = some name →
    index.declarationsOf id = findings.flatMap (·.declarationsFor name)
  classes_eq : index.classes.toList = findings.flatMap (·.classesIn names)
  aliased : ∀ name, index.aliases.get? name = aliasOf? findings name
  loaded : ∀ text, index.pool.hasLiteral text = true ↔ text ∈ findings.flatMap Finding.texts

section Recorded

variable {index : Index} {names : List String} {findings : List Finding} (h : index.Recorded names findings)
include h

theorem Recorded.nameOf?_eq (id : ModuleId) : index.nameOf? id = names[id]? := by
  rw [← h.names_eq, List.getElem?_map, nameOf?, Array.getElem?_toList]

theorem Recorded.mem_iff (name : String) : name ∈ names ↔ ∃ id, index.nameOf? id = some name := by
  simp only [h.nameOf?_eq, List.mem_iff_getElem?]

/-- A finding without a module may change the aliases only. -/
theorem Recorded.without_module {j : Index} {finding : Finding} (hnone : finding.moduleName? = none)
    (hmodules : j.modules = index.modules) (hclasses : j.classes = index.classes)
    (haliases : ∀ name, j.aliases.get? name = (finding.linkOf? name).or (index.aliases.get? name))
    (hloaded : j.pool.hasLiteral = index.pool.hasLiteral) : j.Recorded names (findings ++ [finding]) := by
  have hitems : finding.items = [] := by
    rw [Finding.moduleName?] at hnone
    rw [Finding.items]
    split at hnone
    · cases hnone
    · rfl
  refine ⟨?_, ?_, ?_, ?_, ?_, ?_, ?_⟩
  · intro other ho name hname
    rcases List.mem_append.mp ho with ho | ho
    · exact h.known other ho name hname
    · rw [List.mem_singleton.mp ho, hnone] at hname
      cases hname
  · rw [hmodules, h.names_eq]
  · intro id name hname
    rw [nameOf?, hmodules] at hname
    rw [List.any_append, ← h.started id name hname]
    simp [hasMain, hmodules, Finding.starts, hnone]
  · intro id name hname
    rw [nameOf?, hmodules] at hname
    rw [List.flatMap_append, ← h.declared id name hname]
    simp [declarationsOf, hmodules, Finding.declarationsFor, hnone]
  · rw [hclasses, h.classes_eq]
    simp [Finding.classesIn, hnone]
  · intro name
    rw [haliases, aliasOf?, List.reverse_append, List.reverse_singleton, List.singleton_append,
      List.findSome?_cons, h.aliased, aliasOf?]
    cases finding.linkOf? name <;> rfl
  · intro text
    rw [hloaded, h.loaded]
    simp [Finding.texts, hitems]

theorem Recorded.addModule (hg : index.Gathered) (name : String) :
    (index.addModule name).1.Recorded (if name ∈ names then names else names ++ [name]) findings := by
  have hmem : name ∈ names ↔ (index.byName.get? name).isSome := by
    rw [h.mem_iff, Option.isSome_iff_exists]
    exact exists_congr fun id => (hg.named name id).symm
  have hloaded : ∀ text, (index.pool.add name).hasLiteral text = true ↔ text ∈ findings.flatMap Finding.texts := by
    rw [NamePool.hasLiteral_add]
    exact h.loaded
  simp only [Index.addModule, pooling]
  cases hn : index.byName.get? name with
  | some id =>
    rw [if_pos (hmem.mpr (by rw [hn]; rfl))]
    exact ⟨h.known, h.names_eq, h.started, h.declared, h.classes_eq, h.aliased, hloaded⟩
  | none =>
    have hfresh : name ∉ names := fun hin => by simp [hn] at hmem; exact hmem hin
    have hunfound : ∀ finding ∈ findings, finding.moduleName? ≠ some name :=
      fun finding hf hname => hfresh (h.known finding hf name hname)
    have hname : ∀ {id other}, ({ index with
          modules := index.modules.push { name }, byName := index.byName.insert name index.modules.size
          pool := index.pool.add name } : Index).nameOf? id = some other →
        index.nameOf? id = some other ∧ id ≠ index.modules.size ∨ id = index.modules.size ∧ other = name := by
      intro id other ho
      simp only [nameOf?, Array.getElem?_push] at ho
      split at ho
      · rename_i hid
        exact Or.inr ⟨hid, (Option.some.inj ho).symm⟩
      · rename_i hid
        exact Or.inl ⟨ho, hid⟩
    rw [if_neg hfresh]
    refine ⟨?_, ?_, ?_, ?_, ?_, h.aliased, hloaded⟩
    · exact fun finding hf other ho => List.mem_append_left _ (h.known finding hf other ho)
    · rw [Array.toList_push, List.map_append, h.names_eq]
      rfl
    · intro id other ho
      rcases hname ho with ⟨hold, hid⟩ | ⟨rfl, rfl⟩
      · simp only [hasMain, Array.getElem?_push, if_neg hid]
        exact h.started id other hold
      · have hnone : findings.any (·.starts other) = false := by
          rw [List.any_eq_false]
          intro finding hf
          simp [Finding.starts, hunfound finding hf]
        simp [hasMain, hnone]
    · intro id other ho
      rcases hname ho with ⟨hold, hid⟩ | ⟨rfl, rfl⟩
      · simp only [declarationsOf, Array.getElem?_push, if_neg hid]
        exact h.declared id other hold
      · have hnone : findings.flatMap (·.declarationsFor other) = [] := by
          rw [List.flatMap_eq_nil_iff]
          intro finding hf
          rw [Finding.declarationsFor, if_neg (hunfound finding hf)]
        simp [declarationsOf, hnone]
    · rw [h.classes_eq]
      refine List.flatMap_congr fun finding hf => ?_
      rw [Finding.classesIn, Finding.classesIn]
      cases hfound : finding.moduleName? with
      | none => rfl
      | some known =>
        dsimp only
        rw [List.idxOf_append_of_mem (h.known finding hf known hfound)]

theorem Recorded.contents (hg : index.Gathered) {module : ModuleId} {name : String}
    (hname : index.nameOf? module = some name) {finding : Finding} {mainClass : Option String}
    {roots : List ResourceRoot} {dependencies : List Dependency}
    (hf : finding.spec? = some (.module name mainClass roots dependencies)) :
    ((contentChanges module mainClass roots dependencies).foldl (Change.apply module) index).Recorded names
      (findings ++ [finding]) := by
  have hfound : finding.moduleName? = some name := by rw [Finding.moduleName?, hf]
  have hmain : finding.mainClass? = mainClass := by rw [Finding.mainClass?, hf]
  have hdeclared : finding.declarations = dependencies := by rw [Finding.declarations, hf]
  have hitems : finding.items = roots.flatMap ResourceRoot.items := by rw [Finding.items, hf]
  have hsame : ∀ {id other}, index.nameOf? id = some other → (name = other ↔ id = module) := by
    intro id other ho
    constructor
    · rintro rfl
      exact hg.eq_of_nameOf? ho hname
    · rintro rfl
      exact Option.some.inj (hname.symm.trans ho)
  have hnumber : names.idxOf name = module := by
    have hnodup : names.Nodup := by
      rw [List.nodup_iff_getElem?_ne_getElem?]
      intro i j hij hj heq
      rw [← h.nameOf?_eq, ← h.nameOf?_eq] at heq
      have hjname : ∃ other, index.nameOf? j = some other := by
        rw [h.nameOf?_eq]
        exact ⟨_, List.getElem?_eq_getElem hj⟩
      obtain ⟨other, ho⟩ := hjname
      exact Nat.ne_of_lt hij (hg.eq_of_nameOf? (heq.trans ho) ho)
    rw [h.nameOf?_eq] at hname
    obtain ⟨hlt, rfl⟩ := List.getElem?_eq_some_iff.mp hname
    exact hnodup.idxOf_getElem module hlt
  refine ⟨?_, ?_, ?_, ?_, ?_, ?_, ?_⟩
  · intro other ho known hknown
    rcases List.mem_append.mp ho with ho | ho
    · exact h.known other ho known hknown
    · rw [List.mem_singleton.mp ho, hfound] at hknown
      rw [← Option.some.inj hknown, h.mem_iff]
      exact ⟨module, hname⟩
  · rw [← h.names_eq]
    refine List.ext_getElem? fun id => ?_
    have e := Change.nameOf?_foldl_apply module (contentChanges module mainClass roots dependencies) index id
    rw [List.getElem?_map, List.getElem?_map, Array.getElem?_toList, Array.getElem?_toList]
    exact e
  · intro id other ho
    rw [Change.nameOf?_foldl_apply] at ho
    rw [Change.hasMain_foldl_apply _ hname, any_isMain_contentChanges, List.any_append, ← h.started id other ho]
    simp [Finding.starts, hfound, hmain, hsame ho]
  · intro id other ho
    rw [Change.nameOf?_foldl_apply] at ho
    rw [Change.declarationsOf_foldl_apply _ hname, declared_contentChanges, List.flatMap_append,
      ← h.declared id other ho]
    simp [Finding.declarationsFor, hfound, hdeclared, hsame ho]
  · rw [Change.classes_foldl_apply, attached_contentChanges, h.classes_eq, List.flatMap_append,
      List.flatMap_singleton, Finding.classesIn, hfound, hitems, ← hnumber]
  · intro other
    have hlink : finding.linkOf? other = none := by rw [Finding.linkOf?, hf]
    rw [Change.aliases_foldl_apply, h.aliased, aliasOf?, aliasOf?, List.reverse_append, List.reverse_singleton,
      List.singleton_append, List.findSome?_cons, hlink]
  · intro text
    rw [hasLiteral_contentChanges, h.loaded, List.flatMap_append, List.flatMap_singleton, Finding.texts, hitems,
      List.mem_append]

end Recorded

end Index

namespace Build

theorem ofFindings_recorded (findings : List Finding) :
    (ofFindings findings).index.Recorded (registered findings) findings := by
  refine ofFindings_induct (P := fun done index => index.Recorded (registered done) done) ?_ ?_ ?_ ?_ findings
  · refine ⟨by simp, rfl, ?_, ?_, rfl, fun _ => rfl, fun text => ?_⟩
    · intro id name hname
      simp [Index.nameOf?] at hname
    · intro id name hname
      simp [Index.nameOf?] at hname
    · exact iff_of_false Bool.false_ne_true List.not_mem_nil
  · intro done finding index hs _ hrecorded
    have hnone : finding.moduleName? = none := by rw [Finding.moduleName?, hs]
    rw [registered_append_of_none done hnone]
    exact hrecorded.without_module hnone rfl rfl (fun name => by rw [Finding.linkOf?, hs]; rfl) rfl
  · intro done finding index name target hs _ hrecorded
    have hnone : finding.moduleName? = none := by rw [Finding.moduleName?, hs]
    rw [registered_append_of_none done hnone]
    have hloaded : (index.addAlias name target).pool.hasLiteral = index.pool.hasLiteral :=
      (NamePool.hasLiteral_add _ target).trans (NamePool.hasLiteral_add _ name)
    refine hrecorded.without_module hnone rfl rfl (fun other => ?_) hloaded
    have halias := OrderedMap.get?_alter index.aliases name other fun _ => target
    rw [Finding.linkOf?, hs]
    refine halias.trans ?_
    by_cases he : other = name
    · simp [he]
    · simp [he, Ne.symm he]
  · intro done finding index name mainClass roots dependencies hs hg hrecorded
    obtain ⟨hadded, hname⟩ := hg.addModule name
    have hfound : finding.moduleName? = some name := by rw [Finding.moduleName?, hs]
    rw [registered_append_of_some done hfound]
    exact (hrecorded.addModule hg name).contents hadded hname hs

end Build

end ModuleAudit
