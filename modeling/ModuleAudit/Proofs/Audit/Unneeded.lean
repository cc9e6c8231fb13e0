import ModuleAudit.Audit.UnusedModules
import ModuleAudit.Proofs.Aliases
import ModuleAudit.Proofs.Build.Recorded
import ModuleAudit.Proofs.Build.ReExports
import ModuleAudit.Proofs.ModuleName

/-! Unused modules, told by the findings. A module is unused iff no finding gives it a main class, no declared name
means it, no class file loads its name, and no pattern retains it (`run_unusedModules`). What a name means is read off
the findings too (`Means`). -/

namespace ModuleAudit
set_option autoImplicit false

/-- A name means a module if the module was found under it, or if no module was and it was found as an alias of a
name that means the module. -/
inductive Means (findings : List Finding) : String → String → Prop
  | own {name : String} (hn : name ∈ registered findings) : Means findings name name
  | link {name target module : String} (hn : name ∉ registered findings)
      (ha : aliasOf? findings name = some target) (h : Means findings target module) : Means findings name module

theorem Finding.exists_moduleName? {finding : Finding} {declared : Dependency}
    (h : declared ∈ finding.declarations) : ∃ name, finding.moduleName? = some name := by
  rw [declarations] at h
  split at h
  · rename_i name _ _ _ hs
    exact ⟨name, by rw [moduleName?, hs]⟩
  · exact absurd h List.not_mem_nil

namespace Index

section Recorded

variable {index : Index} {findings : List Finding} (h : index.Recorded (registered findings) findings)
  (hg : index.Gathered)
include h hg

/-! ## What names mean -/

theorem Recorded.get?_byName_eq_none_iff (name : String) :
    index.byName.get? name = none ↔ name ∉ registered findings := by
  rw [h.mem_iff, ← not_iff_not, not_not, ← ne_eq, Option.ne_none_iff_exists']
  exact exists_congr fun id => hg.named name id

theorem Recorded.findModule?_eq_some_iff {id : ModuleId} {module : String} (hid : index.nameOf? id = some module)
    (name : String) : index.findModule? name = some id ↔ Means findings name module := by
  rw [findModule?, follow_eq_some_iff]
  constructor
  · intro hs
    induction hs with
    | @own name id hn =>
      have hname := (hg.named name id).mp hn
      obtain rfl : name = module := Option.some.inj (hname.symm.trans hid)
      exact .own ((h.mem_iff name).mpr ⟨id, hname⟩)
    | @link name target id hn ha _ ih =>
      exact .link ((h.get?_byName_eq_none_iff hg name).mp hn) ((h.aliased name).symm.trans ha) (ih hid)
  · intro hm
    induction hm with
    | own hn => exact .own ((hg.named _ id).mpr hid)
    | link hn ha _ ih =>
      exact .link ((h.get?_byName_eq_none_iff hg _).mpr hn) ((h.aliased _).trans ha) (ih hid)

/-! ## What is declared -/

omit hg in
theorem Recorded.exists_mem_declarationsOf (declared : Dependency) :
    (∃ id, declared ∈ index.declarationsOf id) ↔ ∃ finding ∈ findings, declared ∈ finding.declarations := by
  constructor
  · rintro ⟨id, hd⟩
    have hlt : id < index.modules.size := lt_size_of_mem hd
    have hname : index.nameOf? id = some index.modules[id].name := by
      rw [nameOf?, Array.getElem?_eq_getElem hlt, Option.map_some]
    rw [h.declared id _ hname, List.mem_flatMap] at hd
    obtain ⟨finding, hf, hd⟩ := hd
    rw [Finding.declarationsFor] at hd
    split at hd
    · exact ⟨finding, hf, hd⟩
    · exact absurd hd List.not_mem_nil
  · rintro ⟨finding, hf, hd⟩
    obtain ⟨name, hname⟩ := Finding.exists_moduleName? hd
    obtain ⟨id, hid⟩ := (h.mem_iff name).mp (h.known finding hf name hname)
    refine ⟨id, ?_⟩
    rw [h.declared id name hid, List.mem_flatMap]
    exact ⟨finding, hf, by rw [Finding.declarationsFor, if_pos hname]; exact hd⟩

theorem Recorded.dependentsOf_eq_nil_iff {id : ModuleId} {module : String} (hid : index.nameOf? id = some module) :
    index.drawn.dependentsOf id = [] ↔ ∀ finding ∈ findings, ∀ declared ∈ finding.declarations,
      ∀ name, declared.moduleName? = some name → ¬Means findings name module := by
  have hresolve : ∀ declared : Dependency, index.resolve declared = some id ↔
      ∃ name, declared.moduleName? = some name ∧ Means findings name module := by
    intro declared
    rw [resolve, Option.bind_eq_some_iff]
    exact exists_congr fun name => and_congr_right fun _ => h.findModule?_eq_some_iff hg hid name
  have hedge : (∃ edge, edge ∈ index.drawn.dependentsOf id) ↔
      ∃ finding ∈ findings, ∃ declared ∈ finding.declarations, index.resolve declared = some id := by
    constructor
    · rintro ⟨edge, he⟩
      obtain ⟨declared, hd, hr⟩ := hg.mem_dependentsOf_drawn.mp he
      obtain ⟨finding, hf, hd⟩ :=
        (h.exists_mem_declarationsOf declared).mp ⟨edge.dependent, List.mem_of_getElem? hd⟩
      exact ⟨finding, hf, declared, hd, hr⟩
    · rintro ⟨finding, hf, declared, hd, hr⟩
      obtain ⟨dependent, hd⟩ := (h.exists_mem_declarationsOf declared).mpr ⟨finding, hf, hd⟩
      obtain ⟨i, hi⟩ := List.mem_iff_getElem?.mp hd
      exact ⟨⟨dependent, i⟩, hg.mem_dependentsOf_drawn.mpr ⟨declared, hi, hr⟩⟩
  rw [List.eq_nil_iff_forall_not_mem, ← not_exists, hedge]
  simp only [hresolve, not_exists, not_and]

end Recorded

/-! ## Verdicts -/

theorem hasLiteral_completed (index : Index) : index.completed.pool.hasLiteral = index.pool.hasLiteral := by
  refine inheritAll_induct (P := fun i => i.pool.hasLiteral = index.pool.hasLiteral) ?_
    fun i module typeName n hi => (hasLiteral_refer i module typeName n).trans hi
  have hspread := congrArg (fun i : Index => i.pool.hasLiteral) (steps_spreadAll index.drawn).ground_eq
  have hdrawn := congrArg (fun i : Index => i.pool.hasLiteral) (foldl_addEdge_eq index.allEdges index)
  exact hspread.trans hdrawn

theorem hasMain_completed (index : Index) (id : ModuleId) : index.completed.hasMain id = index.hasMain id := by
  rw [hasMain, map_completed_ground index (fun _ _ _ _ => rfl) (fun _ => rfl) (fun _ _ _ => rfl)]
  rfl

theorem verdict_eq_unused_iff {index : Index} {id : ModuleId} {record : ModuleRecord}
    (hr : index.modules[id]? = some record) (retain : List Pattern) :
    index.verdict retain record = .unused ↔ index.hasMain id = false ∧ index.dependentsOf id = [] ∧
      index.pool.hasLiteral record.name = false ∧ index.pool.hasLiteral (dottedPart record.name) = false ∧
      ∀ pattern ∈ retain, pattern.finds record.name = false := by
  have hmain : index.hasMain id = record.mainClass.isSome := by
    rw [hasMain, hr]
    rfl
  have hdependents : index.dependentsOf id = record.dependents := by
    rw [dependentsOf, hr]
    rfl
  have hloads : index.loadsName record.name = false ↔ index.pool.hasLiteral record.name = false ∧
      index.pool.hasLiteral (dottedPart record.name) = false := by
    rw [loadsName, ModuleName.parts_fst, Bool.or_eq_false_iff]
  have hretain : retain.any (·.finds record.name) = false ↔
      ∀ pattern ∈ retain, pattern.finds record.name = false := by
    simp only [List.any_eq_false, Bool.not_eq_true]
  rw [hmain, hdependents, ← hretain, ← and_assoc (a := index.pool.hasLiteral record.name = false), ← hloads, verdict]
  cases record.mainClass.isSome with
  | true => simp
  | false =>
    cases hd : record.dependents with
    | cons edge rest => simp
    | nil =>
      cases index.loadsName record.name with
      | true => simp
      | false => cases retain.any (·.finds record.name) <;> simp

theorem mem_unusedModules {index : Index} {retain : List Pattern} {name : String} :
    name ∈ index.unusedModules retain ↔ ∃ id, index.nameOf? id = some name ∧ index.hasMain id = false ∧
      index.dependentsOf id = [] ∧ index.pool.hasLiteral name = false ∧
      index.pool.hasLiteral (dottedPart name) = false ∧ ∀ pattern ∈ retain, pattern.finds name = false := by
  simp only [unusedModules, List.mem_map, List.mem_filter, decide_eq_true_eq, Array.mem_toList_iff,
    Array.mem_iff_getElem?]
  constructor
  · rintro ⟨record, ⟨⟨id, hr⟩, hv⟩, rfl⟩
    exact ⟨id, by rw [nameOf?, hr]; rfl, (verdict_eq_unused_iff hr retain).mp hv⟩
  · rintro ⟨id, hid, hrest⟩
    obtain ⟨record, hr, rfl⟩ := Option.map_eq_some_iff.mp hid
    exact ⟨record, ⟨⟨id, hr⟩, (verdict_eq_unused_iff hr retain).mpr hrest⟩, rfl⟩

theorem unusedModules_sublist (index : Index) (retain : List Pattern) :
    (index.unusedModules retain).Sublist (index.modules.toList.map (·.name)) :=
  List.filter_sublist.map _

theorem Recorded.names_completed {index : Index} {names : List String} {findings : List Finding}
    (h : index.Recorded names findings) : index.completed.modules.toList.map (·.name) = names := by
  rw [← h.names_eq]
  refine List.ext_getElem? fun id => ?_
  rw [List.getElem?_map, List.getElem?_map, Array.getElem?_toList, Array.getElem?_toList]
  exact nameOf?_completed index id

theorem Recorded.mem_unusedModules_completed {index : Index} {findings : List Finding}
    (h : index.Recorded (registered findings) findings) (hg : index.Gathered) (retain : List Pattern) (name : String) :
    name ∈ index.completed.unusedModules retain ↔ name ∈ registered findings ∧
      (∀ finding ∈ findings, finding.moduleName? = some name → finding.mainClass? = none) ∧
      (∀ finding ∈ findings, ∀ declared ∈ finding.declarations, ∀ target, declared.moduleName? = some target →
        ¬Means findings target name) ∧
      (∀ finding ∈ findings, name ∉ finding.texts ∧ dottedPart name ∉ finding.texts) ∧
      ∀ pattern ∈ retain, pattern.finds name = false := by
  have hloaded : ∀ text, index.pool.hasLiteral text = false ↔ ¬∃ finding ∈ findings, text ∈ finding.texts := by
    intro text
    rw [← Bool.not_eq_true, h.loaded, List.mem_flatMap]
  have hstarted : ∀ id, index.nameOf? id = some name → (index.hasMain id = false ↔
      ∀ finding ∈ findings, finding.moduleName? = some name → finding.mainClass? = none) := by
    intro id hid
    rw [h.started id name hid, List.any_eq_false]
    simp [Finding.starts]
  rw [mem_unusedModules, dependentsOf_completed, hasLiteral_completed, h.mem_iff, hloaded, hloaded]
  simp only [nameOf?_completed, hasMain_completed, not_exists, not_and]
  constructor
  · rintro ⟨id, hid, hmain, hdependents, hname, hdotted, hretain⟩
    exact ⟨⟨id, hid⟩, (hstarted id hid).mp hmain, (h.dependentsOf_eq_nil_iff hg hid).mp hdependents,
      fun finding hf => ⟨hname finding hf, hdotted finding hf⟩, hretain⟩
  · rintro ⟨⟨id, hid⟩, hmain, hdeclared, htexts, hretain⟩
    exact ⟨id, hid, (hstarted id hid).mpr hmain, (h.dependentsOf_eq_nil_iff hg hid).mpr hdeclared,
      fun finding hf => (htexts finding hf).1, fun finding hf => (htexts finding hf).2, hretain⟩

end Index

namespace Build

/-- The unused modules stand in the order in which they were found, each once. They are those without a main class
that no declared name means, whose name no class file loads, with or without its slot, and that no pattern
retains. -/
theorem run_unusedModules (findings : List Finding) (retain : List Pattern) :
    ((run findings).index.unusedModules retain).Sublist (registered findings) ∧
    ((run findings).index.unusedModules retain).Nodup ∧
    ∀ name, name ∈ (run findings).index.unusedModules retain ↔ name ∈ registered findings ∧
      (∀ finding ∈ findings, finding.moduleName? = some name → finding.mainClass? = none) ∧
      (∀ finding ∈ findings, ∀ declared ∈ finding.declarations, ∀ target, declared.moduleName? = some target →
        ¬Means findings target name) ∧
      (∀ finding ∈ findings, name ∉ finding.texts ∧ dottedPart name ∉ finding.texts) ∧
      ∀ pattern ∈ retain, pattern.finds name = false := by
  have hrecorded := ofFindings_recorded findings
  have hg := (ofFindings_gathered (fun _ _ => true) findings).1
  have hsublist := Index.unusedModules_sublist (run findings).index retain
  rw [run_index, hrecorded.names_completed] at hsublist
  rw [run_index]
  exact ⟨hsublist, hsublist.nodup (nodup_eraseDups _), hrecorded.mem_unusedModules_completed hg retain⟩

end Build

end ModuleAudit
