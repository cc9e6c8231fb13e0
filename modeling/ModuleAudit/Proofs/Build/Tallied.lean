import ModuleAudit.Proofs.Build.Changes
import ModuleAudit.Proofs.Build.Core

/-! The references of modules to packages follow their references to types: a package is referred to if and only
if a type in it is, and as often as all of its types together (`Tallied`). The counters have 32 bits, so the sum is
taken modulo `UInt32.size`; it is the sum itself exactly when that has room (`Tallied.exact_iff`). Every way in which
a build refers to a type keeps that (`AllTallied.apply`, `AllTallied.completed`). -/

namespace ModuleAudit
set_option autoImplicit false

/-! ## Counts by package -/

/-- The sum of the counts of the names that are to be kept, as a number without bound. -/
def total (keep : String → Bool) : List (String × UInt32) → Nat
  | [] => 0
  | (name, n) :: rest => (if keep name then n.toNat else 0) + total keep rest

theorem ofNat_total_cons (keep : String → Bool) (name : String) (n : UInt32) (rest : List (String × UInt32)) :
    UInt32.ofNat (total keep ((name, n) :: rest)) = (if keep name then n else 0) + UInt32.ofNat (total keep rest) := by
  rw [total, UInt32.ofNat_add]
  split
  · rw [UInt32.ofNat_toNat]
  · rfl

theorem ofNat_total_add (keep : String → Bool) (counts : Counts) (name : String) (n : UInt32) :
    UInt32.ofNat (total keep (counts.add name n).entries) =
      UInt32.ofNat (total keep counts.entries) + if keep name then n else 0 := by
  have hentries : ∀ entries : List (String × UInt32),
      UInt32.ofNat (total keep (OrderedMap.alterEntries name (fun known => known.getD 0 + n) entries)) =
        UInt32.ofNat (total keep entries) + if keep name then n else 0 := by
    intro entries
    induction entries with
    | nil =>
      rw [OrderedMap.alterEntries, ofNat_total_cons, Option.getD_none, UInt32.zero_add]
      exact UInt32.add_comm _ _
    | cons entry rest ih =>
      obtain ⟨other, m⟩ := entry
      rw [ofNat_total_cons]
      by_cases h : other = name
      · rw [OrderedMap.alterEntries, if_pos h, ofNat_total_cons, h, Option.getD_some]
        split
        · ac_rfl
        · rw [UInt32.zero_add, UInt32.add_zero]
      · rw [OrderedMap.alterEntries, if_neg h, ofNat_total_cons, ih, UInt32.add_assoc]
  exact hentries counts.entries

theorem Counts.getD_add (counts : Counts) (name : String) (n : UInt32) (other : String) :
    ((counts.add name n).get? other).getD 0 = (counts.get? other).getD 0 + if other = name then n else 0 := by
  rw [Counts.add, OrderedMap.get?_alter]
  by_cases h : other = name
  · simp [h]
  · simp [h]

/-- The references to packages are those to the types in them. -/
structure Tallied (classRefs packageRefs : Counts) : Prop where
  keys : ∀ package, package ∈ packageRefs.keys ↔ ∃ typeName ∈ classRefs.keys, packageOf? typeName = some package
  sums : ∀ package, (packageRefs.get? package).getD 0 =
    UInt32.ofNat (total (fun typeName => packageOf? typeName = some package) classRefs.entries)

theorem tallied_empty : Tallied {} {} where
  keys package := by simp [OrderedMap.keys]
  sums package := rfl

/-- The counter of a package is the sum of those of its types whenever the sum is a number of 32 bits. -/
theorem Tallied.exact_iff {classRefs packageRefs : Counts} (h : Tallied classRefs packageRefs) (package : String) :
    ((packageRefs.get? package).getD 0).toNat =
        total (fun typeName => packageOf? typeName = some package) classRefs.entries ↔
      total (fun typeName => packageOf? typeName = some package) classRefs.entries < UInt32.size := by
  rw [h.sums, UInt32.toNat_ofNat']
  exact Nat.mod_eq_iff_lt (by decide)

theorem Tallied.refer {record : ModuleRecord} (h : Tallied record.classRefs record.packageRefs)
    (typeName : String) (n : UInt32) :
    Tallied (record.refer typeName (packageOf? typeName) n).classRefs
      (record.refer typeName (packageOf? typeName) n).packageRefs where
  keys package := by
    rw [ModuleRecord.mem_packageRefs_refer, h.keys]
    simp only [ModuleRecord.refer, Counts.mem_keys_add, or_and_right, exists_or, exists_eq_left]
  sums package := by
    simp only [ModuleRecord.refer, ofNat_total_add, ← h.sums]
    cases hp : packageOf? typeName with
    | none => simp
    | some found =>
      simp only [Counts.getD_add, Option.some.injEq, decide_eq_true_eq]
      by_cases hf : package = found
      · simp [hf]
      · simp [hf, Ne.symm hf]

namespace Index

/-- How often a module refers to each type. -/
def classCountsOf (index : Index) (id : ModuleId) : Counts := (index.modules[id]?.map (·.classRefs)).getD {}

/-- How often a module refers to each package. -/
def packageCountsOf (index : Index) (id : ModuleId) : Counts :=
  (index.modules[id]?.map (·.packageRefs)).getD {}

/-- The references to packages follow those to types in every module. -/
def AllTallied (index : Index) : Prop :=
  ∀ (id : ModuleId) record, index.modules[id]? = some record → Tallied record.classRefs record.packageRefs

theorem AllTallied.tallied {index : Index} (h : index.AllTallied) (id : ModuleId) :
    Tallied (index.classCountsOf id) (index.packageCountsOf id) := by
  rw [classCountsOf, packageCountsOf]
  cases hr : index.modules[id]? with
  | none => exact tallied_empty
  | some record => exact h id record hr

theorem AllTallied.of_map {i j : Index} (h : i.AllTallied)
    (hmap : ∀ id : ModuleId, j.modules[id]?.map (fun record => (record.classRefs, record.packageRefs)) =
      i.modules[id]?.map fun record => (record.classRefs, record.packageRefs)) : j.AllTallied := by
  intro id record hr
  have e := hmap id
  rw [hr, Option.map_some] at e
  obtain ⟨r, hi, heq⟩ := Option.map_eq_some_iff.mp e.symm
  rw [Prod.mk.injEq] at heq
  rw [← heq.1, ← heq.2]
  exact h id r hi

theorem AllTallied.refer {index : Index} (h : index.AllTallied) (module : ModuleId) (typeName : String)
    (n : UInt32) : (index.refer module typeName n).AllTallied := by
  intro id record hr
  rw [Index.refer, getElem?_updateModule] at hr
  split at hr
  · obtain ⟨r, hi, rfl⟩ := Option.map_eq_some_iff.mp hr
    exact (h id r hi).refer typeName n
  · exact h id record hr

theorem AllTallied.foldl_refer {index : Index} (h : index.AllTallied) (module : ModuleId)
    (references : List (String × UInt32)) :
    (references.foldl (fun index (name, n) => index.refer module name n) index).AllTallied := by
  induction references generalizing index with
  | nil => exact h
  | cons first rest ih => exact ih (h.refer module first.1 first.2)

theorem AllTallied.attachClass {index : Index} (h : index.AllTallied) (record : ClassRecord) :
    (index.attachClass record).1.AllTallied :=
  (h.foldl_refer record.module record.references).of_map
    fun id => map_attachClass_of_filed (fun _ _ _ _ => rfl) index record id

theorem AllTallied.apply {index : Index} (h : index.AllTallied) (module : ModuleId) (change : Change) :
    (change.apply module index).AllTallied := by
  cases change with
  | pool change => exact h
  | refer typeName n => exact h.refer module typeName n
  | attach record => exact h.attachClass record
  | main name => exact h.of_map fun id => map_setMainClass (fun _ _ => rfl) _ _ _ id
  | service interface implementation => exact h.of_map fun id => map_addService (fun _ _ _ => rfl) _ _ _ _ id
  | declare dependency => exact h.of_map fun id => map_declare (fun _ _ => rfl) _ _ _ id

theorem AllTallied.foldl_apply {index : Index} (h : index.AllTallied) (module : ModuleId)
    (changes : List Change) : (changes.foldl (Change.apply module) index).AllTallied := by
  induction changes generalizing index with
  | nil => exact h
  | cons change rest ih => exact ih (h.apply module change)

theorem AllTallied.addModule {index : Index} (h : index.AllTallied) (name : String) :
    (index.addModule name).1.AllTallied := by
  simp only [Index.addModule, pooling]
  split
  · exact h
  · intro id record hr
    simp only [Array.getElem?_push] at hr
    split at hr
    · rw [← Option.some.inj hr]
      exact tallied_empty
    · exact h id record hr

theorem AllTallied.completed {index : Index} (h : index.AllTallied) : index.completed.AllTallied := by
  refine inheritAll_induct ?_ fun i module typeName n hi => hi.refer module typeName n
  exact h.of_map fun id => map_of_core_eq (fun _ => rfl) (core_spreadAll_drawn index) id

end Index

end ModuleAudit
