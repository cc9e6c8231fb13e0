import ModuleAudit.Proofs.Build.InRange

/-! What is in a module only adds to the index what is in range. A change stores names that it pools itself, or that
were pooled before it (`Change.AllReady`), so that the changes of a module keep an index in range
(`InRange.foldl_apply`). -/

namespace ModuleAudit
set_option autoImplicit false

open NamePool

theorem slashed_slashed (name : String) : slashed (slashed name) = slashed name := by
  rw [slashed, slashed, String.toList_ofList, Text.replaceChar, Text.replaceChar, List.map_map]
  congr 2
  funext c
  by_cases h : c = '.' <;> simp [h]

/-! ## Classes -/

namespace Ingestion

/-- The names that a class record holds are pooled, those of its supertypes apart. -/
structure Pooled (state : Ingestion) : Prop where
  name : ∀ name ∈ state.record.name, state.pool.Has name
  memberRefs : ∀ typeName ∈ state.record.memberRefs.keys, state.pool.Has typeName
  otherRefs : ∀ typeName ∈ state.record.otherRefs.keys, state.pool.Has typeName

variable {state : Ingestion} (h : state.Pooled)
include h

theorem Pooled.mention (mention : Mention) : (state.mention mention).Pooled := by
  cases mention with
  | error failure => exact ⟨h.name, h.memberRefs, h.otherRefs⟩
  | ok named =>
    obtain ⟨kind, name⟩ := named
    have hgrows := grows_addPath name
    have hadded : (state.pool.addPath name).Has (slashed name) := has_add _ _
    have hadd : ∀ {counts : Counts}, (∀ other ∈ counts.keys, state.pool.Has other) →
        ∀ other ∈ (counts.add (slashed name) 1).keys, (state.pool.addPath name).Has other := by
      intro counts hall other ho
      rcases (Counts.mem_keys_add counts _ 1 other).mp ho with ho | rfl
      · exact (hall other ho).grows hgrows
      · exact hadded
    have hname := fun other ho => (h.name other ho).grows hgrows
    cases kind with
    | member => exact ⟨hname, hadd h.memberRefs, fun other ho => (h.otherRefs other ho).grows hgrows⟩
    | other => exact ⟨hname, fun other ho => (h.memberRefs other ho).grows hgrows, hadd h.otherRefs⟩

theorem Pooled.note (event : ClassFile.Event) : (state.note event).Pooled := by
  have hgrown : ∀ {change : NamePool → NamePool}, Grows change →
      Pooled { state with pool := change state.pool } := fun hgrows =>
    ⟨fun other ho => (h.name other ho).grows hgrows, fun other ho => (h.memberRefs other ho).grows hgrows,
      fun other ho => (h.otherRefs other ho).grows hgrows⟩
  cases event with
  | header access name superName interfaces =>
    have hkept := hgrown (grows_addPath name)
    refine ⟨fun other ho => ?_, hkept.memberRefs, hkept.otherRefs⟩
    rw [← Option.some.inj ho]
    exact has_add _ _
  | load constant =>
    cases constant with
    | text text => exact hgrown (grows_addLiteral text)
    | _ => exact h
  | _ => exact h

end Ingestion

/-- A class that was read is in range where its names were pooled. -/
theorem inRange_of_classIn? {module : ModuleId} {contents : Bytes} {record : ClassRecord} {index : Index}
    (hlt : module < index.modules.size) (h : classIn? module contents = some record) :
    record.InRange (index.pooling fun pool => (ingest pool module contents).1) := by
  have hpooled := Ingestion.foldl_relates (R := fun state _ => state.Pooled) (fun _ _ mention hs => hs.mention mention)
    (fun _ _ event hs => hs.note event) (ClassFile.read contents).events
    (s := { pool := index.pool, record := { module } }) (t := { pool := index.pool, record := { module } })
    ⟨by simp, by simp [OrderedMap.keys], by simp [OrderedMap.keys]⟩
  have hread : (ingest index.pool module contents).2.toOption = some record := by
    rw [ingest_eq]
    exact h
  cases hi : (ingest index.pool module contents).2 with
  | error failure =>
    rw [hi] at hread
    cases hread
  | ok found =>
    rw [hi] at hread
    obtain rfl : found = record := Option.some.inj hread
    obtain ⟨hmodule, hfaithful⟩ := ingest_faithful hi
    have hparents : found.parents = [] := by
      obtain ⟨hsuper, hinterfaces⟩ := unlinked_of_classIn? h
      rw [ClassRecord.parents, hsuper, hinterfaces]
      rfl
    rw [ingest] at hi
    have hstate : (ingest index.pool module contents).1 = ((ClassFile.read contents).events.foldl Ingestion.add
        { pool := index.pool, record := { module } }).pool := by
      rw [ingest]
      split <;> rfl
    have hrecord : ((ClassFile.read contents).events.foldl Ingestion.add
        { pool := index.pool, record := { module } }).record = found := by
      split at hi
      · cases hi
      · exact Except.ok.inj hi
    have hnames : ∀ name, ((ClassFile.read contents).events.foldl Ingestion.add
        { pool := index.pool, record := { module } }).pool.Has name →
        (index.pooling fun pool => (ingest pool module contents).1).pool.Has name := by
      intro name hn
      rw [← hstate] at hn
      exact hn
    rw [← hrecord] at hfaithful hmodule hparents ⊢
    exact {
      module := hmodule.symm ▸ hlt
      name := fun name hn => hnames name (hpooled.name name hn)
      superNames := fun name hn => hnames name (hpooled.memberRefs name (hfaithful name hn))
      links := fun classId hc => absurd (hparents ▸ hc) List.not_mem_nil
      memberRefs := fun name hn => hnames name (hpooled.memberRefs name hn)
      otherRefs := fun name hn => hnames name (hpooled.otherRefs name hn) }

/-! ## Changes -/

namespace Change

/-- What the change stores and does not pool itself is in range. -/
def Ready (index : Index) : Change → Prop
  | .refer typeName _ => index.pool.Has typeName
  | .attach record => record.InRange index
  | _ => True

/-- Each of the changes is ready when it is made. -/
def AllReady (module : ModuleId) : Index → List Change → Prop
  | _, [] => True
  | index, change :: rest => change.Ready index ∧ AllReady module (change.apply module index) rest

theorem allReady_append (module : ModuleId) (before after : List Change) (index : Index) :
    AllReady module index (before ++ after) ↔
      AllReady module index before ∧ AllReady module (before.foldl (apply module) index) after := by
  induction before generalizing index with
  | nil => simp [AllReady]
  | cons change rest ih => simp only [List.cons_append, AllReady, ih, List.foldl_cons, and_assoc]

/-- Changes that are ready after any others are ready one after the other. -/
theorem allReady_flatMap {α : Type} {module : ModuleId} {changes : α → List Change} {l : List α}
    (h : ∀ a ∈ l, ∀ index : Index, module < index.modules.size → AllReady module index (changes a)) {index : Index}
    (hlt : module < index.modules.size) : AllReady module index (l.flatMap changes) := by
  induction l generalizing index with
  | nil => trivial
  | cons a rest ih =>
    rw [List.forall_mem_cons] at h
    rw [List.flatMap_cons, allReady_append]
    exact ⟨h.1 index hlt, ih h.2 (lt_size_foldl_apply module (changes a) hlt)⟩

end Change

theorem Index.pool_refer (index : Index) (module : ModuleId) (typeName : String) (n : UInt32) :
    (index.refer module typeName n).pool = index.pool.addPackage typeName := rfl

theorem Index.pool_addService (index : Index) (module : ModuleId) (interface implementation : String) :
    (index.addService module interface implementation).pool =
      (index.pool.add (slashed interface)).add (slashed implementation) := rfl

theorem ServiceFile.allReady_changes (service : ServiceFile) {module : ModuleId} {index : Index}
    (hlt : module < index.modules.size) : Change.AllReady module index service.changes := by
  rw [ServiceFile.changes, Change.AllReady]
  refine ⟨trivial, Change.allReady_flatMap (fun implementation _ index _ => ?_) hlt⟩
  -- Registering a service pools the two types that are referred to after it.
  simp only [Change.AllReady, Change.Ready, Change.apply, Index.pool_refer, Index.pool_addService, slashed_slashed,
    true_and, and_true]
  have hinterface := fun pool => (has_add pool (slashed service.interface)).grows (grows_add (slashed implementation))
  have himplementation := fun pool =>
    (has_add pool (slashed implementation)).grows (grows_addPackage (slashed service.interface))
  exact ⟨hinterface _, himplementation _⟩

theorem ResourceItem.allReady_changes (item : ResourceItem) {module : ModuleId} {index : Index}
    (hlt : module < index.modules.size) : Change.AllReady module index (item.changes module) := by
  cases item with
  | notice message => trivial
  | entry name contents =>
    cases contents with
    | error reason => trivial
    | ok contents =>
      rw [ResourceItem.changes]
      split
      · refine ⟨trivial, ?_⟩
        cases hc : classIn? module contents with
        | none => trivial
        | some record => exact ⟨inRange_of_classIn? hlt hc, trivial⟩
      · cases ServiceFile.parse? name (Utf8.lossy contents) with
        | none => trivial
        | some service => exact service.allReady_changes hlt

theorem allReady_contentChanges (mainClass : Option String) (roots : List ResourceRoot)
    (dependencies : List Dependency) {module : ModuleId} {index : Index} (hlt : module < index.modules.size) :
    Change.AllReady module index (contentChanges module mainClass roots dependencies) := by
  have hmain : Change.AllReady module index
      (mainClass.toList.flatMap fun name => [.main name, .refer (slashed name) 1]) := by
    cases mainClass with
    | none => trivial
    | some name => exact ⟨trivial, has_add _ _, trivial⟩
  have hdeclared : ∀ index : Index, Change.AllReady module index (dependencies.map .declare) := by
    induction dependencies with
    | nil => exact fun _ => trivial
    | cons dependency rest ih => exact fun _ => ⟨trivial, ih _⟩
  rw [contentChanges_eq, Change.allReady_append, Change.allReady_append]
  exact ⟨⟨hmain, Change.allReady_flatMap (fun item _ _ => item.allReady_changes)
    (Change.lt_size_foldl_apply module _ hlt)⟩, hdeclared _⟩

namespace Index

theorem InRange.apply {index : Index} (h : index.InRange) {change : Change} (ht : change.Tame)
    (hr : change.Ready index) (module : ModuleId) : (change.apply module index).InRange := by
  cases change with
  | pool change => exact h.pooling ht
  | refer typeName n => exact h.refer hr module n
  | attach record => exact h.attachClass hr
  | main name =>
    refine (h.pooling (grows_addPath name)).updateModule _ _ (fun _ => Nat.le_refl _) fun record _ hrecord =>
      { hrecord with mainClass := fun other ho => ?_ }
    rw [← Option.some.inj ho]
    exact has_add _ _
  | service interface implementation =>
    have hinterface := (has_add index.pool (slashed interface)).grows (grows_addPath implementation)
    exact (h.pooling ((grows_addPath interface).comp (grows_addPath implementation))).updateModule _ _
      (fun _ => Nat.le_refl _) fun record _ hrecord => hrecord.addService hinterface (has_add _ _)
  | declare dependency =>
    have hlonger : ∀ record : ModuleRecord,
        record.declarations.length ≤ (record.declarations ++ [dependency]).length := fun _ => by simp
    exact h.updateModule _ _ hlonger fun record _ hrecord => { hrecord with
      dependencies := fun edge he => (hrecord.dependencies edge he).imp_right fun hlt =>
        Nat.lt_of_lt_of_le hlt (hlonger record) }

theorem InRange.foldl_apply {module : ModuleId} (changes : List Change) {index : Index} (h : index.InRange)
    (ht : ∀ change ∈ changes, change.Tame) (hr : Change.AllReady module index changes) :
    (changes.foldl (Change.apply module) index).InRange := by
  induction changes generalizing index with
  | nil => exact h
  | cons change rest ih =>
    rw [List.forall_mem_cons] at ht
    exact ih (h.apply ht.1 hr.1 module) ht.2 hr.2

end Index

end ModuleAudit
