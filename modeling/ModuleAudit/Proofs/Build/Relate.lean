import ModuleAudit.Index.Build
import ModuleAudit.Proofs.Visibility.View

/-! Adding findings changes an index in a few ways only. A relation between two indices that those
changes keep (`IngestRelates`) holds between the index of some findings and that of the same findings
with some of their declarations left out (`ofFindings_relates`). A class that was read mentions its
supertype and its interfaces, which is what relations may use of it. -/

namespace ModuleAudit
set_option autoImplicit false

/-! ## Class files mention their supertypes -/

namespace ClassRecord

/-- The names of the supertype and the interfaces. -/
def superNames (record : ClassRecord) : List String := record.superName.toList ++ record.interfaceNames

/-- The class mentions its supertype and its interfaces. -/
def Faithful (record : ClassRecord) : Prop := ∀ name ∈ record.superNames, name ∈ record.memberRefs.keys

end ClassRecord

theorem Counts.mem_keys_add (counts : Counts) (name : String) (n : UInt32) (other : String) :
    other ∈ (counts.add name n).keys ↔ other ∈ counts.keys ∨ other = name := by
  rw [Counts.add, OrderedMap.keys_alter]
  split
  · rename_i h
    constructor
    · exact Or.inl
    · rintro (ho | rfl)
      · exact ho
      · exact h
  · simp

namespace Ingestion

theorem mention_module (state : Ingestion) (mention : Mention) :
    (state.mention mention).record.module = state.record.module := by
  cases mention with
  | error failure => rfl
  | ok named =>
    obtain ⟨kind, name⟩ := named
    cases kind <;> rfl

theorem mention_superNames (state : Ingestion) (mention : Mention) :
    (state.mention mention).record.superNames = state.record.superNames := by
  cases mention with
  | error failure => rfl
  | ok named =>
    obtain ⟨kind, name⟩ := named
    cases kind <;> rfl

theorem mem_memberRefs_mention (state : Ingestion) (mention : Mention) {name : String}
    (h : name ∈ state.record.memberRefs.keys) : name ∈ (state.mention mention).record.memberRefs.keys := by
  cases mention with
  | error failure => exact h
  | ok named =>
    obtain ⟨kind, other⟩ := named
    cases kind with
    | member => exact (Counts.mem_keys_add _ _ _ _).mpr (Or.inl h)
    | other => exact h

theorem foldl_mention_module (mentions : List Mention) (state : Ingestion) :
    (mentions.foldl mention state).record.module = state.record.module := by
  induction mentions generalizing state with
  | nil => rfl
  | cons first rest ih => rw [List.foldl_cons, ih, mention_module]

theorem foldl_mention_superNames (mentions : List Mention) (state : Ingestion) :
    (mentions.foldl mention state).record.superNames = state.record.superNames := by
  induction mentions generalizing state with
  | nil => rfl
  | cons first rest ih => rw [List.foldl_cons, ih, mention_superNames]

theorem mem_memberRefs_foldl (mentions : List Mention) (state : Ingestion) {name : String}
    (h : name ∈ state.record.memberRefs.keys) :
    name ∈ (mentions.foldl mention state).record.memberRefs.keys := by
  induction mentions generalizing state with
  | nil => exact h
  | cons first rest ih => exact ih _ (mem_memberRefs_mention state first h)

theorem mem_memberRefs_of_mem (mentions : List Mention) (state : Ingestion) {name : String}
    (h : Mention.ofName .member name ∈ mentions) :
    slashed name ∈ (mentions.foldl mention state).record.memberRefs.keys := by
  induction mentions generalizing state with
  | nil => exact absurd h (by simp)
  | cons first rest ih =>
    rcases List.mem_cons.mp h with h | h
    · subst h
      exact mem_memberRefs_foldl rest _ ((Counts.mem_keys_add _ _ _ _).mpr (Or.inr rfl))
    · exact ih _ h

theorem faithful_add {state : Ingestion} (h : state.record.Faithful) (event : ClassFile.Event) :
    (state.add event).record.Faithful := by
  have hkept : (event.mentions.foldl mention state).record.Faithful := by
    intro name hn
    rw [foldl_mention_superNames] at hn
    exact mem_memberRefs_foldl _ _ (h name hn)
  cases event with
  | header access name superName interfaces =>
    intro other ho
    have hm : ∃ plain, other = slashed plain ∧ (plain ∈ superName.toList ∨ plain ∈ interfaces) := by
      simp only [ClassRecord.superNames, add, note, List.mem_append, List.mem_map] at ho
      rcases ho with ho | ⟨plain, hp, rfl⟩
      · cases superName with
        | none => simp at ho
        | some plain => exact ⟨plain, by simpa using ho, Or.inl (by simp)⟩
      · exact ⟨plain, rfl, Or.inr hp⟩
    obtain ⟨plain, rfl, hp⟩ := hm
    apply mem_memberRefs_of_mem
    simp only [ClassFile.Event.mentions, List.mem_append, List.mem_map]
    rcases hp with hp | hp
    · exact Or.inl ⟨plain, hp, rfl⟩
    · exact Or.inr ⟨plain, hp, rfl⟩
  | load constant => cases constant <;> exact hkept
  | _ => exact hkept

theorem module_add (state : Ingestion) (event : ClassFile.Event) :
    (state.add event).record.module = state.record.module := by
  have h := foldl_mention_module event.mentions state
  cases event with
  | load constant => cases constant <;> exact h
  | _ => exact h

end Ingestion

/-- A class that was read belongs to its module and mentions its supertype and interfaces. -/
theorem ingest_faithful {pool : NamePool} {module : ModuleId} {bytes : Bytes} {record : ClassRecord}
    (h : (ingest pool module bytes).2 = .ok record) : record.module = module ∧ record.Faithful := by
  have hstate : ∀ (events : List ClassFile.Event) (state : Ingestion), state.record.module = module →
      state.record.Faithful → (events.foldl Ingestion.add state).record.module = module ∧
        (events.foldl Ingestion.add state).record.Faithful := by
    intro events
    induction events with
    | nil => exact fun _ hm hf => ⟨hm, hf⟩
    | cons event rest ih =>
      intro state hm hf
      exact ih _ ((Ingestion.module_add state event).trans hm) (Ingestion.faithful_add hf event)
  have hstart := hstate (ClassFile.read bytes).events { pool, record := { module } } rfl
    (by simp [ClassRecord.Faithful, ClassRecord.superNames])
  simp only [ingest] at h
  split at h
  · simp at h
  · simp only [Except.ok.injEq] at h
    rw [← h]
    exact hstart

/-! ## Changes that adding findings makes -/

namespace Index

/-- The name of a module, if the index has it. -/
def nameOf? (index : Index) (id : ModuleId) : Option String := index.modules[id]?.map (·.name)

theorem lt_size_of_nameOf? {index : Index} {id : ModuleId} {name : String} (h : index.nameOf? id = some name) :
    id < index.modules.size := by
  obtain ⟨record, hr, -⟩ := Option.map_eq_some_iff.mp h
  exact (Array.getElem?_eq_some_iff.mp hr).1

/-- What a change of records keeps of each record it keeps of all. -/
theorem map_updateModule {α : Type} {f : ModuleRecord → α} {change : ModuleRecord → ModuleRecord}
    (hf : ∀ record, f (change record) = f record) (index : Index) (id other : ModuleId) :
    (index.updateModule id change).modules[other]?.map f = index.modules[other]?.map f := by
  rw [getElem?_updateModule]
  split
  · rw [Option.map_map]
    congr 1
    funext record
    exact hf record
  · rfl

theorem map_refer {α : Type} {f : ModuleRecord → α}
    (hf : ∀ record typeName package n, f (ModuleRecord.refer record typeName package n) = f record)
    (index : Index) (module : ModuleId) (typeName : String) (n : UInt32) (other : ModuleId) :
    (index.refer module typeName n).modules[other]?.map f = index.modules[other]?.map f := by
  rw [refer, map_updateModule (fun record => hf record _ _ _)]
  rfl

theorem map_foldl_refer {α : Type} {f : ModuleRecord → α}
    (hf : ∀ record typeName package n, f (ModuleRecord.refer record typeName package n) = f record)
    (module other : ModuleId) (references : List (String × UInt32)) (index : Index) :
    (references.foldl (fun index (name, n) => index.refer module name n) index).modules[other]?.map f =
      index.modules[other]?.map f := by
  induction references generalizing index with
  | nil => rfl
  | cons first rest ih =>
    rw [List.foldl_cons, ih, map_refer hf]

/-- Apart from the references, attaching a class only files it. -/
theorem map_attachClass_of_filed {α : Type} {f : ModuleRecord → α}
    (hc : ∀ record name package id, f (ModuleRecord.addClass record name package id) = f record)
    (index : Index) (record : ClassRecord) (other : ModuleId) :
    (index.attachClass record).1.modules[other]?.map f =
      (record.references.foldl (fun index (name, n) => index.refer record.module name n)
        index).modules[other]?.map f := by
  simp only [attachClass]
  cases record.name with
  | none => rfl
  | some name =>
    simp only []
    rw [map_updateModule (fun module => hc module _ _ _)]
    rfl

theorem map_attachClass {α : Type} {f : ModuleRecord → α}
    (hf : ∀ record typeName package n, f (ModuleRecord.refer record typeName package n) = f record)
    (hc : ∀ record name package id, f (ModuleRecord.addClass record name package id) = f record)
    (index : Index) (record : ClassRecord) (other : ModuleId) :
    (index.attachClass record).1.modules[other]?.map f = index.modules[other]?.map f :=
  (map_attachClass_of_filed hc index record other).trans (map_foldl_refer hf _ _ _ _)

theorem map_setMainClass {α : Type} {f : ModuleRecord → α}
    (hf : ∀ record name, f { record with mainClass := name } = f record)
    (index : Index) (module : ModuleId) (name : Option String) (other : ModuleId) :
    (index.setMainClass module name).modules[other]?.map f = index.modules[other]?.map f := by
  rw [setMainClass, map_updateModule (fun record => hf record _)]
  rfl

theorem map_addService {α : Type} {f : ModuleRecord → α}
    (hf : ∀ record interface implementation,
      f (ModuleRecord.addService record interface implementation) = f record)
    (index : Index) (module : ModuleId) (interface implementation : String) (other : ModuleId) :
    (index.addService module interface implementation).modules[other]?.map f = index.modules[other]?.map f := by
  rw [addService, map_updateModule (fun record => hf record _ _)]
  rfl

theorem map_declare {α : Type} {f : ModuleRecord → α}
    (hf : ∀ record declarations, f { record with declarations } = f record)
    (index : Index) (module : ModuleId) (dependency : Dependency) (other : ModuleId) :
    (index.declare module dependency).modules[other]?.map f = index.modules[other]?.map f := by
  rw [declare, map_updateModule (fun record => hf record _)]

theorem nameOf?_addModule {index : Index} {id : ModuleId} {known : String} (h : index.nameOf? id = some known)
    (name : String) : (index.addModule name).1.nameOf? id = some known := by
  simp only [addModule, pooling]
  split
  · exact h
  · simp only [nameOf?, Array.getElem?_push, Nat.ne_of_lt (lt_size_of_nameOf? h), if_false]
    exact h

end Index

/-- A relation between two indices that is kept when both undergo the same change of adding findings, those
of declarations apart. -/
structure IngestRelates (R : Index → Index → Prop) : Prop where
  pool_eq : ∀ {i j}, R i j → i.pool = j.pool
  pooling : ∀ {i j} (change), R i j → R (i.pooling change) (j.pooling change)
  addModule : ∀ {i j} (name), R i j → R (i.addModule name).1 (j.addModule name).1
  addModule_eq : ∀ {i j} (name), R i j → (i.addModule name).2 = (j.addModule name).2
  addModule_name : ∀ {i j} (name), R i j → (i.addModule name).1.nameOf? (i.addModule name).2 = some name
  addAlias : ∀ {i j} (name target), R i j → R (i.addAlias name target) (j.addAlias name target)
  refer : ∀ {i j} (module typeName n), R i j → R (i.refer module typeName n) (j.refer module typeName n)
  attachClass : ∀ {i j} (record), record.module < i.modules.size → record.Faithful → R i j →
    R (i.attachClass record).1 (j.attachClass record).1
  setMainClass : ∀ {i j} (module name), R i j → R (i.setMainClass module name) (j.setMainClass module name)
  addService : ∀ {i j} (module interface implementation), R i j →
    R (i.addService module interface implementation) (j.addService module interface implementation)

/-- Two indices are related, and the first has a module of a name. -/
def RelatedWith (R : Index → Index → Prop) (module : ModuleId) (name : String) (i j : Index) : Prop :=
  R i j ∧ i.nameOf? module = some name

theorem IngestRelates.relatedWith {R : Index → Index → Prop} (hR : IngestRelates R) (module : ModuleId)
    (known : String) : IngestRelates (RelatedWith R module known) where
  pool_eq h := hR.pool_eq h.1
  pooling change h := ⟨hR.pooling change h.1, h.2⟩
  addModule name h := ⟨hR.addModule name h.1, Index.nameOf?_addModule h.2 name⟩
  addModule_eq name h := hR.addModule_eq name h.1
  addModule_name name h := hR.addModule_name name h.1
  addAlias name target h := ⟨hR.addAlias name target h.1, h.2⟩
  refer other typeName n h :=
    ⟨hR.refer other typeName n h.1, (Index.map_refer (fun _ _ _ _ => rfl) _ _ _ _ _).trans h.2⟩
  attachClass record hm hf h :=
    ⟨hR.attachClass record hm hf h.1,
      (Index.map_attachClass (fun _ _ _ _ => rfl) (fun _ _ _ _ => rfl) _ _ _).trans h.2⟩
  setMainClass other name h :=
    ⟨hR.setMainClass other name h.1, (Index.map_setMainClass (fun _ _ => rfl) _ _ _ _).trans h.2⟩
  addService other interface implementation h :=
    ⟨hR.addService other interface implementation h.1,
      (Index.map_addService (fun _ _ _ => rfl) _ _ _ _ _).trans h.2⟩

/-! ## Findings -/

namespace Build

@[simp] theorem index_count (build : Build) (counter : String) : (build.count counter).index = build.index := rfl

@[simp] theorem index_counting (build : Build) (change : BuildStats → BuildStats) :
    (build.counting change).index = build.index := rfl

/-- A fold of changes that keep a relation keeps it. -/
theorem foldl_relates {α : Type} {R : Index → Index → Prop} {f : Build → α → Build}
    (hf : ∀ a b c, R b.index c.index → R (f b a).index (f c a).index) (l : List α) {b c : Build}
    (h : R b.index c.index) : R (l.foldl f b).index (l.foldl f c).index := by
  induction l generalizing b c with
  | nil => exact h
  | cons first rest ih => exact ih (hf first b c h)

section Resources

variable {R : Index → Index → Prop} {module : ModuleId} {b c : Build} (hR : IngestRelates R)
include hR

theorem addService_relates (service : ServiceFile) (h : R b.index c.index) :
    R (b.addService module service).index (c.addService module service).index := by
  refine foldl_relates ?_ _ (hR.pooling (fun pool =>
    (pool.add (slashed service.interface)).addPackage (slashed service.interface)) h)
  intro implementation b c h
  exact hR.refer _ _ _ (hR.refer _ _ _ (hR.addService _ _ _ (hR.pooling (fun pool =>
    (pool.addPath implementation).addPackage (slashed implementation)) h)))

theorem addServiceFile_relates (location name : String) (contents : Except String Bytes)
    (h : R b.index c.index) : R (b.addServiceFile module location name contents).index
      (c.addServiceFile module location name contents).index := by
  cases contents with
  | error reason => exact h
  | ok bytes =>
    simp only [addServiceFile]
    split
    · exact addService_relates hR _ h
    · exact h

variable (hin : ∀ i j, R i j → module < i.modules.size)
include hin

theorem addClassFile_relates (location name : String) (contents : Except String Bytes)
    (h : R b.index c.index) : R (b.addClassFile module location name contents).index
      (c.addClassFile module location name contents).index := by
  cases contents with
  | error reason => exact h
  | ok bytes =>
    have hpool := hR.pool_eq h
    have hp : R { b.index with pool := (ingest b.index.pool module bytes).1 }
        { c.index with pool := (ingest b.index.pool module bytes).1 } :=
      hR.pooling (fun _ => (ingest b.index.pool module bytes).1) h
    simp only [addClassFile, index_count, index_counting, ← hpool]
    cases he : (ingest b.index.pool module bytes).2 with
    | error failure => exact hp
    | ok record =>
      obtain ⟨hm, hf⟩ := ingest_faithful he
      refine hR.attachClass record ?_ hf hp
      rw [hm]
      exact hin _ _ hp

theorem addResource_relates (location : String) (item : ResourceItem) (h : R b.index c.index) :
    R (addResource module location b item).index (addResource module location c item).index := by
  cases item with
  | notice message => exact h
  | entry name contents =>
    simp only [addResource]
    split
    · exact addClassFile_relates hR hin location name contents h
    · split
      · exact addServiceFile_relates hR location name contents h
      · exact h

theorem addRoot_relates (moduleName : String) (root : ResourceRoot) (h : R b.index c.index) :
    R (addRoot module moduleName b root).index (addRoot module moduleName c root).index := by
  cases root with
  | unlisted location => exact h
  | listed listing =>
    have hitems : ∀ b c : Build, R b.index c.index →
        R (listing.items.foldl (addResource module listing.location) b).index
          (listing.items.foldl (addResource module listing.location) c).index :=
      fun _ _ h => foldl_relates (fun item _ _ h => addResource_relates hR hin listing.location item h)
        listing.items h
    simp only [addRoot]
    split
    · exact hitems _ _ h
    · exact hitems _ _ h

end Resources

end Build

/-! ## Findings with some declarations left out -/

/-- The specification with the declarations that are to be kept. -/
def ModuleSpec.keeping (keep : String → Dependency → Bool) : ModuleSpec → ModuleSpec
  | .module name mainClass roots dependencies => .module name mainClass roots (dependencies.filter (keep name))
  | .link name target => .link name target

/-- The finding with the declarations that are to be kept. -/
def Finding.keeping (keep : String → Dependency → Bool) (finding : Finding) : Finding :=
  { finding with outcome := finding.outcome.map (·.map (ModuleSpec.keeping keep)) }

/-- A relation that allows some declarations to be left out of the second index. -/
structure DeclareRelates (keep : String → Dependency → Bool) (R : Index → Index → Prop) : Prop where
  kept : ∀ {i j} {module name dependency}, i.nameOf? module = some name → keep name dependency = true →
    R i j → R (i.declare module dependency) (j.declare module dependency)
  dropped : ∀ {i j} {module name dependency}, i.nameOf? module = some name →
    keep name dependency = false → R i j → R (i.declare module dependency) j

namespace Build

section Findings

variable {R : Index → Index → Prop} {keep : String → Dependency → Bool} {b c : Build}
  (hR : IngestRelates R) (hD : DeclareRelates keep R)

include hR in
theorem setMainClass_relates (module : ModuleId) (name : Option String) (h : R b.index c.index) :
    R (b.setMainClass module name).index (c.setMainClass module name).index := by
  cases name with
  | none => exact h
  | some name => exact hR.refer _ _ _ (hR.setMainClass _ _ h)

include hD in
theorem foldl_addDeclaration_relates {module : ModuleId} {name : String} (dependencies : List Dependency)
    (hn : b.index.nameOf? module = some name) (h : R b.index c.index) :
    R (dependencies.foldl (addDeclaration module) b).index
      ((dependencies.filter (keep name)).foldl (addDeclaration module) c).index := by
  induction dependencies generalizing b c with
  | nil => exact h
  | cons first rest ih =>
    have hn' : (addDeclaration module b first).index.nameOf? module = some name :=
      (Index.map_declare (fun _ _ => rfl) b.index module first module).trans hn
    rw [List.foldl_cons]
    cases hk : keep name first with
    | true =>
      rw [List.filter_cons_of_pos hk, List.foldl_cons]
      exact ih hn' (hD.kept hn hk h)
    | false =>
      rw [List.filter_cons_of_neg (by simp [hk])]
      exact ih hn' (hD.dropped hn hk h)

include hR hD

theorem addContents_relates {module : ModuleId} {name : String} (mainClass : Option String)
    (roots : List ResourceRoot) (dependencies : List Dependency)
    (h : RelatedWith R module name b.index c.index) :
    R (dependencies.foldl (addDeclaration module)
        (roots.foldl (addRoot module name) (b.setMainClass module mainClass))).index
      ((dependencies.filter (keep name)).foldl (addDeclaration module)
        (roots.foldl (addRoot module name) (c.setMainClass module mainClass))).index := by
  have hN := hR.relatedWith module name
  have hin : ∀ i j, RelatedWith R module name i j → module < i.modules.size :=
    fun _ _ h => Index.lt_size_of_nameOf? h.2
  have hroots : RelatedWith R module name
      (roots.foldl (addRoot module name) (b.setMainClass module mainClass)).index
      (roots.foldl (addRoot module name) (c.setMainClass module mainClass)).index :=
    foldl_relates (fun root _ _ h => addRoot_relates hN hin name root h) roots
      (setMainClass_relates hN module mainClass h)
  exact foldl_addDeclaration_relates hD dependencies hroots.2 hroots.1

theorem addSpec_relates (spec : ModuleSpec) (h : R b.index c.index) :
    R (b.addSpec spec).index (c.addSpec (spec.keeping keep)).index := by
  cases spec with
  | link name target => exact hR.addAlias name target h
  | module name mainClass roots dependencies =>
    simp only [addSpec, ModuleSpec.keeping, ← hR.addModule_eq name h]
    exact addContents_relates hR hD mainClass roots dependencies
      ⟨hR.addModule name h, hR.addModule_name name h⟩

theorem addFinding_relates (finding : Finding) (h : R b.index c.index) :
    R (b.addFinding finding).index (c.addFinding (finding.keeping keep)).index := by
  obtain ⟨name, log, outcome⟩ := finding
  cases outcome with
  | error error => exact h
  | ok found =>
    cases found with
    | none => exact h
    | some spec =>
      exact addSpec_relates hR hD spec (b := { b with log := b.log ++ log })
        (c := { c with log := c.log ++ log }) h

/-- What relates the empty index to itself relates the index of findings to that of the findings with
some declarations left out. -/
theorem ofFindings_relates (h : R {} {}) (findings : List Finding) :
    R (ofFindings findings).index (ofFindings (findings.map (Finding.keeping keep))).index := by
  have hfold : ∀ (findings : List Finding) (b c : Build), R b.index c.index →
      R (findings.foldl addFinding b).index
        ((findings.map (Finding.keeping keep)).foldl addFinding c).index := by
    intro findings
    induction findings with
    | nil => exact fun _ _ h => h
    | cons first rest ih => exact fun b c h => ih _ _ (addFinding_relates hR hD first h)
  exact hfold findings {} {} h

end Findings

end Build

end ModuleAudit
