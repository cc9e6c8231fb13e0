import ModuleAudit.Proofs.Build.Gather

/-! What adding the contents of a module does to an index, as a list of changes. The list comes from the contents
alone: a class file gives the same record whatever names are pooled already. -/

namespace ModuleAudit
set_option autoImplicit false

/-- A change to an index while the contents of a module are added to it. -/
inductive Change where
  | pool (change : NamePool → NamePool)
  | refer (typeName : String) (n : UInt32)
  | attach (record : ClassRecord)
  | main (name : String)
  | service (interface implementation : String)
  | declare (dependency : Dependency)

namespace Change

/-- Makes a change for a module. -/
def apply (module : ModuleId) (index : Index) : Change → Index
  | .pool change => index.pooling change
  | .refer typeName n => index.refer module typeName n
  | .attach record => (index.attachClass record).1
  | .main name => index.setMainClass module (some name)
  | .service interface implementation => index.addService module interface implementation
  | .declare dependency => index.declare module dependency

/-- The class that a change adds. -/
def attached : Change → List ClassRecord
  | .attach record => [record]
  | _ => []

end Change

/-! ## The changes of contents -/

/-- The class that a class file of a module describes, if it can be read. -/
def classIn? (module : ModuleId) (contents : Bytes) : Option ClassRecord :=
  (ingest {} module contents).2.toOption

/-- The changes of a service registration. -/
def ServiceFile.changes (service : ServiceFile) : List Change :=
  .pool (fun pool => (pool.add (slashed service.interface)).addPackage (slashed service.interface)) ::
    service.implementations.flatMap fun implementation =>
      [.pool fun pool => (pool.addPath implementation).addPackage (slashed implementation),
        .service (slashed service.interface) implementation,
        .refer (slashed service.interface) 1, .refer (slashed implementation) 1]

/-- The changes of an entry of a resource root. -/
def ResourceItem.changes (module : ModuleId) : ResourceItem → List Change
  | .entry name (.ok contents) =>
    if Build.endsWith Build.classSuffix name then
      .pool (fun pool => (ingest pool module contents).1) :: (classIn? module contents).toList.map .attach
    else ((ServiceFile.parse? name (Utf8.lossy contents)).map ServiceFile.changes).getD []
  | _ => []

/-- The changes of a resource root. -/
def ResourceRoot.changes (module : ModuleId) : ResourceRoot → List Change
  | .listed listing => listing.items.flatMap (ResourceItem.changes module)
  | .unlisted _ => []

/-- The changes of all that a module consists of. -/
def contentChanges (module : ModuleId) (mainClass : Option String) (roots : List ResourceRoot)
    (dependencies : List Dependency) : List Change :=
  mainClass.toList.flatMap (fun name => [.main name, .refer (slashed name) 1]) ++
    roots.flatMap (ResourceRoot.changes module) ++ dependencies.map .declare

/-! ## The record of a class file -/

/-- What relates two states and is kept by mentions and notes relates them after any events. -/
theorem Ingestion.foldl_relates {R : Ingestion → Ingestion → Prop}
    (hmention : ∀ s t mention, R s t → R (Ingestion.mention s mention) (Ingestion.mention t mention))
    (hnote : ∀ s t event, R s t → R (Ingestion.note s event) (Ingestion.note t event))
    (events : List ClassFile.Event) {s t : Ingestion} (h : R s t) :
    R (events.foldl Ingestion.add s) (events.foldl Ingestion.add t) := by
  have hmentions : ∀ (mentions : List Mention) (s t : Ingestion), R s t →
      R (mentions.foldl Ingestion.mention s) (mentions.foldl Ingestion.mention t) := by
    intro mentions
    induction mentions with
    | nil => exact fun _ _ h => h
    | cons first rest ih => exact fun s t h => ih _ _ (hmention s t first h)
  induction events generalizing s t with
  | nil => exact h
  | cons event rest ih => exact ih (hnote _ _ event (hmentions event.mentions s t h))

/-- Events say the same about a class whatever the pool, and whatever the module but for its number. -/
theorem Ingestion.foldl_add_alike (events : List ClassFile.Event) (pool other : NamePool) (module number : ModuleId) :
    (events.foldl Ingestion.add { pool, record := { module } }).record =
      { (events.foldl Ingestion.add { pool := other, record := { module := number } }).record with module } ∧
    (events.foldl Ingestion.add { pool, record := { module } }).fault =
      (events.foldl Ingestion.add { pool := other, record := { module := number } }).fault := by
  refine Ingestion.foldl_relates (R := fun s t => s.record = { t.record with module } ∧ s.fault = t.fault) ?_ ?_ _
    ⟨rfl, rfl⟩
  · rintro s t mention ⟨hrecord, hfault⟩
    cases mention with
    | error failure => exact ⟨hrecord, by simp [Ingestion.mention, hfault]⟩
    | ok named =>
      obtain ⟨kind, name⟩ := named
      cases kind <;> exact ⟨by simp [Ingestion.mention, ClassRecord.mention, hrecord], hfault⟩
  · rintro s t event ⟨hrecord, hfault⟩
    cases event with
    | header access name superName interfaces => exact ⟨by simp [Ingestion.note, hrecord], hfault⟩
    | load constant => cases constant <;> exact ⟨hrecord, hfault⟩
    | _ => exact ⟨hrecord, hfault⟩

theorem ingest_eq (pool : NamePool) (module : ModuleId) (contents : Bytes) :
    (ingest pool module contents).2 = (ingest {} module contents).2 := by
  obtain ⟨hrecord, hfault⟩ := Ingestion.foldl_add_alike (ClassFile.read contents).events pool {} module module
  have hown := (Ingestion.foldl_add_alike (ClassFile.read contents).events {} {} module module).1
  simp only [ingest, hfault]
  split
  · rfl
  · rw [hrecord, ← hown]

theorem module_of_classIn? {module : ModuleId} {contents : Bytes} {record : ClassRecord}
    (h : classIn? module contents = some record) : record.module = module := by
  rw [classIn?] at h
  cases hi : (ingest {} module contents).2 with
  | error failure =>
    rw [hi] at h
    cases h
  | ok found =>
    rw [hi] at h
    obtain rfl : found = record := Option.some.inj h
    exact (ingest_faithful hi).1

/-! ## Adding contents makes their changes -/

namespace Build

theorem foldl_index {α : Type} {module : ModuleId} {f : Build → α → Build} {changes : α → List Change}
    (hf : ∀ build a, (f build a).index = (changes a).foldl (Change.apply module) build.index) (l : List α)
    (build : Build) :
    (l.foldl f build).index = (l.flatMap changes).foldl (Change.apply module) build.index := by
  induction l generalizing build with
  | nil => rfl
  | cons a rest ih => rw [List.foldl_cons, ih, hf, List.flatMap_cons, List.foldl_append]

theorem addService_index (build : Build) (module : ModuleId) (service : ServiceFile) :
    (build.addService module service).index = service.changes.foldl (Change.apply module) build.index := by
  rw [addService, ServiceFile.changes, List.foldl_cons]
  exact foldl_index (fun _ _ => rfl) service.implementations _

theorem addServiceFile_index (build : Build) (module : ModuleId) (location name : String) (contents : Bytes) :
    (build.addServiceFile module location name (.ok contents)).index =
      ((ServiceFile.parse? name (Utf8.lossy contents)).map ServiceFile.changes |>.getD []).foldl
        (Change.apply module) build.index := by
  rw [addServiceFile]
  cases hs : ServiceFile.parse? name (Utf8.lossy contents) with
  | none => rfl
  | some service => exact addService_index build module service

theorem addClassFile_index (build : Build) (module : ModuleId) (location name : String) (contents : Bytes) :
    (build.addClassFile module location name (.ok contents)).index =
      (Change.pool (fun pool => (ingest pool module contents).1) ::
        (classIn? module contents).toList.map .attach).foldl (Change.apply module) build.index := by
  have he := ingest_eq build.index.pool module contents
  simp only [addClassFile, index_count, index_counting, classIn?, ← he]
  cases (ingest build.index.pool module contents).2 with
  | error failure => rfl
  | ok record => rfl

theorem isPrefixOf_of_parse? {name contents : String} {service : ServiceFile}
    (h : ServiceFile.parse? name contents = some service) :
    ServiceFile.directory.toList.isPrefixOf name.toList = true := by
  rw [ServiceFile.parse?] at h
  split at h
  · cases h
  · cases h
  · rename_i interface _ hmark
    rw [List.isPrefixOf_iff_prefix]
    exact ⟨interface, (Text.append_of_afterMark? hmark).symm⟩

theorem addResource_index (module : ModuleId) (location : String) (build : Build) (item : ResourceItem) :
    (addResource module location build item).index =
      (item.changes module).foldl (Change.apply module) build.index := by
  cases item with
  | notice message => rfl
  | entry name contents =>
    cases contents with
    | error reason =>
      rw [addResource]
      split
      · rfl
      · split <;> rfl
    | ok contents =>
      rw [addResource, ResourceItem.changes]
      split
      · exact addClassFile_index build module location name contents
      · split
        · exact addServiceFile_index build module location name contents
        · rename_i hdirectory
          cases hs : ServiceFile.parse? name (Utf8.lossy contents) with
          | none => rfl
          | some service => exact absurd (isPrefixOf_of_parse? hs) hdirectory

theorem addRoot_index (module : ModuleId) (moduleName : String) (build : Build) (root : ResourceRoot) :
    (addRoot module moduleName build root).index =
      (root.changes module).foldl (Change.apply module) build.index := by
  cases root with
  | unlisted location => rfl
  | listed listing =>
    have hitems := foldl_index (addResource_index module listing.location) listing.items
    rw [addRoot, ResourceRoot.changes]
    split
    · exact hitems _
    · exact hitems _

theorem addSpec_index (build : Build) (name : String) (mainClass : Option String) (roots : List ResourceRoot)
    (dependencies : List Dependency) :
    (build.addSpec (.module name mainClass roots dependencies)).index =
      (contentChanges (build.index.addModule name).2 mainClass roots dependencies).foldl
        (Change.apply (build.index.addModule name).2) (build.index.addModule name).1 := by
  have hdeclared : ∀ start : Build,
      (dependencies.foldl (addDeclaration (build.index.addModule name).2) start).index =
        (dependencies.map .declare).foldl (Change.apply (build.index.addModule name).2) start.index := by
    intro start
    rw [List.map_eq_flatMap]
    exact foldl_index (fun _ _ => rfl) dependencies start
  rw [addSpec, contentChanges, List.foldl_append, List.foldl_append]
  dsimp only
  rw [hdeclared, foldl_index (addRoot_index _ name)]
  cases mainClass with
  | none => rfl
  | some main => rfl

end Build

/-! ## What changes keep and add -/

namespace Change

variable (module : ModuleId)

theorem nameOf?_apply (index : Index) (change : Change) (id : ModuleId) :
    (change.apply module index).nameOf? id = index.nameOf? id := by
  cases change with
  | pool change => rfl
  | refer typeName n => exact Index.map_refer (fun _ _ _ _ => rfl) index module typeName n id
  | attach record => exact Index.map_attachClass (fun _ _ _ _ => rfl) (fun _ _ _ _ => rfl) index record id
  | main name => exact Index.map_setMainClass (fun _ _ => rfl) index module (some name) id
  | service interface implementation =>
    exact Index.map_addService (fun _ _ _ => rfl) index module interface implementation id
  | declare dependency => exact Index.map_declare (fun _ _ => rfl) index module dependency id

theorem nameOf?_foldl_apply (changes : List Change) (index : Index) (id : ModuleId) :
    (changes.foldl (apply module) index).nameOf? id = index.nameOf? id := by
  induction changes generalizing index with
  | nil => rfl
  | cons change rest ih => rw [List.foldl_cons, ih, nameOf?_apply]

theorem classes_apply (index : Index) (change : Change) :
    (change.apply module index).classes.toList = index.classes.toList ++ change.attached := by
  cases change with
  | attach record => rw [apply, Index.attachClass_eq, Array.toList_push, attached]
  | _ => exact (List.append_nil _).symm

theorem classes_foldl_apply (changes : List Change) (index : Index) :
    (changes.foldl (apply module) index).classes.toList =
      index.classes.toList ++ changes.flatMap attached := by
  induction changes generalizing index with
  | nil => exact (List.append_nil _).symm
  | cons change rest ih =>
    rw [List.foldl_cons, ih, classes_apply, List.flatMap_cons, List.append_assoc]

theorem mem_classes_foldl_apply (changes : List Change) (index : Index) (record : ClassRecord) :
    record ∈ (changes.foldl (apply module) index).classes ↔
      record ∈ index.classes ∨ record ∈ changes.flatMap attached := by
  rw [← Array.mem_toList_iff, classes_foldl_apply, List.mem_append, Array.mem_toList_iff]

theorem lt_size_foldl_apply (changes : List Change) {index : Index} {id : ModuleId}
    (h : id < index.modules.size) : id < (changes.foldl (apply module) index).modules.size := by
  have hknown : index.nameOf? id = some index.modules[id].name := by
    rw [Index.nameOf?, Array.getElem?_eq_getElem h, Option.map_some]
  exact Index.lt_size_of_nameOf? ((nameOf?_foldl_apply module changes index id).trans hknown)

end Change

theorem ServiceFile.attached_changes (service : ServiceFile) :
    service.changes.flatMap Change.attached = [] := by
  simp [ServiceFile.changes, Change.attached, List.flatMap_assoc]

theorem ResourceItem.module_of_attached {module : ModuleId} {item : ResourceItem} {record : ClassRecord}
    (h : record ∈ (item.changes module).flatMap Change.attached) : record.module = module := by
  cases item with
  | notice message => exact absurd h List.not_mem_nil
  | entry name contents =>
    cases contents with
    | error reason => exact absurd h List.not_mem_nil
    | ok contents =>
      rw [ResourceItem.changes] at h
      split at h
      · have hread : classIn? module contents = some record := by
          simpa [List.flatMap_map, Change.attached] using h
        exact module_of_classIn? hread
      · cases hs : ServiceFile.parse? name (Utf8.lossy contents) with
        | none => simp [hs] at h
        | some service => simp [hs, service.attached_changes] at h

/-- The classes among the contents of a module are its own. -/
theorem module_of_attached {module : ModuleId} {mainClass : Option String} {roots : List ResourceRoot}
    {dependencies : List Dependency} {record : ClassRecord}
    (h : record ∈ (contentChanges module mainClass roots dependencies).flatMap Change.attached) :
    record.module = module := by
  have hmain : (mainClass.toList.flatMap fun name => [Change.main name, .refer (slashed name) 1]).flatMap
      Change.attached = [] := by
    cases mainClass <;> rfl
  have hdeclared : (dependencies.map Change.declare).flatMap Change.attached = [] := by
    simp [Change.attached]
  rw [contentChanges, List.flatMap_append, List.flatMap_append, hmain, hdeclared, List.nil_append,
    List.append_nil, List.flatMap_assoc] at h
  obtain ⟨root, -, hroot⟩ := List.mem_flatMap.mp h
  cases root with
  | unlisted location => exact absurd hroot List.not_mem_nil
  | listed listing =>
    rw [ResourceRoot.changes, List.flatMap_assoc] at hroot
    obtain ⟨item, -, hitem⟩ := List.mem_flatMap.mp hroot
    exact ResourceItem.module_of_attached hitem

end ModuleAudit
