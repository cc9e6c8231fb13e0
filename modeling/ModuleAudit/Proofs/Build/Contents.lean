import Mathlib.Data.List.Basic
import ModuleAudit.Proofs.Build.Changes
import ModuleAudit.Proofs.Build.Edges
import ModuleAudit.Proofs.Symbols

/-! What the contents of a module change: the texts that its class files load go into the pool
(`hasLiteral_contentChanges`), its classes are attached in order (`attached_contentChanges`), its declarations are made
(`declared_contentChanges`), and a main class is named if it has one (`any_isMain_contentChanges`). With what the
other findings do this gives an induction over findings (`ofFindings_induct`). -/

namespace ModuleAudit
set_option autoImplicit false

/-- A class file describes the same class for every module, but for the module's number. -/
theorem classIn?_eq (module : ModuleId) (contents : Bytes) :
    classIn? module contents = (classIn? 0 contents).map fun record => { record with module } := by
  have hsame := fun pool => Ingestion.foldl_add_alike (ClassFile.read contents).events pool pool module 0
  simp only [classIn?, ingest, (hsame _).2]
  split
  · rfl
  · simp only [(hsame _).1]
    rfl

/-! ## What contents say -/

/-- The entries of a resource root, as far as it can be listed. -/
def ResourceRoot.items : ResourceRoot → List ResourceItem
  | .listed listing => listing.items
  | .unlisted _ => []

/-- The class that an entry describes for a module, if it is a class file that can be read. -/
def ResourceItem.class? (module : ModuleId) : ResourceItem → Option ClassRecord
  | .entry name (.ok contents) =>
    if Build.endsWith Build.classSuffix name then classIn? module contents else none
  | _ => none

/-- The text that an event loads. -/
def ClassFile.Event.text? : ClassFile.Event → Option String
  | .load (.text text) => some text
  | _ => none

/-- The texts that a class file loads, up to the place where reading it fails if it does. -/
def loadedTexts (contents : Bytes) : List String := (ClassFile.read contents).events.filterMap (·.text?)

/-- The texts that an entry loads as a class file. -/
def ResourceItem.texts : ResourceItem → List String
  | .entry name (.ok contents) => if Build.endsWith Build.classSuffix name then loadedTexts contents else []
  | _ => []

namespace Change

/-- The declaration that a change makes. -/
def declared : Change → List Dependency
  | .declare dependency => [dependency]
  | _ => []

/-- Whether a change names a main class. -/
def isMain : Change → Bool
  | .main _ => true
  | _ => false

end Change

/-- Whether a module has a main class. -/
def Index.hasMain (index : Index) (id : ModuleId) : Bool :=
  (index.modules[id]?.map (·.mainClass.isSome)).getD false

/-! ## Texts -/

theorem Ingestion.hasLiteral_add (state : Ingestion) (event : ClassFile.Event) (text : String) :
    (state.add event).pool.hasLiteral text = true ↔ state.pool.hasLiteral text = true ∨ event.text? = some text := by
  have hmentions : ∀ (mentions : List Mention) (state : Ingestion),
      (mentions.foldl Ingestion.mention state).pool.hasLiteral = state.pool.hasLiteral := by
    intro mentions
    induction mentions with
    | nil => exact fun _ => rfl
    | cons first rest ih =>
      intro state
      rw [List.foldl_cons, ih]
      cases first with
      | error failure => rfl
      | ok named => exact NamePool.hasLiteral_addPath _ _
  have hother : ∀ {pool : NamePool}, pool.hasLiteral = state.pool.hasLiteral →
      (pool.hasLiteral text = true ↔ state.pool.hasLiteral text = true ∨ none = some text) := by
    intro pool hpool
    simp [hpool]
  have h := hmentions event.mentions state
  cases event with
  | load constant =>
    cases constant with
    | text loaded =>
      rw [ClassFile.Event.text?, Option.some.injEq, eq_comm (a := loaded), ← h]
      exact NamePool.hasLiteral_addLiteral _ loaded text
    | _ => exact hother h
  | header access name superName interfaces => exact hother ((NamePool.hasLiteral_addPath _ _).trans h)
  | _ => exact hother h

theorem hasLiteral_ingest (pool : NamePool) (module : ModuleId) (contents : Bytes) (text : String) :
    (ingest pool module contents).1.hasLiteral text = true ↔
      pool.hasLiteral text = true ∨ text ∈ loadedTexts contents := by
  have hfold : ∀ (events : List ClassFile.Event) (state : Ingestion),
      (events.foldl Ingestion.add state).pool.hasLiteral text = true ↔
        state.pool.hasLiteral text = true ∨ text ∈ events.filterMap (·.text?) := by
    intro events
    induction events with
    | nil => simp
    | cons event rest ih =>
      intro state
      rw [List.foldl_cons, ih, Ingestion.hasLiteral_add, or_assoc]
      cases h : event.text? with
      | none => simp [h]
      | some loaded =>
        rw [List.filterMap_cons_some h, List.mem_cons, Option.some.injEq, eq_comm (a := loaded)]
  have h := hfold (ClassFile.read contents).events { pool, record := { module } }
  rw [ingest]
  split <;> exact h

namespace Index

theorem hasLiteral_refer (index : Index) (module : ModuleId) (typeName : String) (n : UInt32) :
    (index.refer module typeName n).pool.hasLiteral = index.pool.hasLiteral :=
  index.pool.hasLiteral_addPackage typeName

theorem hasLiteral_foldl_refer (module : ModuleId) (references : List (String × UInt32)) (index : Index) :
    (references.foldl (fun index (name, n) => index.refer module name n) index).pool.hasLiteral =
      index.pool.hasLiteral := by
  induction references generalizing index with
  | nil => rfl
  | cons first rest ih => exact (ih _).trans (hasLiteral_refer index _ _ _)

theorem hasLiteral_attachClass (index : Index) (record : ClassRecord) :
    (index.attachClass record).1.pool.hasLiteral = index.pool.hasLiteral := by
  have h := hasLiteral_foldl_refer record.module record.references index
  rw [attachClass]
  cases record.name with
  | none => exact h
  | some name => exact (NamePool.hasLiteral_addPackage _ name).trans h

end Index

namespace Change

/-- The change loads no text. -/
def Mute : Change → Prop
  | .pool change => ∀ pool, (change pool).hasLiteral = pool.hasLiteral
  | _ => True

theorem Mute.hasLiteral_apply {change : Change} (h : change.Mute) (module : ModuleId) (index : Index) :
    (change.apply module index).pool.hasLiteral = index.pool.hasLiteral := by
  cases change with
  | pool change => exact h index.pool
  | refer typeName n => exact index.hasLiteral_refer module typeName n
  | attach record => exact index.hasLiteral_attachClass record
  | main name => exact index.pool.hasLiteral_addPath name
  | service interface implementation =>
    exact (NamePool.hasLiteral_addPath _ implementation).trans (index.pool.hasLiteral_addPath interface)
  | declare dependency => rfl

theorem hasLiteral_foldl_apply {changes : List Change} (h : ∀ change ∈ changes, change.Mute) (module : ModuleId)
    (index : Index) : (changes.foldl (apply module) index).pool.hasLiteral = index.pool.hasLiteral := by
  induction changes generalizing index with
  | nil => rfl
  | cons change rest ih =>
    rw [List.forall_mem_cons] at h
    rw [List.foldl_cons, ih h.2, h.1.hasLiteral_apply]

end Change

theorem ServiceFile.mute_of_mem_changes {service : ServiceFile} {change : Change} (h : change ∈ service.changes) :
    change.Mute := by
  simp only [ServiceFile.changes, List.mem_cons, List.mem_flatMap, List.not_mem_nil, or_false] at h
  rcases h with rfl | ⟨implementation, -, rfl | rfl | rfl | rfl⟩
  · exact fun pool => by simp
  · exact fun pool => by simp
  · trivial
  · trivial
  · trivial

theorem ResourceItem.hasLiteral_changes (module : ModuleId) (item : ResourceItem) (index : Index) (text : String) :
    ((item.changes module).foldl (Change.apply module) index).pool.hasLiteral text = true ↔
      index.pool.hasLiteral text = true ∨ text ∈ item.texts := by
  have hnone : index.pool.hasLiteral text = true ↔ index.pool.hasLiteral text = true ∨ text ∈ ([] : List String) := by
    simp
  cases item with
  | notice message => exact hnone
  | entry name contents =>
    cases contents with
    | error reason => exact hnone
    | ok contents =>
      rw [ResourceItem.changes, ResourceItem.texts]
      split
      · have hmute : ∀ change ∈ (classIn? module contents).toList.map Change.attach, change.Mute := by
          intro change hc
          obtain ⟨record, -, rfl⟩ := List.mem_map.mp hc
          trivial
        rw [List.foldl_cons, Change.hasLiteral_foldl_apply hmute]
        exact hasLiteral_ingest index.pool module contents text
      · cases ServiceFile.parse? name (Utf8.lossy contents) with
        | none => exact hnone
        | some service =>
          rw [Option.map_some, Option.getD_some,
            Change.hasLiteral_foldl_apply fun _ => ServiceFile.mute_of_mem_changes]
          exact hnone

theorem ResourceRoot.changes_eq (module : ModuleId) (root : ResourceRoot) :
    root.changes module = root.items.flatMap (ResourceItem.changes module) := by
  cases root <;> rfl

/-- The changes of a module's contents, entry by entry. -/
theorem contentChanges_eq (module : ModuleId) (mainClass : Option String) (roots : List ResourceRoot)
    (dependencies : List Dependency) : contentChanges module mainClass roots dependencies =
      mainClass.toList.flatMap (fun name => [.main name, .refer (slashed name) 1]) ++
        (roots.flatMap ResourceRoot.items).flatMap (ResourceItem.changes module) ++
        dependencies.map .declare := by
  rw [contentChanges, List.flatMap_assoc, funext (ResourceRoot.changes_eq module)]

theorem hasLiteral_contentChanges (module : ModuleId) (mainClass : Option String) (roots : List ResourceRoot)
    (dependencies : List Dependency) (index : Index) (text : String) :
    ((contentChanges module mainClass roots dependencies).foldl (Change.apply module) index).pool.hasLiteral text =
        true ↔
      index.pool.hasLiteral text = true ∨ text ∈ (roots.flatMap ResourceRoot.items).flatMap ResourceItem.texts := by
  have hitems : ∀ (items : List ResourceItem) (index : Index),
      ((items.flatMap (ResourceItem.changes module)).foldl (Change.apply module) index).pool.hasLiteral text = true ↔
        index.pool.hasLiteral text = true ∨ text ∈ items.flatMap ResourceItem.texts := by
    intro items
    induction items with
    | nil => simp
    | cons item rest ih =>
      intro index
      rw [List.flatMap_cons, List.foldl_append, ih, ResourceItem.hasLiteral_changes, List.flatMap_cons,
        List.mem_append, or_assoc]
  have hmain : ∀ change ∈ mainClass.toList.flatMap fun name => [Change.main name, .refer (slashed name) 1],
      change.Mute := by
    intro change hc
    obtain ⟨name, -, hname⟩ := List.mem_flatMap.mp hc
    simp only [List.mem_cons, List.not_mem_nil, or_false] at hname
    rcases hname with rfl | rfl <;> trivial
  have hdeclared : ∀ change ∈ dependencies.map Change.declare, change.Mute := by
    intro change hc
    obtain ⟨dependency, -, rfl⟩ := List.mem_map.mp hc
    trivial
  rw [contentChanges_eq, List.foldl_append, List.foldl_append, Change.hasLiteral_foldl_apply hdeclared, hitems,
    Change.hasLiteral_foldl_apply hmain]

/-! ## Classes, main classes and declarations -/

theorem ServiceFile.plain_of_mem_changes {service : ServiceFile} {change : Change} (h : change ∈ service.changes) :
    change.declared = [] ∧ change.isMain = false := by
  simp only [ServiceFile.changes, List.mem_cons, List.mem_flatMap, List.not_mem_nil, or_false] at h
  rcases h with rfl | ⟨implementation, -, rfl | rfl | rfl | rfl⟩ <;> exact ⟨rfl, rfl⟩

theorem ResourceItem.plain_of_mem_changes {module : ModuleId} {item : ResourceItem} {change : Change}
    (h : change ∈ item.changes module) : change.declared = [] ∧ change.isMain = false := by
  cases item with
  | notice message => exact absurd h List.not_mem_nil
  | entry name contents =>
    cases contents with
    | error reason => exact absurd h List.not_mem_nil
    | ok contents =>
      rw [ResourceItem.changes] at h
      split at h
      · rcases List.mem_cons.mp h with rfl | h
        · exact ⟨rfl, rfl⟩
        · obtain ⟨record, -, rfl⟩ := List.mem_map.mp h
          exact ⟨rfl, rfl⟩
      · cases hs : ServiceFile.parse? name (Utf8.lossy contents) with
        | none => simp [hs] at h
        | some service =>
          rw [hs] at h
          exact ServiceFile.plain_of_mem_changes h

theorem ResourceItem.attached_changes (module : ModuleId) (item : ResourceItem) :
    (item.changes module).flatMap Change.attached = (item.class? module).toList := by
  cases item with
  | notice message => rfl
  | entry name contents =>
    cases contents with
    | error reason => rfl
    | ok contents =>
      rw [ResourceItem.changes, ResourceItem.class?]
      split
      · cases classIn? module contents <;> rfl
      · cases ServiceFile.parse? name (Utf8.lossy contents) with
        | none => rfl
        | some service => exact service.attached_changes

section Contents

variable (module : ModuleId) (mainClass : Option String) (roots : List ResourceRoot)
  (dependencies : List Dependency)

theorem attached_contentChanges : (contentChanges module mainClass roots dependencies).flatMap Change.attached =
    (roots.flatMap ResourceRoot.items).filterMap (ResourceItem.class? module) := by
  have hmain : (mainClass.toList.flatMap fun name => [Change.main name, .refer (slashed name) 1]).flatMap
      Change.attached = [] := by
    cases mainClass <;> rfl
  have hdeclared : (dependencies.map Change.declare).flatMap Change.attached = [] := by
    simp [Change.attached]
  rw [contentChanges_eq, List.flatMap_append, List.flatMap_append, hmain, hdeclared, List.nil_append,
    List.append_nil, List.flatMap_assoc, List.filterMap_eq_flatMap_toList]
  simp only [ResourceItem.attached_changes]

theorem declared_contentChanges : (contentChanges module mainClass roots dependencies).flatMap Change.declared =
    dependencies := by
  have hmain : (mainClass.toList.flatMap fun name => [Change.main name, .refer (slashed name) 1]).flatMap
      Change.declared = [] := by
    cases mainClass <;> rfl
  have hitems : ((roots.flatMap ResourceRoot.items).flatMap (ResourceItem.changes module)).flatMap
      Change.declared = [] := by
    rw [List.flatMap_eq_nil_iff]
    intro change hc
    obtain ⟨item, -, hi⟩ := List.mem_flatMap.mp hc
    exact (ResourceItem.plain_of_mem_changes hi).1
  rw [contentChanges_eq, List.flatMap_append, List.flatMap_append, hmain, hitems, List.nil_append,
    List.nil_append, List.flatMap_map]
  exact List.flatMap_singleton' dependencies

theorem any_isMain_contentChanges : (contentChanges module mainClass roots dependencies).any Change.isMain =
    mainClass.isSome := by
  have hmain : (mainClass.toList.flatMap fun name => [Change.main name, .refer (slashed name) 1]).any
      Change.isMain = mainClass.isSome := by
    cases mainClass <;> rfl
  have hitems : ((roots.flatMap ResourceRoot.items).flatMap (ResourceItem.changes module)).any
      Change.isMain = false := by
    rw [List.any_eq_false]
    intro change hc
    obtain ⟨item, -, hi⟩ := List.mem_flatMap.mp hc
    rw [(ResourceItem.plain_of_mem_changes hi).2]
    exact Bool.false_ne_true
  have hdeclared : (dependencies.map Change.declare).any Change.isMain = false := by
    simp [Change.isMain]
  rw [contentChanges_eq, List.any_append, List.any_append, hmain, hitems, hdeclared, Bool.or_false, Bool.or_false]

end Contents

namespace Index

variable {index : Index} {module : ModuleId} (hlt : module < index.modules.size)

include hlt in
theorem declarationsOf_apply (change : Change) (id : ModuleId) :
    (change.apply module index).declarationsOf id =
      index.declarationsOf id ++ if id = module then change.declared else [] := by
  have hkept : ∀ j : Index, j.modules[id]?.map (·.declarations) = index.modules[id]?.map (·.declarations) →
      change.declared = [] → j.declarationsOf id =
        index.declarationsOf id ++ if id = module then change.declared else [] := by
    intro j hj hnone
    rw [declarationsOf, hj, hnone, ite_self, List.append_nil]
    rfl
  cases change with
  | pool change => exact hkept _ rfl rfl
  | refer name n => exact hkept _ (map_refer (fun _ _ _ _ => rfl) _ _ _ _ id) rfl
  | attach record => exact hkept _ (map_attachClass (fun _ _ _ _ => rfl) (fun _ _ _ _ => rfl) _ _ id) rfl
  | main name => exact hkept _ (map_setMainClass (fun _ _ => rfl) _ _ _ id) rfl
  | service interface implementation => exact hkept _ (map_addService (fun _ _ _ => rfl) _ _ _ _ id) rfl
  | declare dependency =>
    rw [declarationsOf, Change.apply, Index.declare, getElem?_updateModule]
    by_cases h : module = id
    · subst h
      simp [declarationsOf, Array.getElem?_eq_getElem hlt, Change.declared]
    · have h' : id ≠ module := fun e => h e.symm
      simp [declarationsOf, h, h']

include hlt in
theorem hasMain_apply (change : Change) (id : ModuleId) :
    (change.apply module index).hasMain id = (index.hasMain id || (id = module && change.isMain)) := by
  have hkept : ∀ j : Index, j.modules[id]?.map (·.mainClass) = index.modules[id]?.map (·.mainClass) →
      change.isMain = false → j.hasMain id = (index.hasMain id || (id = module && change.isMain)) := by
    intro j hj hnone
    have e := congrArg (fun found : Option (Option String) => (found.map Option.isSome).getD false) hj
    simp only [Option.map_map, Function.comp_def] at e
    rw [hnone, Bool.and_false, Bool.or_false]
    exact e
  cases change with
  | pool change => exact hkept _ rfl rfl
  | refer name n => exact hkept _ (map_refer (fun _ _ _ _ => rfl) _ _ _ _ id) rfl
  | attach record => exact hkept _ (map_attachClass (fun _ _ _ _ => rfl) (fun _ _ _ _ => rfl) _ _ id) rfl
  | service interface implementation => exact hkept _ (map_addService (fun _ _ _ => rfl) _ _ _ _ id) rfl
  | declare dependency => exact hkept _ (map_declare (fun _ _ => rfl) _ _ _ id) rfl
  | main name =>
    rw [hasMain, Change.apply, Index.setMainClass, getElem?_updateModule]
    by_cases h : module = id
    · subst h
      have hlt' : module < (index.pooling fun pool => (some name).toList.foldl NamePool.addPath pool).modules.size :=
        hlt
      rw [if_pos rfl, Array.getElem?_eq_getElem hlt']
      simp [Change.isMain]
    · have h' : id ≠ module := fun e => h e.symm
      rw [if_neg h, decide_eq_false h', Bool.false_and, Bool.or_false]
      rfl

end Index

namespace Change

variable {module : ModuleId} {name : String}

theorem declarationsOf_foldl_apply (changes : List Change) {index : Index} (hname : index.nameOf? module = some name)
    (id : ModuleId) : (changes.foldl (apply module) index).declarationsOf id =
      index.declarationsOf id ++ if id = module then changes.flatMap declared else [] := by
  induction changes generalizing index with
  | nil => simp
  | cons change rest ih =>
    have hname' := (nameOf?_apply module index change module).trans hname
    rw [List.foldl_cons, ih hname', Index.declarationsOf_apply (Index.lt_size_of_nameOf? hname), List.append_assoc]
    split <;> rfl

theorem hasMain_foldl_apply (changes : List Change) {index : Index} (hname : index.nameOf? module = some name)
    (id : ModuleId) : (changes.foldl (apply module) index).hasMain id =
      (index.hasMain id || (id = module && changes.any isMain)) := by
  induction changes generalizing index with
  | nil => simp
  | cons change rest ih =>
    have hname' := (nameOf?_apply module index change module).trans hname
    rw [List.foldl_cons, ih hname', Index.hasMain_apply (Index.lt_size_of_nameOf? hname), List.any_cons,
      Bool.and_or_distrib_left, Bool.or_assoc]

theorem aliases_foldl_apply (changes : List Change) (index : Index) :
    (changes.foldl (apply module) index).aliases = index.aliases := by
  induction changes generalizing index with
  | nil => rfl
  | cons change rest ih =>
    rw [List.foldl_cons, ih]
    cases change with
    | attach record =>
      rw [apply, Index.attachClass_eq]
    | _ => rfl

end Change

/-! ## Findings -/

/-- What was found. -/
def Finding.spec? (finding : Finding) : Option ModuleSpec :=
  match finding.outcome with
  | .ok spec => spec
  | .error _ => none

namespace Build

theorem addFinding_index (build : Build) (finding : Finding) : (build.addFinding finding).index =
    match finding.spec? with
    | none => build.index
    | some (.link name target) => build.index.addAlias name target
    | some (.module name mainClass roots dependencies) =>
      (contentChanges (build.index.addModule name).2 mainClass roots dependencies).foldl
        (Change.apply (build.index.addModule name).2) (build.index.addModule name).1 := by
  rw [addFinding, Finding.spec?]
  cases finding.outcome with
  | error error => rfl
  | ok found =>
    cases found with
    | none => rfl
    | some spec =>
      cases spec with
      | link name target => rfl
      | module name mainClass roots dependencies => exact addSpec_index _ name mainClass roots dependencies

/-- What holds of the empty index and is kept by what each finding adds holds of the index of findings. -/
theorem ofFindings_induct {P : List Finding → Index → Prop} (start : P [] {})
    (silent : ∀ done finding index, Finding.spec? finding = none → index.Gathered → P done index →
      P (done ++ [finding]) index)
    (link : ∀ done finding index name target, Finding.spec? finding = some (.link name target) → index.Gathered →
      P done index → P (done ++ [finding]) (index.addAlias name target))
    (module : ∀ done finding index name mainClass roots dependencies,
      Finding.spec? finding = some (.module name mainClass roots dependencies) → index.Gathered → P done index →
      P (done ++ [finding]) ((contentChanges (index.addModule name).2 mainClass roots dependencies).foldl
        (Change.apply (index.addModule name).2) (index.addModule name).1))
    (findings : List Finding) : P findings (ofFindings findings).index := by
  have hpassed := foldl_passed (l := findings) (f := addFinding) (b := {})
    (P := fun done build => build = ofFindings done ∧ P done build.index) ⟨rfl, start⟩ ?_
  · exact hpassed.2
  · rintro done finding rest build - ⟨hbuild, hdone⟩
    have hg : build.index.Gathered := by
      rw [hbuild]
      exact (ofFindings_gathered (fun _ _ => true) done).1
    refine ⟨by rw [hbuild, ofFindings, ofFindings, List.foldl_append]; rfl, ?_⟩
    rw [addFinding_index]
    cases hs : finding.spec? with
    | none => exact silent done finding build.index hs hg hdone
    | some spec =>
      cases spec with
      | link name target => exact link done finding build.index name target hs hg hdone
      | module name mainClass roots dependencies =>
        exact module done finding build.index name mainClass roots dependencies hs hg hdone

end Build

end ModuleAudit
