import ModuleAudit.Proofs.Audit.Fixing
import ModuleAudit.Proofs.ModuleName

/-! Which file a fix writes. A module name gives a few shelves, rows of directories below a root where the
descriptor may be, and a fix takes the first descriptor it finds there, whatever name that one declares
(`fixModule_writes_first_shelf`). It is the module's own if what stands on its shelves is named in the same way. A
name with a slot and a name that has the slot as its last segment share a shelf, and then a fix may write the
descriptor of the other module (`slot_hides_segment`). -/

namespace ModuleAudit
set_option autoImplicit false

namespace Prune

/-! ## Shelves -/

/-- The directories that lead to the base layer of a root. -/
def baseLayerNames : List String := ["modules", "system", "layers", "base"]

/-- The rows of directories below a root in which the descriptor of a module may be, in order. -/
def shelves (module : String) : List (List String) :=
  match ModuleName.directory? module with
  | none => []
  | some names =>
    [[], baseLayerNames].flatMap fun layer =>
      (if ModuleName.hasSlot module then [[]] else [[], [ModuleName.defaultSlot]]).map fun slot =>
        layer ++ names ++ slot

/-- The path of the descriptor on a shelf below a root. -/
def descriptorAt (root : String) (shelf : List String) : String :=
  Path.joinAll root (shelf ++ [DiskRepository.descriptorFile])

/-- The paths at which the descriptor of a module may be, in order. -/
def descriptorPaths (roots : List String) (module : String) : List String :=
  roots.flatMap fun root => (shelves module).map (descriptorAt root)

theorem mem_shelves {module : String} {shelf : List String} : shelf ∈ shelves module ↔
    ∃ names layer slot, ModuleName.directory? module = some names ∧ (layer = [] ∨ layer = baseLayerNames) ∧
      (slot = [] ∨ ModuleName.hasSlot module = false ∧ slot = [ModuleName.defaultSlot]) ∧
      shelf = layer ++ names ++ slot := by
  rw [shelves]
  cases ModuleName.directory? module with
  | none => simp
  | some names =>
    simp only [List.mem_flatMap, List.mem_map, List.mem_cons, List.not_mem_nil, or_false, Option.some.injEq]
    cases ModuleName.hasSlot module with
    | true =>
      constructor
      · rintro ⟨layer, hlayer, slot, hslot, rfl⟩
        exact ⟨names, layer, slot, rfl, hlayer, Or.inl (List.mem_singleton.mp hslot), rfl⟩
      · rintro ⟨_, layer, slot, rfl, hlayer, hslot | ⟨hfalse, -⟩, rfl⟩
        · exact ⟨layer, hlayer, slot, List.mem_singleton.mpr hslot, rfl⟩
        · cases hfalse
    | false =>
      constructor
      · rintro ⟨layer, hlayer, slot, hslot, rfl⟩
        refine ⟨names, layer, slot, rfl, hlayer, ?_, rfl⟩
        simpa using hslot
      · rintro ⟨_, layer, slot, rfl, hlayer, hslot, rfl⟩
        refine ⟨layer, hlayer, slot, ?_, rfl⟩
        simpa using hslot

theorem isName_of_mem_shelves {module : String} {shelf : List String} (h : shelf ∈ shelves module) :
    ∀ name ∈ shelf ++ [DiskRepository.descriptorFile], Path.IsName name := by
  obtain ⟨names, layer, slot, hnames, hlayer, hslot, rfl⟩ := mem_shelves.mp h
  have hbase : ∀ name ∈ baseLayerNames, Path.IsName name := by decide
  intro name hmem
  simp only [List.mem_append] at hmem
  rcases hmem with ((hmem | hmem) | hmem) | hmem
  · rcases hlayer with rfl | rfl
    · exact absurd hmem List.not_mem_nil
    · exact hbase name hmem
  · exact (ModuleName.isName_of_directory? hnames).2 name hmem
  · rcases hslot with rfl | ⟨-, rfl⟩
    · exact absurd hmem List.not_mem_nil
    · rw [List.mem_singleton.mp hmem]
      decide
  · rw [List.mem_singleton.mp hmem]
    decide

/-! ## Locating -/

theorem candidates_eq {module : String} {names : List String} (h : ModuleName.directory? module = some names)
    (root : String) : candidates (Text.join "/" names) (ModuleName.hasSlot module) root =
      (shelves module).map (descriptorAt root) := by
  obtain ⟨hne, hnames⟩ := ModuleName.isName_of_directory? h
  have hbase : ∀ name ∈ baseLayerNames, Path.IsName name := by decide
  have hplain : ∀ base, Path.join base (Text.join "/" names) = Path.joinAll base names :=
    fun base => (Path.join_names hne hnames).2
  have hlayer : Path.join root baseLayer = Path.joinAll root baseLayerNames := by
    have hwritten : baseLayer = Text.join "/" baseLayerNames := by decide
    rw [hwritten]
    exact (Path.join_names (List.cons_ne_nil _ _) hbase).2
  have hlonger : ∀ (base : String) (front : List String) (name : String),
      Path.join (Path.joinAll base front) name = Path.joinAll base (front ++ [name]) := by
    intro base front name
    rw [Path.joinAll, Path.joinAll, List.foldl_append]
    rfl
  have hlayered : Path.joinAll (Path.joinAll root baseLayerNames) names =
      Path.joinAll root (baseLayerNames ++ names) := (List.foldl_append ..).symm
  rw [candidates, shelves, h, hlayer, hplain, hplain, hlayered]
  cases ModuleName.hasSlot module with
  | true => simp [descriptorAt, hlonger]
  | false => simp [descriptorAt, hlonger]

theorem find?_of_locate {tree : FileTree} {roots : List String} {module path : String}
    (h : locate tree roots module = .ok path) : (descriptorPaths roots module).find? tree.isFile = some path := by
  rw [locate] at h
  split at h
  · cases h
  · rename_i names hnames
    have hpaths : roots.flatMap (candidates (Text.join "/" names) (ModuleName.hasSlot module)) =
        descriptorPaths roots module := by
      rw [descriptorPaths]
      exact List.flatMap_congr fun root _ => candidates_eq hnames root
    rw [hpaths] at h
    split at h
    · rename_i found hfound
      rw [hfound]
      exact congrArg some (Except.ok.inj h)
    · cases h

/-! ## Names on a shelf -/

/-- A name whose directory is neither in a base layer nor that of a default slot. -/
def Ordinary (module : String) : Prop :=
  ∀ names ∈ ModuleName.directory? module,
    ¬ baseLayerNames <+: names ∧ names.getLast? ≠ some ModuleName.defaultSlot

instance (module : String) : Decidable (Ordinary module) :=
  inferInstanceAs (Decidable (∀ names ∈ ModuleName.directory? module,
    ¬ baseLayerNames <+: names ∧ names.getLast? ≠ some ModuleName.defaultSlot))

/-- Ordinary names that share a shelf have the same directory. -/
theorem directory?_eq_of_mem_shelves {a b : String} (ha : Ordinary a) (hb : Ordinary b) {shelf : List String}
    (hashelf : shelf ∈ shelves a) (hbshelf : shelf ∈ shelves b) :
    ModuleName.directory? a = ModuleName.directory? b := by
  obtain ⟨names, layer, slot, hnames, hlayer, hslot, rfl⟩ := mem_shelves.mp hashelf
  obtain ⟨others, layer', slot', hothers, hlayer', hslot', heq⟩ := mem_shelves.mp hbshelf
  obtain ⟨hbase, hlast⟩ := ha names hnames
  obtain ⟨hbase', hlast'⟩ := hb others hothers
  have hslots : slot = [] ∨ slot = [ModuleName.defaultSlot] := hslot.imp_right And.right
  have hslots' : slot' = [] ∨ slot' = [ModuleName.defaultSlot] := hslot'.imp_right And.right
  have hends : ∀ {front row other : List String}, row ≠ [] → row.getLast? ≠ some ModuleName.defaultSlot →
      front ++ row ++ [] ≠ other ++ [ModuleName.defaultSlot] := by
    intro front row other hrow hrowlast e
    have hlasts := congrArg List.getLast? e
    rw [List.append_nil, List.getLast?_append, List.getLast?_concat] at hlasts
    obtain ⟨last, hl⟩ := Option.ne_none_iff_exists'.mp (mt List.getLast?_eq_none_iff.mp hrow)
    rw [hl, Option.some_or] at hlasts
    exact hrowlast (hl.trans hlasts)
  have hnonempty := (ModuleName.isName_of_directory? hnames).1
  have hnonempty' := (ModuleName.isName_of_directory? hothers).1
  -- both end with the default slot or neither does, so the rows before it are the same
  have hrows : layer ++ names = layer' ++ others := by
    rcases hslots with rfl | rfl <;> rcases hslots' with rfl | rfl
    · simpa using heq
    · exact absurd heq (hends hnonempty hlast)
    · exact absurd heq.symm (hends hnonempty' hlast')
    · exact List.append_cancel_right heq
  have hsame : names = others := by
    rcases hlayer with rfl | rfl <;> rcases hlayer' with rfl | rfl
    · exact hrows
    · exact absurd ⟨others, hrows.symm⟩ hbase
    · exact absurd ⟨names, hrows⟩ hbase'
    · exact List.append_cancel_left hrows
  rw [hnames, hothers, hsame]

/-- What stands on the shelves of a module is named in the same way as the module: each descriptor declares an
ordinary name to which the shelf belongs, with a slot if and only if the module has one. -/
structure Housed (tree : FileTree) (roots : List String) (module : String) : Prop where
  ordinary : Ordinary module
  declared : ∀ root ∈ roots, ∀ shelf ∈ shelves module, ∀ text, tree.readText? (descriptorAt root shelf) = some text →
    ∃ name, ModuleDescriptor.readName text = .ok name ∧ Ordinary name ∧ shelf ∈ shelves name ∧
      ModuleName.hasSlot name = ModuleName.hasSlot module

theorem Housed.readName_eq {tree : FileTree} {roots : List String} {module : String}
    (h : Housed tree roots module) {root : String} (hroot : root ∈ roots) {shelf : List String}
    (hshelf : shelf ∈ shelves module) {text : String}
    (htext : tree.readText? (descriptorAt root shelf) = some text) :
    ModuleDescriptor.readName text = .ok module := by
  obtain ⟨name, hname, hordinary, hshared, hslot⟩ := h.declared root hroot shelf hshelf text htext
  have hdirectory := directory?_eq_of_mem_shelves hordinary h.ordinary hshared hshelf
  obtain ⟨names, -, -, hnames, -⟩ := mem_shelves.mp hshelf
  rw [hnames] at hdirectory
  rw [hname, ModuleName.eq_of_directory? hdirectory hnames hslot]

/-! ## Writing -/

/-- What `store` gives back is what there was, or what the descriptor has become. -/
theorem store_eq_ok {tree stored : FileTree} {path : String} {edit : Edit} {dryRun : Bool}
    (hfile : tree.isFile path = true) (h : store tree path edit dryRun = .ok stored) :
    stored = tree ∨ edit.isChanged = true ∧ dryRun = false ∧ ∃ place, tree.place? path = some place ∧
      stored = { tree with nodes := tree.nodes.insert place (.file (Utf8.bytesOf edit.text)) } := by
  obtain ⟨place, hplace, -, hwrite⟩ := FileTree.write?_of_isFile hfile (Utf8.bytesOf edit.text)
  rw [store, hwrite] at h
  split at h
  · rename_i hwritten
    rw [Bool.and_eq_true, Bool.not_eq_true'] at hwritten
    exact Or.inr ⟨hwritten.1, hwritten.2, place, hplace, (Except.ok.inj h).symm⟩
  · exact Or.inl (Except.ok.inj h).symm

theorem editAt_eq_ok {tree : FileTree} {path : String} {targets : List String} {edit : Edit} {log : Log}
    (h : editAt tree path targets = .ok (edit, log)) :
    ∃ text notes, tree.readText? path = some text ∧ removeDependencies text targets = .ok (edit, notes) := by
  rw [editAt] at h
  split at h
  · cases h
  · rename_i text htext
    rw [editText] at h
    split at h
    · cases h
    · cases h
    · cases h
    · rename_i found notes hfound
      obtain ⟨rfl, -⟩ := Prod.mk.inj (Except.ok.inj h)
      exact ⟨text, notes, htext, hfound⟩

/-- A fix leaves all files alone, or writes the first descriptor on the shelves of the module, with what the edit of
its text gives, and no other file. The descriptor declares the module if what stands on the shelves is named in the
same way. -/
theorem fixModule_writes_first_shelf (tree : FileTree) (roots : List String) (dryRun : Bool) (module : String)
    (targets : List String) :
    (fixModule tree roots dryRun module targets).tree = tree ∨
    ∃ root ∈ roots, ∃ shelf ∈ shelves module, ∃ base text edit notes,
      (descriptorPaths roots module).find? tree.isFile = some (descriptorAt root shelf) ∧
      tree.place? (descriptorAt root shelf) = some (base ++ shelf ++ [DiskRepository.descriptorFile]) ∧
      tree.readText? (descriptorAt root shelf) = some text ∧
      removeDependencies text targets = .ok (edit, notes) ∧ edit.isChanged = true ∧ dryRun = false ∧
      (fixModule tree roots dryRun module targets).tree =
        { tree with
          nodes := tree.nodes.insert (base ++ shelf ++ [DiskRepository.descriptorFile])
            (.file (Utf8.bytesOf edit.text)) } ∧
      (fixModule tree roots dryRun module targets).result = .ok ⟨module, descriptorAt root shelf, edit⟩ ∧
      (Housed tree roots module → ModuleDescriptor.readName text = .ok module) := by
  rw [fixModule]
  cases hlocate : locate tree roots module with
  | error error => exact Or.inl rfl
  | ok path =>
    have hfind := find?_of_locate hlocate
    have hfile : tree.isFile path = true := List.find?_some hfind
    obtain ⟨root, hroot, hpath⟩ := List.mem_flatMap.mp (List.mem_of_find?_eq_some hfind)
    obtain ⟨shelf, hshelf, rfl⟩ := List.mem_map.mp hpath
    dsimp only
    cases hedit : editAt tree (descriptorAt root shelf) targets with
    | error error => exact Or.inl rfl
    | ok edited =>
      obtain ⟨edit, log⟩ := edited
      obtain ⟨text, notes, htext, hremove⟩ := editAt_eq_ok hedit
      dsimp only
      cases hstore : store tree (descriptorAt root shelf) edit dryRun with
      | error error => exact Or.inl rfl
      | ok stored =>
        rcases store_eq_ok hfile hstore with rfl | ⟨hchanged, hdry, place, hplace, rfl⟩
        · exact Or.inl rfl
        · obtain ⟨base, hbase⟩ := FileTree.exists_place_of_joinAll (isName_of_mem_shelves hshelf) hplace
          rw [← List.append_assoc] at hbase
          subst hbase
          exact Or.inr ⟨root, hroot, shelf, hshelf, base, text, edit, notes, hfind, hplace, htext, hremove,
            hchanged, hdry, rfl, rfl, fun h => h.readName_eq hroot hshelf htext⟩

/-- The descriptor of a module whose last segment is `b`. -/
def segmentTwin : String := "<module name=\"a.b\"><dependencies><module name=\"t\"/></dependencies></module>"

/-- The descriptor of a module whose slot is `b`. -/
def slotTwin : String :=
  "<module name=\"a\" slot=\"b\"><dependencies><module name=\"t\" services=\"import\"/></dependencies></module>"

/-- Two modules with one directory, of which one has its descriptor in the directory of the default slot. -/
def twins : FileTree where
  nodes := .ofList
    [(["r"], .directory), (["r", "a"], .directory), (["r", "a", "b"], .directory),
      (["r", "a", "b", "main"], .directory),
      (["r", "a", "b", "main", "module.xml"], .file (Utf8.bytesOf segmentTwin)),
      (["r", "a", "b", "module.xml"], .file (Utf8.bytesOf slotTwin)), (["r", "t"], .directory),
      (["r", "t", "module.xml"], .file (Utf8.bytesOf "<module name=\"t\"/>"))]

theorem readText?_twins : twins.readText? "r/a/b/module.xml" = some slotTwin := by decide +kernel

theorem readName_slotTwin : ModuleDescriptor.readName slotTwin = .ok "a:b" := by
  have hname : (ModuleDescriptor.readName slotTwin).toOption = some "a:b" := by decide +kernel
  cases hread : ModuleDescriptor.readName slotTwin with
  | error fault =>
    rw [hread] at hname
    cases hname
  | ok name =>
    rw [hread] at hname
    exact congrArg Except.ok (Option.some.inj hname)

theorem housed_twins : Housed twins ["r"] "a:b" where
  ordinary := by decide +kernel
  declared root hroot shelf hshelf text htext := by
    obtain rfl := List.mem_singleton.mp hroot
    have hshelves : shelves "a:b" = [["a", "b"], baseLayerNames ++ ["a", "b"]] := by decide +kernel
    rw [hshelves, List.mem_cons, List.mem_singleton] at hshelf
    rcases hshelf with rfl | rfl
    · have hpath : descriptorAt "r" ["a", "b"] = "r/a/b/module.xml" := by decide +kernel
      rw [hpath, readText?_twins] at htext
      obtain rfl := Option.some.inj htext
      exact ⟨"a:b", readName_slotTwin, by decide +kernel, by decide +kernel, rfl⟩
    · have hnone : twins.readText? (descriptorAt "r" (baseLayerNames ++ ["a", "b"])) = none := by decide +kernel
      rw [hnone] at htext
      cases htext

theorem fixModule_writes_first_shelf_twins : Housed twins ["r"] "a:b" ∧
    (fixModule twins ["r"] false "a:b" ["t"]).tree ≠ twins ∧
    ∃ root ∈ ["r"], ∃ shelf ∈ shelves "a:b", ∃ text,
      (descriptorPaths ["r"] "a:b").find? twins.isFile = some (descriptorAt root shelf) ∧
      twins.readText? (descriptorAt root shelf) = some text ∧ ModuleDescriptor.readName text = .ok "a:b" := by
  have hwrites : (fixModule twins ["r"] false "a:b" ["t"]).tree ≠ twins := by decide +kernel
  obtain ⟨root, hroot, shelf, hshelf, base, text, edit, notes, hfind, -, htext, -, -, -, -, -, hown⟩ :=
    (fixModule_writes_first_shelf twins ["r"] false "a:b" ["t"]).resolve_left hwrites
  exact ⟨housed_twins, hwrites, root, hroot, shelf, hshelf, text, hfind, htext, hown housed_twins⟩

/-- The dependency of one twin is reported and that of the other is not. A fix of the first takes the dependency out
of the descriptor of the other, and leaves the descriptor of the first as it is. -/
theorem slot_hides_segment :
    (DiskRepository.index twins ["r"]).unusedDependencies.findings = [⟨"a.b", "t"⟩] ∧
    twins.readText? "r/a/b/module.xml" = some slotTwin ∧ ModuleDescriptor.readName slotTwin = .ok "a:b" ∧
    (fixModule twins ["r"] false "a.b" ["t"]).result.toOption.map (fun fixed => (fixed.path, fixed.edit.removed)) =
      some ("r/a/b/module.xml", ["t"]) ∧
    (fixModule twins ["r"] false "a.b" ["t"]).tree.readText? "r/a/b/module.xml" =
      some "<module name=\"a\" slot=\"b\"><dependencies></dependencies></module>" ∧
    (fixModule twins ["r"] false "a.b" ["t"]).tree.readText? "r/a/b/main/module.xml" = some segmentTwin := by
  have hfixed : (fun outcome : FixOutcome =>
        (outcome.result.toOption.map (fun fixed => (fixed.path, fixed.edit.removed)),
          outcome.tree.readText? "r/a/b/module.xml", outcome.tree.readText? "r/a/b/main/module.xml"))
      (fixModule twins ["r"] false "a.b" ["t"]) =
      (some ("r/a/b/module.xml", ["t"]),
        some "<module name=\"a\" slot=\"b\"><dependencies></dependencies></module>", some segmentTwin) := by
    decide +kernel
  obtain ⟨hresult, hwritten, hkept⟩ := Prod.mk.inj hfixed |>.imp id Prod.mk.inj
  exact ⟨by decide +kernel, readText?_twins, readName_slotTwin, hresult, hwritten, hkept⟩

end Prune

end ModuleAudit
