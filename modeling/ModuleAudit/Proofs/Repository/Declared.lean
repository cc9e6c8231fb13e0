import ModuleAudit.Proofs.Repository.Scan

/-! Names of a repository and the descriptors they stand for. A walk meets the files below a directory in order, so a
name stands for the first descriptor with it, root by root (`get?_scan`, `firstIn_eq_some_iff`). A scan reads only the
name of a descriptor and loading reads it whole, but what is loaded under a name has that name. -/

namespace ModuleAudit
set_option autoImplicit false

/-! ## Walks in order -/

namespace FileTree

theorem inOrder_refl (names : List String) : inOrder names names = true := by
  induction names with
  | nil => rfl
  | cons name rest ih => simp [inOrder, ih]

theorem inOrder_total (a b : List String) : inOrder a b = true ∨ inOrder b a = true := by
  fun_induction inOrder a b with
  | case1 b => exact .inl rfl
  | case2 a as => exact .inr rfl
  | case3 a as b bs ih =>
    simp only [inOrder, Bool.or_eq_true, Bool.and_eq_true, decide_eq_true_eq, beq_iff_eq]
    rcases Std.lt_trichotomy a b with h | rfl | h
    · exact .inl (.inl h)
    · exact ih.imp (fun h => .inr ⟨rfl, h⟩) fun h => .inr ⟨rfl, h⟩
    · exact .inr (.inl h)

theorem inOrder_cons {a b : String} {as bs : List String} :
    inOrder (a :: as) (b :: bs) = true ↔ a < b ∨ a = b ∧ inOrder as bs = true := by
  rw [inOrder, Bool.or_eq_true, Bool.and_eq_true, decide_eq_true_eq, beq_iff_eq]

theorem inOrder_trans {a b c : List String} (hab : inOrder a b = true) (hbc : inOrder b c = true) :
    inOrder a c = true := by
  induction a generalizing b c with
  | nil => rfl
  | cons first as ih =>
    rcases b with _ | ⟨second, bs⟩
    · cases hab
    rcases c with _ | ⟨third, cs⟩
    · cases hbc
    rw [inOrder_cons] at hab hbc ⊢
    rcases hab with hab | ⟨rfl, hab⟩
    · rcases hbc with hbc | ⟨rfl, -⟩
      · exact .inl (String.lt_trans hab hbc)
      · exact .inl hab
    · exact hbc.imp_right fun h => ⟨h.1, ih hab h.2⟩

theorem inOrder_antisymm {a b : List String} (hab : inOrder a b = true) (hba : inOrder b a = true) : a = b := by
  induction a generalizing b with
  | nil =>
    cases b with
    | nil => rfl
    | cons => cases hba
  | cons first as ih =>
    rcases b with _ | ⟨second, bs⟩
    · cases hab
    rw [inOrder_cons] at hab hba
    rcases hab with hab | ⟨rfl, hab⟩
    · rcases hba with hba | ⟨rfl, -⟩
      · exact absurd hba (String.lt_asymm hab)
      · exact absurd hab (String.lt_irrefl _)
    · rcases hba with hba | ⟨-, hba⟩
      · exact absurd hba (String.lt_irrefl _)
      · rw [ih hab hba]

/-- Files in order of their names. -/
def Sorted (files : List (List String × Bytes)) : Prop := files.Pairwise fun a b => inOrder a.1 b.1 = true

theorem Sorted.insertFile {files : List (List String × Bytes)} (h : Sorted files) (file : List String × Bytes) :
    Sorted (insertFile file files) := by
  induction files with
  | nil => exact List.pairwise_singleton _ _
  | cons next rest ih =>
    obtain ⟨hnext, hrest⟩ := List.pairwise_cons.mp h
    rw [FileTree.insertFile]
    split
    · rename_i hfile
      refine List.pairwise_cons.mpr ⟨fun other hother => ?_, h⟩
      rcases List.mem_cons.mp hother with rfl | hother
      · exact hfile
      · exact inOrder_trans hfile (hnext other hother)
    · rename_i hfile
      refine List.pairwise_cons.mpr ⟨fun other hother => ?_, ih hrest⟩
      rcases List.mem_cons.mp ((insertFile_perm file rest).mem_iff.mp hother) with rfl | hother
      · exact (inOrder_total other.1 next.1).resolve_left hfile
      · exact hnext other hother

theorem sorted_foldr_insertFile (files : List (List String × Bytes)) : Sorted (files.foldr insertFile []) := by
  induction files with
  | nil => exact .nil
  | cons file rest ih => exact ih.insertFile file

variable {tree : FileTree}

theorem sorted_walk (path : String) : Sorted (tree.walk path) := by
  rw [walk]
  split
  · exact sorted_foldr_insertFile _
  · exact .nil

end FileTree

/-! ## What a scan files -/

namespace DiskRepository

open FileTree

/-- A descriptor in a directory or further below declares a name: there is text, and it defines the name. -/
structure Declares (tree : FileTree) (root : String) (names : List String) (name : String) : Prop where
  directory : tree.isDirectory root = true
  file : names.getLast? = some descriptorFile
  text : ∃ place contents text, tree.place? root = some place ∧
    tree.node? (place ++ names) = some (.file contents) ∧ Utf8.decode? contents = some text ∧
    ModuleDescriptor.readName text = .ok name

/-- The first descriptor that declares a name is at a path: no root before declares the name, and below its own root
the descriptor comes before all others that do. -/
def DeclaredFirst (tree : FileTree) (roots : List String) (name path : String) : Prop :=
  ∃ before root after names, roots = before ++ root :: after ∧
    (∀ earlier ∈ before, ∀ others, ¬ Declares tree earlier others name) ∧
    Declares tree root names name ∧ (∀ others, Declares tree root others name → inOrder names others = true) ∧
    path = Path.joinAll root names

/-- The name that a descriptor with these contents defines, if it defines one. -/
def definedIn? (contents : Bytes) : Option String :=
  (Utf8.decode? contents).bind fun text => (ModuleDescriptor.readName text).toOption

/-- The path of a file, if the file is a descriptor that defines a name. -/
def pathFor? (root name : String) (file : List String × Bytes) : Option String :=
  if file.1.getLast? = some descriptorFile ∧ definedIn? file.2 = some name then some (Path.joinAll root file.1)
  else none

/-- The path of the first descriptor below a root that defines a name. -/
def firstIn (tree : FileTree) (name root : String) : Option String :=
  if tree.isDirectory root then (tree.walk root).findSome? (pathFor? root name) else none

theorem definedIn?_eq_some_iff {contents : Bytes} {name : String} : definedIn? contents = some name ↔
    ∃ text, Utf8.decode? contents = some text ∧ ModuleDescriptor.readName text = .ok name := by
  rw [definedIn?, Option.bind_eq_some_iff]
  refine exists_congr fun text => and_congr_right fun _ => ?_
  cases ModuleDescriptor.readName text <;> simp [Except.toOption]

theorem toOption_nameIn (path : String) (contents : Bytes) :
    (nameIn path contents).toOption = definedIn? contents := by
  rw [nameIn, definedIn?]
  split
  · rename_i hnone
    rw [hnone]
    rfl
  · rename_i text htext
    rw [htext, Option.bind_some]
    cases ModuleDescriptor.readName text <;> rfl

theorem get?_addDescriptor (state : Log × OrderedMap String String) (path : String) (contents : Bytes)
    (name : String) : (addDescriptor state path contents).2.get? name =
      (state.2.get? name).or (if definedIn? contents = some name then some path else none) := by
  rw [← toOption_nameIn path]
  unfold addDescriptor
  dsimp only
  cases nameIn path contents with
  | error error => exact Option.or_none.symm
  | ok defined =>
    have hdefined : (Except.ok defined : Except LoadError String).toOption = some name ↔ name = defined := by
      simp [Except.toOption, eq_comm]
    simp only [hdefined]
    split
    · rename_i existing hexisting
      by_cases hsame : name = defined
      · rw [hsame, hexisting]
        rfl
      · rw [if_neg hsame, Option.or_none]
    · rename_i hnone
      rw [OrderedMap.insert, OrderedMap.get?_alter]
      by_cases hsame : name = defined
      · rw [if_pos hsame, if_pos hsame, hsame, hnone]
        rfl
      · rw [if_neg hsame, if_neg hsame, Option.or_none]

variable {tree : FileTree}

theorem get?_addRoot (name : String) (state : Log × OrderedMap String String) (root : String) :
    (addRoot tree state root).2.get? name = (state.2.get? name).or (firstIn tree name root) := by
  rw [addRoot, firstIn]
  split
  · refine foldl_or (fun state : Log × OrderedMap String String => state.2.get? name) ?_ _ state
    rintro state ⟨names, contents⟩
    dsimp only [pathFor?]
    by_cases hlast : names.getLast? = some descriptorFile
    · rw [if_pos hlast, get?_addDescriptor]
      simp only [hlast, true_and]
    · rw [if_neg hlast, if_neg fun h => hlast h.1, Option.or_none]
  · exact Option.or_none.symm

theorem get?_scan (roots : List String) (name : String) :
    (scan tree roots).2.descriptors.get? name = roots.findSome? (firstIn tree name) :=
  foldl_or (fun state : Log × OrderedMap String String => state.2.get? name) (get?_addRoot name) roots ([], {})

/-! ## First descriptors -/

theorem pathFor?_eq_some_iff {root name path : String} {file : List String × Bytes} :
    pathFor? root name file = some path ↔
      file.1.getLast? = some descriptorFile ∧ definedIn? file.2 = some name ∧ path = Path.joinAll root file.1 := by
  rw [pathFor?, Option.ite_none_right_eq_some, Option.some.injEq, and_assoc, eq_comm (a := path)]

theorem declares_iff {root name : String} {names : List String} : Declares tree root names name ↔
    tree.isDirectory root = true ∧ ∃ contents, (names, contents) ∈ tree.walk root ∧
      pathFor? root name (names, contents) = some (Path.joinAll root names) := by
  constructor
  · rintro ⟨hdirectory, hfile, place, contents, text, hplace, hnode, htext, hname⟩
    have hne : names ≠ [] := by
      rintro rfl
      cases hfile
    exact ⟨hdirectory, contents, (mem_walk_iff hne).mpr ⟨place, hplace, hnode⟩,
      pathFor?_eq_some_iff.mpr ⟨hfile, definedIn?_eq_some_iff.mpr ⟨text, htext, hname⟩, rfl⟩⟩
  · rintro ⟨hdirectory, contents, hmem, hpath⟩
    obtain ⟨hfile, hdefined, -⟩ := pathFor?_eq_some_iff.mp hpath
    have hne : names ≠ [] := by
      rintro rfl
      cases hfile
    obtain ⟨place, hplace, hnode⟩ := (mem_walk_iff hne).mp hmem
    obtain ⟨text, htext, hname⟩ := definedIn?_eq_some_iff.mp hdefined
    exact ⟨hdirectory, hfile, place, contents, text, hplace, hnode, htext, hname⟩

theorem firstIn_eq_none_iff {name root : String} :
    firstIn tree name root = none ↔ ∀ names, ¬ Declares tree root names name := by
  rw [firstIn]
  split
  · rename_i hdirectory
    rw [List.findSome?_eq_none_iff]
    constructor
    · intro h names hdeclares
      obtain ⟨-, contents, hmem, hpath⟩ := declares_iff.mp hdeclares
      rw [h _ hmem] at hpath
      cases hpath
    · rintro h ⟨names, contents⟩ hmem
      refine Option.eq_none_iff_forall_ne_some.mpr fun path hpath => ?_
      have hsame := (pathFor?_eq_some_iff.mp hpath).2.2
      exact h names (declares_iff.mpr ⟨hdirectory, contents, hmem, hsame ▸ hpath⟩)
  · rename_i hdirectory
    exact iff_of_true rfl fun names h => hdirectory h.directory

/-- A walk is in order, so what it meets first comes before all that it meets later. -/
theorem exists_first_of_firstIn {name root path : String} (h : firstIn tree name root = some path) :
    ∃ names, Declares tree root names name ∧
      (∀ others, Declares tree root others name → inOrder names others = true) ∧ path = Path.joinAll root names := by
  rw [firstIn] at h
  split at h
  · rename_i hdirectory
    obtain ⟨before, ⟨names, contents⟩, after, hwalk, hpath, hbefore⟩ := List.findSome?_eq_some_iff.mp h
    obtain rfl : path = Path.joinAll root names := (pathFor?_eq_some_iff.mp hpath).2.2
    have hmem : (names, contents) ∈ tree.walk root := by
      rw [hwalk]
      exact List.mem_append_right _ List.mem_cons_self
    refine ⟨names, declares_iff.mpr ⟨hdirectory, contents, hmem, hpath⟩, fun others hothers => ?_, rfl⟩
    obtain ⟨-, content, hother, hdefines⟩ := declares_iff.mp hothers
    have hsorted : Sorted (tree.walk root) := sorted_walk root
    rw [hwalk] at hsorted hother
    rcases List.mem_append.mp hother with hearlier | hlater
    · rw [hbefore _ hearlier] at hdefines
      cases hdefines
    · rcases List.mem_cons.mp hlater with hself | hlater
      · rw [(Prod.mk.inj hself).1]
        exact inOrder_refl names
      · exact (List.pairwise_cons.mp (List.pairwise_append.mp hsorted).2.1).1 _ hlater
  · cases h

theorem firstIn_eq_some_iff {name root path : String} : firstIn tree name root = some path ↔
    ∃ names, Declares tree root names name ∧
      (∀ others, Declares tree root others name → inOrder names others = true) ∧ path = Path.joinAll root names := by
  refine ⟨exists_first_of_firstIn, ?_⟩
  rintro ⟨names, hnames, hleast, rfl⟩
  cases hfirst : firstIn tree name root with
  | none => exact absurd hnames (firstIn_eq_none_iff.mp hfirst names)
  | some found =>
    obtain ⟨others, hothers, hfound, rfl⟩ := exists_first_of_firstIn hfirst
    rw [inOrder_antisymm (hleast others hothers) (hfound names hnames)]

theorem get?_scan_eq_some_iff {roots : List String} {name path : String} :
    (scan tree roots).2.descriptors.get? name = some path ↔ DeclaredFirst tree roots name path := by
  rw [get?_scan, List.findSome?_eq_some_iff]
  simp only [firstIn_eq_none_iff, firstIn_eq_some_iff]
  constructor
  · rintro ⟨before, root, after, hroots, ⟨names, hnames, hleast, hpath⟩, hbefore⟩
    exact ⟨before, root, after, names, hroots, hbefore, hnames, hleast, hpath⟩
  · rintro ⟨before, root, after, names, hroots, hbefore, hnames, hleast, hpath⟩
    exact ⟨before, root, after, hroots, ⟨names, hnames, hleast, hpath⟩, hbefore⟩

theorem mem_keys_scan_iff {roots : List String} {name : String} :
    name ∈ (scan tree roots).2.descriptors.keys ↔ ∃ root ∈ roots, ∃ names, Declares tree root names name := by
  rw [OrderedMap.mem_keys_iff, get?_scan, List.findSome?_isSome_iff]
  refine exists_congr fun root => and_congr_right fun _ => ?_
  rw [← Option.ne_none_iff_isSome, ne_eq, firstIn_eq_none_iff]
  exact not_forall_not

end DiskRepository

/-! ## What is found under a name -/

/-- The name that a specification is for. -/
def ModuleSpec.name : ModuleSpec → String
  | .module name _ _ _ => name
  | .link name _ => name

namespace DiskRepository

open FileTree

variable {tree : FileTree}

theorem name_specOf (path : String) (descriptor : ModuleDescriptor.Descriptor) :
    (specOf tree path descriptor).2.name = descriptor.name := by
  cases descriptor <;> rfl

theorem outcome_find_eq_none_iff {repository : DiskRepository} {name : String} :
    (find tree repository name).outcome = .ok none ↔ name ∉ repository.descriptors.keys := by
  rw [OrderedMap.mem_keys_iff, find]
  split
  · rename_i hnone
    simp [hnone]
  · rename_i path hpath
    refine iff_of_false ?_ (by simp [hpath])
    split
    · intro h
      cases h
    · split <;>
      · intro h
        cases h

theorem outcome_find {repository : DiskRepository} {name path text : String}
    (hpath : repository.descriptors.get? name = some path) (htext : tree.readText? path = some text) :
    (find tree repository name).outcome =
      ((ModuleDescriptor.parse text).mapError (.ofFault path)).map fun descriptor =>
        some (specOf tree path descriptor).2 := by
  rw [find, hpath]
  dsimp only
  rw [htext]
  dsimp only
  cases ModuleDescriptor.parse text <;> rfl

/-- The name that a descriptor stands under is the name that it is loaded with. Reading the name alone agrees with
reading all of a text. A scan lists each name once, lists exactly the names that descriptors declare, and keeps the
path of the first descriptor for each. What is found under a name that is listed has this name, or is an error of the
descriptor there. -/
theorem filed_name_is_loaded_name (tree : FileTree) (roots : List String) :
    (∀ text,
      (∀ descriptor, ModuleDescriptor.parse text = .ok descriptor →
        ModuleDescriptor.readName text = .ok descriptor.name) ∧
      ∀ fault, ModuleDescriptor.readName text = .error fault → ModuleDescriptor.parse text = .error fault) ∧
    (scan tree roots).2.descriptors.keys.Nodup ∧
    (∀ name, name ∈ (scan tree roots).2.descriptors.keys ↔ ∃ root ∈ roots, ∃ names, Declares tree root names name) ∧
    (∀ name path, (scan tree roots).2.descriptors.get? name = some path ↔ DeclaredFirst tree roots name path) ∧
    (∀ name, (find tree (scan tree roots).2 name).outcome = .ok none ↔
      name ∉ (scan tree roots).2.descriptors.keys) ∧
    (tree.Proper → ∀ name ∈ (scan tree roots).2.descriptors.keys, ∃ path text,
      (scan tree roots).2.descriptors.get? name = some path ∧ tree.readText? path = some text ∧
      ModuleDescriptor.readName text = .ok name ∧
      ((∃ spec, (find tree (scan tree roots).2 name).outcome = .ok (some spec) ∧ spec.name = name) ∨
        ∃ fault, ModuleDescriptor.parse text = .error fault ∧
          (find tree (scan tree roots).2 name).outcome = .error (.ofFault path fault))) := by
  refine ⟨fun text => ⟨fun _ => ModuleDescriptor.readName_of_parse, fun _ => ModuleDescriptor.parse_of_readName⟩,
    (scan tree roots).2.descriptors.distinct, fun _ => mem_keys_scan_iff, fun _ _ => get?_scan_eq_some_iff,
    fun _ => outcome_find_eq_none_iff, fun hproper name hname => ?_⟩
  obtain ⟨path, hpath⟩ := Option.isSome_iff_exists.mp ((OrderedMap.mem_keys_iff _ _).mp hname)
  obtain ⟨text, htext, hdefined⟩ := keyed_scan hproper roots name path hpath
  refine ⟨path, text, hpath, htext, hdefined, ?_⟩
  rw [outcome_find hpath htext]
  cases hparse : ModuleDescriptor.parse text with
  | error fault => exact .inr ⟨fault, rfl, rfl⟩
  | ok descriptor =>
    refine .inl ⟨_, rfl, ?_⟩
    rw [ModuleDescriptor.readName_of_parse hparse] at hdefined
    rw [name_specOf]
    exact Except.ok.inj hdefined

/-- Two roots with a name that is declared twice in the first, and a descriptor with no more than a name in the
second. -/
def overlay : FileTree where
  nodes := .ofList
    [(["r"], .directory), (["r", "y"], .directory),
      (["r", "y", "module.xml"], .file (Utf8.bytesOf "<module-alias name=\"lib\" target-name=\"app\"/>")),
      (["r", "x"], .directory), (["r", "x", "module.xml"], .file (Utf8.bytesOf "<module name=\"lib\"/>")),
      (["s"], .directory),
      (["s", "module.xml"], .file (Utf8.bytesOf "<module name=\"app\"><dependencies><odd/></dependencies></module>"))]

theorem filed_name_is_loaded_name_overlay : overlay.Proper ∧
    (scan overlay ["r", "s"]).2.descriptors.keys = ["lib", "app"] ∧
    DeclaredFirst overlay ["r", "s"] "lib" "r/x/module.xml" ∧
    (∃ spec, (find overlay (scan overlay ["r", "s"]).2 "lib").outcome = .ok (some spec) ∧ spec.name = "lib") ∧
    ∃ text fault, ModuleDescriptor.readName text = .ok "app" ∧ ModuleDescriptor.parse text = .error fault ∧
      (find overlay (scan overlay ["r", "s"]).2 "app").outcome = .error (.ofFault "s/module.xml" fault) := by
  have hproper : overlay.Proper := by decide +kernel
  have hentries : (scan overlay ["r", "s"]).2.descriptors.entries =
      [("lib", "r/x/module.xml"), ("app", "s/module.xml")] := by decide +kernel
  have hkeys : (scan overlay ["r", "s"]).2.descriptors.keys = ["lib", "app"] := congrArg (List.map Prod.fst) hentries
  have hlib : (scan overlay ["r", "s"]).2.descriptors.get? "lib" = some "r/x/module.xml" :=
    OrderedMap.get?_of_mem_entries (by rw [hentries]; decide)
  have happ : (scan overlay ["r", "s"]).2.descriptors.get? "app" = some "s/module.xml" :=
    OrderedMap.get?_of_mem_entries (by rw [hentries]; decide)
  have hloads : ["lib", "app"].map (fun name =>
      (find overlay (scan overlay ["r", "s"]).2 name).outcome.toOption.isSome) = [true, false] := by decide +kernel
  obtain ⟨-, -, -, hfirst, -, hfinds⟩ := filed_name_is_loaded_name overlay ["r", "s"]
  refine ⟨hproper, hkeys, (hfirst _ _).mp hlib, ?_, ?_⟩
  · obtain ⟨_, _, -, -, -, hspec | ⟨_, -, herror⟩⟩ := hfinds hproper "lib" (by rw [hkeys]; decide)
    · exact hspec
    · rw [List.map_cons, herror] at hloads
      cases hloads
  · obtain ⟨path, text, hpath, -, hname, ⟨_, hspec, -⟩ | ⟨fault, hparse, herror⟩⟩ :=
      hfinds hproper "app" (by rw [hkeys]; decide)
    · rw [List.map_cons, List.map_cons, hspec] at hloads
      cases (List.cons.inj hloads).2
    · obtain rfl : "s/module.xml" = path := Option.some.inj (happ.symm.trans hpath)
      exact ⟨text, fault, hname, hparse, herror⟩

end DiskRepository

end ModuleAudit
