import ModuleAudit.Proofs.ModuleName
import ModuleAudit.Proofs.Prune.Shelves

/-! Where module names can lead. A module name has a directory unless it has a slash or a backslash, an empty segment or
a slot that is no name (`directory?_eq_none_iff`). The directory is a row of names, none of which leads up or stays, so
a descriptor that is located is below the root it was looked for in. -/

namespace ModuleAudit
set_option autoImplicit false

/-! ## Directories of module names -/

namespace ModuleName

variable {name : String}

theorem segments?_eq_none_iff {dotted : List Char} : segments? dotted = none ↔ Text.HasEmptyPart '.' dotted := by
  rw [← Text.nil_mem_splitOn_iff, segments?]
  split
  · rename_i hany
    obtain ⟨part, hpart, hempty⟩ := List.any_eq_true.mp hany
    rw [List.isEmpty_iff.mp hempty] at hpart
    exact iff_of_true rfl hpart
  · rename_i hany
    refine iff_of_false (Option.some_ne_none _) fun hpart => hany ?_
    exact List.any_eq_true.mpr ⟨[], hpart, rfl⟩

theorem slotSegment?_eq_none_iff {slot : String} : slotSegment? slot.toList = none ↔ slot ∈ ["", ".", ".."] := by
  have hlist : ∀ other : String, slot.toList = other.toList ↔ slot = other := fun other => String.toList_inj
  have hnone : slotSegment? slot.toList = none ↔ slot.toList = "".toList ∨ slot.toList = ".".toList ∨
      slot.toList = "..".toList := by
    rw [slotSegment?]
    split
    · rename_i hbad
      exact iff_of_true rfl hbad
    · rename_i hgood
      exact iff_of_false (Option.some_ne_none _) hgood
  rw [hnone, hlist, hlist, hlist]
  simp

/-- A name is its dotted part, or its dotted part and a slot after the first colon. -/
theorem cutFirst_cases (name : String) :
    (Text.cutFirst ':' name.toList = none ∧ dottedPart name = name ∧ ':' ∉ name.toList) ∨
      ∃ slot : String, Text.cutFirst ':' name.toList = some ((dottedPart name).toList, slot.toList) ∧
        name = dottedPart name ++ ":" ++ slot := by
  have hdotted := Text.getD_cutFirst ':' name.toList
  cases hcut : Text.cutFirst ':' name.toList with
  | none =>
    rw [hcut] at hdotted
    refine Or.inl ⟨rfl, ?_, Text.cutFirst_eq_none hcut⟩
    rw [dottedPart, ← hdotted]
    exact String.ofList_toList
  | some parts =>
    obtain ⟨before, after⟩ := parts
    rw [hcut] at hdotted
    have hbefore : (dottedPart name).toList = before := by
      rw [dottedPart, ← hdotted, String.toList_ofList]
      rfl
    refine Or.inr ⟨String.ofList after, ?_, ?_⟩
    · rw [hbefore, String.toList_ofList]
    · apply String.toList_injective
      rw [String.toList_append, String.toList_append, hbefore, (Text.cutFirst_eq_some_iff.mp hcut).2]
      simp

/-- Which names have no directory. -/
theorem directory?_eq_none_iff (name : String) : directory? name = none ↔
    '/' ∈ name.toList ∨ '\\' ∈ name.toList ∨ Text.HasEmptyPart '.' (dottedPart name).toList ∨
      ∃ slot ∈ ["", ".", ".."], name = dottedPart name ++ ":" ++ slot := by
  rw [directory?]
  split
  · rename_i hany
    obtain ⟨c, hc, hbad⟩ := List.any_eq_true.mp hany
    refine iff_of_true rfl ?_
    rcases (by simpa using hbad : c = '/' ∨ c = '\\') with rfl | rfl
    · exact Or.inl hc
    · exact Or.inr (Or.inl hc)
  · rename_i hany
    have hplain : ∀ c ∈ name.toList, c ≠ '/' ∧ c ≠ '\\' := by simpa using hany
    rw [or_iff_right fun hc => (hplain _ hc).1 rfl, or_iff_right fun hc => (hplain _ hc).2 rfl]
    rcases cutFirst_cases name with ⟨hcut, hdotted, hcolon⟩ | ⟨slot, hcut, hname⟩
    · rw [hcut, hdotted]
      dsimp only
      rw [segments?_eq_none_iff, or_iff_left]
      rintro ⟨slot, -, hname⟩
      exact hcolon (hname ▸ by simp)
    · rw [hcut]
      dsimp only
      have hslot : (∃ other ∈ ["", ".", ".."], name = dottedPart name ++ ":" ++ other) ↔
          slotSegment? slot.toList = none := by
        rw [slotSegment?_eq_none_iff]
        constructor
        · rintro ⟨other, hother, hsame⟩
          have hlists : (dottedPart name ++ ":").toList ++ slot.toList =
              (dottedPart name ++ ":").toList ++ other.toList := by
            rw [← String.toList_append, ← String.toList_append, ← hname, ← hsame]
          rwa [String.toList_injective (List.append_cancel_left hlists)]
        · exact fun hbad => ⟨slot, hbad, hname⟩
      rw [← segments?_eq_none_iff, hslot]
      cases segments? (dottedPart name).toList with
      | none => exact iff_of_true rfl (Or.inl rfl)
      | some segments =>
        cases slotSegment? slot.toList with
        | none => exact iff_of_true rfl (Or.inr rfl)
        | some segment => simp

/-- Which directory a name has: its segments, and its slot below them. -/
theorem directory?_eq_some {names : List String} (h : directory? name = some names) :
    (∀ c ∈ name.toList, c ≠ '\\') ∧
      ((dottedPart name = name ∧ segments? (dottedPart name).toList = some names) ∨
        ∃ slot segments, name = dottedPart name ++ ":" ++ slot ∧
          segments? (dottedPart name).toList = some segments ∧ names = segments ++ [slot]) := by
  rw [directory?] at h
  split at h
  · cases h
  · rename_i hany
    have hplain : ∀ c ∈ name.toList, c ≠ '/' ∧ c ≠ '\\' := by simpa using hany
    refine ⟨fun c hc => (hplain c hc).2, ?_⟩
    rcases cutFirst_cases name with ⟨hcut, hdotted, -⟩ | ⟨slot, hcut, hname⟩
    · rw [hcut] at h
      exact Or.inl ⟨hdotted, by rw [hdotted]; exact h⟩
    · rw [hcut] at h
      obtain ⟨segments, hsegments, hrest⟩ := Option.bind_eq_some_iff.mp h
      obtain ⟨segment, hslot, hnames⟩ := Option.bind_eq_some_iff.mp hrest
      have hsegment : segment = slot := by
        rw [slotSegment?] at hslot
        split at hslot
        · cases hslot
        · rw [← Option.some.inj hslot, String.ofList_toList]
      exact Or.inr ⟨slot, segments, hname, hsegments, hsegment ▸ (Option.some.inj hnames).symm⟩

theorem no_backslash_of_directory? {names : List String} (h : directory? name = some names) :
    ∀ segment ∈ names, '\\' ∉ segment.toList := by
  have hdotted : ∀ segments, segments? (dottedPart name).toList = some segments → ∀ segment ∈ segments,
      ∀ c ∈ segment.toList, c ∈ (dottedPart name).toList := by
    intro segments hsegments segment hmem c hc
    rw [(segments?_eq_some hsegments).1] at hmem
    obtain ⟨part, hpart, rfl⟩ := List.mem_map.mp hmem
    rw [String.toList_ofList] at hc
    exact (Text.of_mem_splitOn hpart).2 c hc
  obtain ⟨hplain, ⟨hname, hsegments⟩ | ⟨slot, segments, hname, hsegments, rfl⟩⟩ := directory?_eq_some h
  · intro segment hmem hc
    refine hplain _ ?_ rfl
    rw [← hname]
    exact hdotted names hsegments segment hmem _ hc
  · intro segment hmem hc
    refine hplain _ ?_ rfl
    rw [hname, String.toList_append, String.toList_append]
    rcases List.mem_append.mp hmem with hmem | hmem
    · exact List.mem_append_left _ (List.mem_append_left _ (hdotted segments hsegments segment hmem _ hc))
    · rw [List.mem_singleton.mp hmem] at hc
      exact List.mem_append_right _ hc

/-- How a directory is written: with slashes for the dots of the dotted part, and one before the slot. -/
theorem join_directory? {names : List String} (h : directory? name = some names) :
    (dottedPart name = name ∧
        Text.join "/" names = String.ofList (Text.replaceChar '.' '/' (dottedPart name).toList)) ∨
      ∃ slot, name = dottedPart name ++ ":" ++ slot ∧
        Text.join "/" names = String.ofList (Text.replaceChar '.' '/' (dottedPart name).toList) ++ "/" ++ slot := by
  have hdotted : ∀ segments, segments? (dottedPart name).toList = some segments →
      segments ≠ [] ∧ Text.join "/" segments = String.ofList (Text.replaceChar '.' '/' (dottedPart name).toList) := by
    intro segments hsegments
    rw [(segments?_eq_some hsegments).1]
    refine ⟨by simpa using Text.splitOn_ne_nil '.' _, ?_⟩
    apply String.toList_injective
    have hback : String.toList ∘ String.ofList = id := funext fun _ => String.toList_ofList
    rw [Text.toList_join, List.map_map, hback, List.map_id, Text.intercalate_splitOn_eq_replaceChar,
      String.toList_ofList]
  obtain ⟨-, ⟨hname, hsegments⟩ | ⟨slot, segments, hname, hsegments, rfl⟩⟩ := directory?_eq_some h
  · exact Or.inl ⟨hname, (hdotted names hsegments).2⟩
  · obtain ⟨hne, hjoin⟩ := hdotted segments hsegments
    refine Or.inr ⟨slot, hname, ?_⟩
    rw [← hjoin, Text.join, String.intercalate_append_of_ne_nil hne (List.cons_ne_nil slot []),
      String.intercalate_singleton]
    rfl

end ModuleName

/-! ## Located descriptors -/

namespace FileTree

variable {tree : FileTree}

/-- A file below a path is below the place of that path; the empty path stands for the working directory. -/
theorem exists_place_of_below {root : String} {names : List String} (hne : names ≠ [])
    (hnames : ∀ name ∈ names, Path.IsName name) {place : List String}
    (h : tree.place? (Path.joinAll root names) = some place) :
    ∃ base, tree.place? (if root = "" then "." else root) = some base ∧ place = base ++ names := by
  obtain ⟨-, hsteps⟩ := foldlM_of_place? h
  rw [Path.components_joinAll hnames, List.foldlM_append] at hsteps
  obtain ⟨base, hbase, hrest⟩ := Option.bind_eq_some_iff.mp hsteps
  refine ⟨base, ?_, eq_append_of_foldlM_step hnames hrest⟩
  obtain ⟨first, others, rfl⟩ := List.exists_cons_of_ne_nil hne
  have hdirectory : tree.node? base = some .directory := by
    rw [List.foldlM_cons] at hrest
    obtain ⟨next, hstep, -⟩ := Option.bind_eq_some_iff.mp hrest
    rw [step] at hstep
    split at hstep
    · rename_i hnode
      exact hnode
    · cases hstep
  have hplace : ∀ path, path ≠ "" → (Path.components path).foldlM tree.step (tree.startOf path) = some base →
      tree.place? path = some base := by
    intro path hpath hfold
    rw [place?, if_neg hpath, hfold, Option.bind_eq_bind, Option.bind_some, hdirectory]
  by_cases hroot : root = ""
  · subst hroot
    have hstart : tree.startOf (Path.joinAll "" (first :: others)) = tree.home := by
      have hfirst := hnames first List.mem_cons_self
      have hrelative := Path.joinAll_eq hfirst.not_empty fun name hmem => hnames name (List.mem_cons_of_mem first hmem)
      rw [startOf, Path.joinAll, List.foldl_cons, Path.join_empty]
      change (if Path.isAbsolute (Path.joinAll first others) then _ else _) = _
      rw [hrelative.2.2, Path.isAbsolute_of_isName hfirst]
      rfl
    have hhome : tree.home = base := by
      rw [hstart] at hbase
      exact Option.some.inj hbase
    refine hplace "." (by decide) ?_
    have hcomponents : Path.components "." = ["."] := by decide
    have hstep : tree.step tree.home "." = some base := by
      rw [step, hhome, hdirectory]
      rfl
    rw [hcomponents, List.foldlM_cons]
    exact Option.bind_eq_some_iff.mpr ⟨base, hstep, rfl⟩
  · rw [if_neg hroot]
    refine hplace root hroot ?_
    rw [startOf, ← (Path.joinAll_eq hroot hnames).2.2]
    exact hbase

end FileTree

namespace Prune

/-- A path that leads below whatever it is joined to. -/
structure LeadsBelow (path : String) : Prop where
  not_empty : path ≠ ""
  relative : Path.isAbsolute path = false
  segments : ∀ segment ∈ Text.splitOn '/' path.toList,
    segment ≠ [] ∧ segment ≠ ['.'] ∧ segment ≠ ['.', '.'] ∧ '\\' ∉ segment

theorem leadsBelow_of_directory? {name : String} {names : List String} (h : ModuleName.directory? name = some names) :
    LeadsBelow (Text.join "/" names) := by
  obtain ⟨hne, hnames⟩ := ModuleName.isName_of_directory? h
  obtain ⟨hrelative, -⟩ : _ ∧ Path.join "" _ = Path.joinAll "" names := Path.join_names hne hnames
  have hsplit : Text.splitOn '/' (Text.join "/" names).toList = names.map String.toList := by
    rw [Text.toList_join, Text.splitOn_intercalate (by simpa using hne)]
    rintro part hpart
    obtain ⟨segment, hsegment, rfl⟩ := List.mem_map.mp hpart
    exact (hnames segment hsegment).no_slash
  refine ⟨?_, hrelative.isAbsolute_eq, ?_⟩
  · intro hempty
    obtain ⟨c, rest, hhead, -⟩ := hrelative.head
    rw [hempty] at hhead
    cases hhead
  · rw [hsplit]
    rintro part hpart
    obtain ⟨segment, hsegment, rfl⟩ := List.mem_map.mp hpart
    have hname := hnames segment hsegment
    have hlist : ∀ other : String, segment ≠ other → segment.toList ≠ other.toList :=
      fun other hother hsame => hother (String.toList_injective hsame)
    exact ⟨hlist "" hname.not_empty, hlist "." hname.not_self, hlist ".." hname.not_parent,
      ModuleName.no_backslash_of_directory? h segment hsegment⟩

/-- The descriptor that is located for a module is a file below a root. -/
theorem exists_root_of_locate {tree : FileTree} {roots : List String} {module path : String}
    (h : locate tree roots module = .ok path) :
    ∃ root ∈ roots, ∃ names base, names ≠ [] ∧ (∀ name ∈ names, Path.IsName name) ∧
      path = Path.joinAll root (names ++ ["module.xml"]) ∧
      tree.place? (if root = "" then "." else root) = some base ∧
      tree.place? path = some (base ++ names ++ ["module.xml"]) ∧ tree.isFile path = true := by
  have hfind := find?_of_locate h
  have hfile : tree.isFile path = true := List.find?_some hfind
  obtain ⟨root, hroot, hpath⟩ := List.mem_flatMap.mp (List.mem_of_find?_eq_some hfind)
  obtain ⟨shelf, hshelf, rfl⟩ := List.mem_map.mp hpath
  have hnames := isName_of_mem_shelves hshelf
  obtain ⟨names, layer, slot, hdirectory, -, -, hrow⟩ := mem_shelves.mp hshelf
  have hne : shelf ≠ [] := by
    have hfull := (ModuleName.isName_of_directory? hdirectory).1
    simp [hrow, hfull]
  obtain ⟨place, hplace, -⟩ := FileTree.isFile_iff.mp hfile
  obtain ⟨base, hbase, hbelow⟩ := FileTree.exists_place_of_below (by simp) hnames hplace
  rw [← List.append_assoc] at hbelow
  exact ⟨root, hroot, shelf, base, hne, fun name hmem => hnames name (List.mem_append_left _ hmem), rfl, hbase,
    hbelow ▸ hplace, hfile⟩

/-- No module name leads out of the roots. A name has no directory exactly if it has a slash or a backslash, an empty
segment before its first colon, or a slot that is empty or stands for a directory above; the directory of any other name
is a relative path of proper segments; and the descriptor that is located for a name is in a file `module.xml` strictly
below a root. -/
theorem module_names_stay_below (name : String) :
    (ModuleName.directory? name = none ↔
      '/' ∈ name.toList ∨ '\\' ∈ name.toList ∨ Text.HasEmptyPart '.' (dottedPart name).toList ∨
        ∃ slot ∈ ["", ".", ".."], name = dottedPart name ++ ":" ++ slot) ∧
    (∀ names, ModuleName.directory? name = some names → LeadsBelow (Text.join "/" names) ∧
      ((dottedPart name = name ∧
          Text.join "/" names = String.ofList (Text.replaceChar '.' '/' (dottedPart name).toList)) ∨
        ∃ slot, name = dottedPart name ++ ":" ++ slot ∧
          Text.join "/" names = String.ofList (Text.replaceChar '.' '/' (dottedPart name).toList) ++ "/" ++ slot)) ∧
    ∀ tree roots path, locate tree roots name = .ok path →
      ∃ root ∈ roots, ∃ names base, names ≠ [] ∧ (∀ segment ∈ names, Path.IsName segment) ∧
        path = Path.joinAll root (names ++ ["module.xml"]) ∧
        tree.place? (if root = "" then "." else root) = some base ∧
        tree.place? path = some (base ++ names ++ ["module.xml"]) ∧ tree.isFile path = true :=
  ⟨ModuleName.directory?_eq_none_iff name,
    fun _ h => ⟨leadsBelow_of_directory? h, ModuleName.join_directory? h⟩,
    fun _ _ _ h => exists_root_of_locate h⟩

theorem module_names_stay_below_twins : ModuleName.directory? "a:b" = some ["a", "b"] ∧ LeadsBelow "a/b" ∧
    locate twins ["r"] "a:b" = .ok "r/a/b/module.xml" ∧
    ∃ root ∈ ["r"], ∃ names base, names ≠ [] ∧ "r/a/b/module.xml" = Path.joinAll root (names ++ ["module.xml"]) ∧
      twins.place? (if root = "" then "." else root) = some base ∧
      twins.place? "r/a/b/module.xml" = some (base ++ names ++ ["module.xml"]) := by
  have hdirectory : ModuleName.directory? "a:b" = some ["a", "b"] := by decide +kernel
  have hlocate : locate twins ["r"] "a:b" = .ok "r/a/b/module.xml" := by decide +kernel
  obtain ⟨-, hbelow, hroots⟩ := module_names_stay_below "a:b"
  obtain ⟨root, hroot, names, base, hne, -, hpath, hbase, hplace, -⟩ := hroots twins ["r"] _ hlocate
  exact ⟨hdirectory, (hbelow _ hdirectory).1, hlocate, root, hroot, names, base, hne, hpath, hbase, hplace⟩

end Prune

end ModuleAudit
