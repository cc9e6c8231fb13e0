import Mathlib.Data.List.Induction
import ModuleAudit.FileTree.Basic
import ModuleAudit.Proofs.Ordered
import ModuleAudit.Proofs.Text

/-! Paths, and what reading, writing and walking do with them. A row of names below a path leads below the place of
that path, however the names are joined, and writing to a file changes its place alone. In a tree as file systems have
them, every place is a row of names, and what leads to it are directories (`Proper`). There the path of a file that a
walk meets leads back to the file. -/

namespace ModuleAudit
set_option autoImplicit false

/-! ## Paths -/

namespace Path

/-- What a file or a directory can be called. -/
structure IsName (name : String) : Prop where
  not_empty : name ≠ ""
  no_slash : '/' ∉ name.toList
  not_self : name ≠ "."
  not_parent : name ≠ ".."

instance (name : String) : Decidable (IsName name) :=
  decidable_of_iff (name ≠ "" ∧ '/' ∉ name.toList ∧ name ≠ "." ∧ name ≠ "..")
    ⟨fun h => ⟨h.1, h.2.1, h.2.2.1, h.2.2.2⟩, fun h => ⟨h.not_empty, h.no_slash, h.not_self, h.not_parent⟩⟩

variable {base child : String}

theorem isAbsolute_of_isName (h : IsName child) : isAbsolute child = false := by
  rw [isAbsolute, beq_eq_false_iff_ne]
  intro hhead
  exact h.no_slash (List.mem_of_mem_head? hhead)

/-- A path and a name below it, up to a slash that the path ends with. -/
theorem toList_join (hbase : base ≠ "") (h : IsName child) : ∃ front, (join base child).toList =
    front ++ '/' :: child.toList ∧ (base.toList = front ∨ base.toList = front ++ ['/']) := by
  have hnone : ¬ (base = "" ∨ isAbsolute child = true) := by
    rw [isAbsolute_of_isName h]
    simp [hbase]
  rw [join, if_neg hnone]
  split
  · rename_i hlast
    obtain ⟨front, hfront⟩ := List.getLast?_eq_some_iff.mp hlast
    refine ⟨front, ?_, .inr hfront⟩
    rw [String.toList_append, hfront, List.append_assoc]
    rfl
  · refine ⟨base.toList, ?_, .inl rfl⟩
    rw [String.toList_append, String.toList_append, List.append_assoc]
    rfl

theorem components_of_isName (h : IsName child) : components child = [child] := by
  rw [components, Text.splitOn_of_not_mem h.no_slash]
  simp [h.not_empty]

theorem components_join (hbase : base ≠ "") (h : IsName child) :
    components (join base child) = components base ++ [child] := by
  obtain ⟨front, hjoin, hfront⟩ := toList_join hbase h
  have hname : ((Text.splitOn '/' child.toList).filter (!·.isEmpty)).map String.ofList = [child] :=
    components_of_isName h
  have hbase' : components base = ((Text.splitOn '/' front).filter (!·.isEmpty)).map String.ofList := by
    rcases hfront with hfront | hfront
    · rw [components, hfront]
    · rw [components, hfront, Text.splitOn_append, List.filter_append]
      exact congrArg (List.map String.ofList) (List.append_nil _)
  rw [components, hjoin, Text.splitOn_append, List.filter_append, List.map_append, hname, hbase']

theorem join_ne_empty (hbase : base ≠ "") (h : IsName child) : join base child ≠ "" := by
  obtain ⟨front, hjoin, -⟩ := toList_join hbase h
  intro hempty
  rw [hempty] at hjoin
  cases front with
  | nil => cases hjoin
  | cons c rest => cases hjoin

theorem isAbsolute_join (hbase : base ≠ "") (h : IsName child) : isAbsolute (join base child) = isAbsolute base := by
  obtain ⟨front, hjoin, hfront⟩ := toList_join hbase h
  rw [isAbsolute, isAbsolute, hjoin]
  cases front with
  | nil =>
    rcases hfront with hfront | hfront
    · exact absurd (String.toList_eq_nil_iff.mp hfront) hbase
    · rw [hfront]
      rfl
  | cons c rest =>
    rcases hfront with hfront | hfront
    · rw [hfront]
      rfl
    · rw [hfront]
      rfl

theorem namesDirectory_join (hbase : base ≠ "") (h : IsName child) : namesDirectory (join base child) = false := by
  obtain ⟨front, hjoin, -⟩ := toList_join hbase h
  rw [namesDirectory, hjoin, Text.splitOn_append, Text.splitOn_of_not_mem h.no_slash, List.getLast?_concat]
  split
  · rename_i hempty
    exact absurd (String.toList_eq_nil_iff.mp (Option.some.inj hempty)) h.not_empty
  · rename_i hself
    exact absurd (String.toList_injective (Option.some.inj hself)) h.not_self
  · rfl

/-- What a row of names below a path makes of it. -/
theorem joinAll_eq {names : List String} (hbase : base ≠ "") (h : ∀ name ∈ names, IsName name) :
    joinAll base names ≠ "" ∧ components (joinAll base names) = components base ++ names ∧
      isAbsolute (joinAll base names) = isAbsolute base := by
  induction names generalizing base with
  | nil => exact ⟨hbase, (List.append_nil _).symm, rfl⟩
  | cons name rest ih =>
    have hname := h name List.mem_cons_self
    obtain ⟨hne, hcomponents, habsolute⟩ :=
      ih (join_ne_empty hbase hname) fun other hmem => h other (List.mem_cons_of_mem name hmem)
    refine ⟨hne, ?_, habsolute.trans (isAbsolute_join hbase hname)⟩
    rw [joinAll, List.foldl_cons]
    change components (joinAll (join base name) rest) = _
    rw [hcomponents, components_join hbase hname, List.append_assoc, List.singleton_append]

/-- Part of a path that neither starts nor ends with a slash. -/
structure IsRelative (part : String) : Prop where
  head : ∃ c rest, part.toList = c :: rest ∧ c ≠ '/'
  last : ∃ front c, part.toList = front ++ [c] ∧ c ≠ '/'

theorem isRelative_of_isName (h : IsName child) : IsRelative child := by
  have hne : child.toList ≠ [] := fun e => h.not_empty (String.toList_eq_nil_iff.mp e)
  refine ⟨?_, ?_⟩
  · obtain ⟨c, rest, hlist⟩ := List.exists_cons_of_ne_nil hne
    refine ⟨c, rest, hlist, ?_⟩
    rintro rfl
    exact h.no_slash (hlist ▸ List.mem_cons_self)
  · obtain ⟨front, c, hlist⟩ := (List.eq_nil_or_concat child.toList).resolve_left hne
    rw [List.concat_eq_append] at hlist
    refine ⟨front, c, hlist, ?_⟩
    rintro rfl
    exact h.no_slash (hlist ▸ List.mem_append_right front (List.mem_singleton_self _))

theorem IsRelative.append {part : String} (hpart : IsRelative part) (h : IsName child) :
    IsRelative (part ++ "/" ++ child) := by
  obtain ⟨c, rest, hhead, hc⟩ := hpart.head
  obtain ⟨front, d, hlast, hd⟩ := (isRelative_of_isName h).last
  refine ⟨⟨c, rest ++ '/' :: child.toList, ?_, hc⟩, ⟨part.toList ++ '/' :: front, d, ?_, hd⟩⟩
  · simp [String.toList_append, hhead]
  · simp [String.toList_append, hlast]

theorem IsRelative.isAbsolute_eq {part : String} (h : IsRelative part) : isAbsolute part = false := by
  obtain ⟨c, rest, hhead, hc⟩ := h.head
  rw [isAbsolute, hhead, beq_eq_false_iff_ne, List.head?_cons]
  exact fun e => hc (Option.some.inj e)

theorem join_empty (child : String) : join "" child = child := if_pos (Or.inl rfl)

theorem components_joinAll {names : List String} (h : ∀ name ∈ names, IsName name) :
    components (joinAll base names) = components base ++ names := by
  by_cases hbase : base = ""
  · subst hbase
    cases names with
    | nil => rfl
    | cons first rest =>
      have hfirst := h first List.mem_cons_self
      have hrest := joinAll_eq hfirst.not_empty fun name hmem => h name (List.mem_cons_of_mem first hmem)
      rw [joinAll, List.foldl_cons, join_empty]
      exact hrest.2.1.trans (congrArg (· ++ rest) (components_of_isName hfirst))
  · exact (joinAll_eq hbase h).2.1

/-- A name below a path that does not end with a slash. -/
theorem IsRelative.join_append {part : String} (hpart : IsRelative part) (h : IsName child) (front : String) :
    join (front ++ part) child = front ++ part ++ "/" ++ child := by
  obtain ⟨others, c, hlast, hc⟩ := hpart.last
  have hlist : (front ++ part).toList = (front.toList ++ others) ++ [c] := by
    rw [String.toList_append, hlast, List.append_assoc]
  have hfull : front ++ part ≠ "" := by
    intro e
    rw [e] at hlist
    exact List.concat_ne_nil _ _ hlist.symm
  have hend : (front ++ part).toList.getLast? ≠ some '/' := by
    rw [hlist, List.getLast?_concat]
    exact fun e => hc (Option.some.inj e)
  rw [join, if_neg (by simp [hfull, isAbsolute_of_isName h]), if_neg hend]

theorem join_join {part : String} (hpart : IsRelative part) (h : IsName child) :
    join (join base part) child = join base (part ++ "/" ++ child) := by
  have hlong := hpart.append h
  by_cases hbase : base = ""
  · have hplain := hpart.join_append h ""
    rw [String.empty_append] at hplain
    rw [hbase, join_empty, join_empty, hplain]
  · rw [join.eq_1 base part, join.eq_1 base (part ++ "/" ++ child)]
    simp only [hbase, hpart.isAbsolute_eq, hlong.isAbsolute_eq, Bool.false_eq_true, or_self, if_false]
    split
    · rw [hpart.join_append h]
      simp only [String.append_assoc]
    · rw [hpart.join_append h]
      simp only [String.append_assoc]

/-- Names joined by slashes below a path are the row of names below it. -/
theorem join_names {names : List String} (hnames : names ≠ []) (h : ∀ name ∈ names, IsName name) :
    IsRelative (Text.join "/" names) ∧ join base (Text.join "/" names) = joinAll base names := by
  induction names using List.reverseRecOn with
  | nil => exact absurd rfl hnames
  | append_singleton front name ih =>
    have hname := h name (List.mem_append_right _ (List.mem_singleton_self name))
    by_cases hfront : front = []
    · subst hfront
      rw [Text.join, List.nil_append, String.intercalate_singleton]
      exact ⟨isRelative_of_isName hname, rfl⟩
    · obtain ⟨hpart, hjoin⟩ := ih hfront fun other hmem => h other (List.mem_append_left _ hmem)
      have hsplit : Text.join "/" (front ++ [name]) = Text.join "/" front ++ "/" ++ name := by
        rw [Text.join, String.intercalate_append_of_ne_nil hfront (List.cons_ne_nil name []),
          String.intercalate_singleton]
        rfl
      rw [hsplit]
      refine ⟨hpart.append hname, ?_⟩
      rw [← join_join hpart hname, hjoin, joinAll, joinAll, List.foldl_append]
      rfl

end Path

/-! ## Trees -/

namespace FileTree

/-- A tree as file systems have them. -/
structure Proper (tree : FileTree) : Prop where
  names : ∀ place ∈ tree.nodes.keys, ∀ name ∈ place, Path.IsName name
  parents : ∀ place ∈ tree.nodes.keys, tree.node? place.dropLast = some .directory

instance (tree : FileTree) : Decidable tree.Proper :=
  decidable_of_iff ((∀ place ∈ tree.nodes.keys, ∀ name ∈ place, Path.IsName name) ∧
      ∀ place ∈ tree.nodes.keys, tree.node? place.dropLast = some .directory)
    ⟨fun h => ⟨h.1, h.2⟩, fun h => ⟨h.names, h.parents⟩⟩

variable {tree : FileTree}

theorem mem_keys_of_node? {place : List String} (hplace : place ≠ []) {node : FileNode}
    (h : tree.node? place = some node) : place ∈ tree.nodes.keys := by
  rw [node?, if_neg (by simpa using hplace)] at h
  rw [OrderedMap.mem_keys_iff, h]
  rfl

/-- What leads further is a directory. -/
theorem Proper.node?_of_longer (h : tree.Proper) {place names : List String} (hnames : names ≠ []) {node : FileNode}
    (hnode : tree.node? (place ++ names) = some node) : tree.node? place = some .directory := by
  induction names using List.reverseRecOn generalizing node with
  | nil => exact absurd rfl hnames
  | append_singleton front name ih =>
    rw [← List.append_assoc] at hnode
    have hparent := h.parents _ (mem_keys_of_node? (List.concat_ne_nil _ _) hnode)
    rw [List.dropLast_concat] at hparent
    rcases List.eq_nil_or_concat front with rfl | ⟨others, last, rfl⟩
    · rwa [List.append_nil] at hparent
    · exact ih (by simp) hparent

/-- Names lead from a place to what is below it. -/
theorem Proper.foldlM_step (h : tree.Proper) {place names : List String} {node : FileNode}
    (hnode : tree.node? (place ++ names) = some node) : names.foldlM tree.step place = some (place ++ names) := by
  induction names generalizing place with
  | nil => rw [List.append_nil]; rfl
  | cons name rest ih =>
    have hsplit : place ++ name :: rest = (place ++ [name]) ++ rest := by simp
    have hname : Path.IsName name :=
      h.names _ (mem_keys_of_node? (by simp) hnode) name (List.mem_append_right _ List.mem_cons_self)
    -- each name but the last leads to a directory, because something is below
    have hdirectory := h.node?_of_longer (List.cons_ne_nil name rest) hnode
    rw [hsplit] at hnode ⊢
    have hknown : (tree.node? (place ++ [name])).isSome = true := by
      cases rest with
      | nil => rw [List.append_nil] at hnode; rw [hnode]; rfl
      | cons other others => rw [h.node?_of_longer (List.cons_ne_nil other others) hnode]; rfl
    have hstep : tree.step place name = some (place ++ [name]) := by
      rw [step, hdirectory]
      simp only [if_neg hname.not_self, if_neg hname.not_parent, if_pos hknown]
    rw [List.foldlM_cons, hstep]
    exact ih hnode

theorem foldlM_of_place? {path : String} {place : List String} (h : tree.place? path = some place) :
    path ≠ "" ∧ (Path.components path).foldlM tree.step (tree.startOf path) = some place := by
  have hne : path ≠ "" := by
    rintro rfl
    cases h
  rw [place?, if_neg hne] at h
  obtain ⟨start, hstart, hend⟩ := Option.bind_eq_some_iff.mp h
  obtain rfl : start = place := by
    split at hend
    · split at hend
      · cases hend
      · exact Option.some.inj hend
    · exact Option.some.inj hend
  exact ⟨hne, hstart⟩

/-- A file below a directory is read at its path. -/
theorem Proper.read?_joinAll (h : tree.Proper) {root : String} {place names : List String}
    (hroot : tree.place? root = some place) (hnames : names ≠ []) {contents : Bytes}
    (hfile : tree.node? (place ++ names) = some (.file contents)) :
    tree.read? (Path.joinAll root names) = some contents := by
  obtain ⟨hne, hstart⟩ := foldlM_of_place? hroot
  have hplain : ∀ name ∈ names, Path.IsName name := fun name hmem =>
    h.names _ (mem_keys_of_node? (by simp [hnames]) hfile) name (List.mem_append_right _ hmem)
  obtain ⟨hpath, hcomponents, habsolute⟩ := Path.joinAll_eq hne hplain
  have hwalked : (Path.components (Path.joinAll root names)).foldlM tree.step
      (tree.startOf (Path.joinAll root names)) = some (place ++ names) := by
    rw [hcomponents, startOf, habsolute, List.foldlM_append]
    change ((Path.components root).foldlM tree.step (tree.startOf root)).bind _ = _
    rw [hstart]
    exact h.foldlM_step hfile
  have hfinal : Path.namesDirectory (Path.joinAll root names) = false := by
    obtain ⟨front, name, rfl⟩ := List.eq_nil_or_concat names |>.resolve_left hnames
    rw [List.concat_eq_append] at hplain ⊢
    have hfront := Path.joinAll_eq hne fun other hmem => hplain other (List.mem_append_left _ hmem)
    rw [Path.joinAll, List.foldl_append]
    exact Path.namesDirectory_join hfront.1 (hplain name (List.mem_append_right _ (List.mem_singleton_self name)))
  have hplace : tree.place? (Path.joinAll root names) = some (place ++ names) := by
    rw [place?, if_neg hpath, hwalked, Option.bind_eq_bind, Option.bind_some, hfile]
    simp only [hfinal, Bool.false_eq_true, if_false]
  rw [read?, lookup?, hplace, Option.bind_some, hfile]

/-- Names lead below the place they start from. -/
theorem eq_append_of_foldlM_step {place target names : List String} (hnames : ∀ name ∈ names, Path.IsName name)
    (h : names.foldlM tree.step place = some target) : target = place ++ names := by
  induction names generalizing place with
  | nil => exact (Option.some.inj h).symm.trans (List.append_nil _).symm
  | cons name rest ih =>
    have hname := hnames name List.mem_cons_self
    rw [List.foldlM_cons] at h
    obtain ⟨next, hstep, hrest⟩ := Option.bind_eq_some_iff.mp h
    have hnext : next = place ++ [name] := by
      rw [step] at hstep
      split at hstep
      · rw [if_neg hname.not_self, if_neg hname.not_parent] at hstep
        split at hstep
        · exact (Option.some.inj hstep).symm
        · cases hstep
      · cases hstep
    rw [ih (fun other hmem => hnames other (List.mem_cons_of_mem name hmem)) hrest, hnext, List.append_assoc]
    rfl

theorem exists_place_of_joinAll {root : String} {names place : List String}
    (hnames : ∀ name ∈ names, Path.IsName name) (h : tree.place? (Path.joinAll root names) = some place) :
    ∃ base, place = base ++ names := by
  obtain ⟨-, hsteps⟩ := foldlM_of_place? h
  rw [Path.components_joinAll hnames, List.foldlM_append] at hsteps
  obtain ⟨base, -, hrest⟩ := Option.bind_eq_some_iff.mp hsteps
  exact ⟨base, eq_append_of_foldlM_step hnames hrest⟩

/-! ## What is in the files -/

theorem exists_file_iff {place : List String} : (∃ contents, tree.node? place = some (.file contents)) ↔
    (tree.node? place).isSome ∧ tree.node? place ≠ some .directory := by
  rcases tree.node? place with _ | _ | _
  · simp
  · simp
  · simp

theorem isFile_iff {path : String} : tree.isFile path = true ↔
    ∃ place, tree.place? path = some place ∧ ∃ contents, tree.node? place = some (.file contents) := by
  rw [isFile, lookup?]
  cases tree.place? path with
  | none => simp
  | some place => rcases hnode : tree.node? place with _ | _ | _ <;> simp [hnode]

/-- The tree with other contents in a file. -/
def withFile (tree : FileTree) (place : List String) (contents : Bytes) : FileTree :=
  { tree with nodes := tree.nodes.insert place (.file contents) }

/-- Writing to a file changes what is at its place and nothing else. -/
theorem write?_of_isFile {path : String} (h : tree.isFile path = true) (contents : Bytes) :
    ∃ place, tree.place? path = some place ∧ (∃ old, tree.node? place = some (.file old)) ∧
      tree.write? path contents = some (tree.withFile place contents) := by
  obtain ⟨place, hplace, old, hold⟩ := isFile_iff.mp h
  refine ⟨place, hplace, ⟨old, hold⟩, ?_⟩
  rw [write?, newPlace?, hplace]
  simp only [hold, Option.some.injEq, reduceCtorEq, if_false, Option.map_some]
  rfl

/-- The same places are there, and the same of them are directories. -/
structure SameShape (tree other : FileTree) : Prop where
  home : other.home = tree.home
  known : ∀ place, (other.node? place).isSome = (tree.node? place).isSome
  directory : ∀ place, other.node? place = some .directory ↔ tree.node? place = some .directory

theorem SameShape.refl (tree : FileTree) : SameShape tree tree := ⟨rfl, fun _ => rfl, fun _ => Iff.rfl⟩

theorem SameShape.trans {other third : FileTree} (h : SameShape tree other) (h' : SameShape other third) :
    SameShape tree third :=
  ⟨h'.home.trans h.home, fun place => (h'.known place).trans (h.known place),
    fun place => (h'.directory place).trans (h.directory place)⟩

theorem step_eq (tree : FileTree) (place : List String) (component : String) : tree.step place component =
    if tree.node? place = some .directory then
      if component = "." then some place
      else if component = ".." then some place.dropLast
      else if (tree.node? (place ++ [component])).isSome then some (place ++ [component])
      else none
    else none := by
  rw [step]
  split
  · rename_i hdirectory
    rw [if_pos hdirectory]
  · rename_i hother
    rw [if_neg hother]

theorem place?_eq (tree : FileTree) (path : String) : tree.place? path =
    if path = "" then none
    else ((Path.components path).foldlM tree.step (tree.startOf path)).bind fun place =>
      if (tree.node? place).isSome ∧ tree.node? place ≠ some .directory ∧ Path.namesDirectory path then none
      else some place := by
  rw [place?]
  split
  · rfl
  · refine congrArg _ (funext fun place => ?_)
    rcases hnode : tree.node? place with _ | _ | _ <;> simp

section SameShape

variable {other : FileTree} (h : SameShape tree other)
include h

theorem SameShape.place?_eq (path : String) : other.place? path = tree.place? path := by
  have hstep : other.step = tree.step := by
    funext place component
    rw [step_eq, step_eq, h.known]
    simp only [h.directory]
  rw [FileTree.place?_eq, FileTree.place?_eq, hstep, startOf, startOf, h.home]
  simp only [ne_eq, h.known, h.directory]

theorem SameShape.isFile_eq : other.isFile = tree.isFile := by
  funext path
  rw [Bool.eq_iff_iff, isFile_iff, isFile_iff, h.place?_eq]
  simp only [exists_file_iff, ne_eq, h.known, h.directory]

/-- A path leads to the same text in two trees if the same is at its place. -/
theorem SameShape.readText?_eq {path : String}
    (hnode : ∀ place, tree.place? path = some place → other.node? place = tree.node? place) :
    other.readText? path = tree.readText? path := by
  have hlookup : other.lookup? path = tree.lookup? path := by
    rw [lookup?, lookup?, h.place?_eq]
    cases hplace : tree.place? path with
    | none => rfl
    | some place => exact hnode place hplace
  rw [readText?, readText?, read?, read?, hlookup]

end SameShape

section WithFile

variable {place : List String} {old : Bytes} (hold : tree.node? place = some (.file old)) (contents : Bytes)
include hold

theorem node?_withFile (there : List String) :
    (tree.withFile place contents).node? there = if there = place then some (.file contents) else tree.node? there := by
  have hplace : place ≠ [] := by
    rintro rfl
    cases hold
  rw [node?, withFile, node?]
  dsimp only
  rw [OrderedMap.insert, OrderedMap.get?_alter]
  by_cases hempty : there = []
  · subst hempty
    simp [Ne.symm hplace]
  · simp [hempty]

theorem sameShape_withFile : SameShape tree (tree.withFile place contents) := by
  refine ⟨rfl, fun there => ?_, fun there => ?_⟩
  · rw [node?_withFile hold]
    split
    · rename_i hsame
      rw [hsame, hold]
      rfl
    · rfl
  · rw [node?_withFile hold]
    split
    · rename_i hsame
      rw [hsame, hold]
      simp
    · rfl

end WithFile

/-! ## Walks -/

theorem eq_append_of_below? {place names rest : List String} (h : below? place names = some rest) :
    names = place ++ rest := by
  fun_induction below? place names with
  | case1 names => exact Option.some.inj h
  | case2 => cases h
  | case3 place name names ih => rw [ih h]; rfl
  | case4 => cases h

theorem below?_append (place rest : List String) : below? place (place ++ rest) = some rest := by
  induction place with
  | nil => rfl
  | cons name place ih => rw [List.cons_append, below?, if_pos rfl, ih]

theorem insertFile_perm (file : List String × Bytes) (files : List (List String × Bytes)) :
    (insertFile file files).Perm (file :: files) := by
  induction files with
  | nil => exact .refl _
  | cons next rest ih =>
    rw [insertFile]
    split
    · exact .refl _
    · exact (ih.cons next).trans (.swap file next rest)

theorem foldr_insertFile_perm (files : List (List String × Bytes)) : (files.foldr insertFile []).Perm files := by
  induction files with
  | nil => exact .refl _
  | cons file rest ih => exact (insertFile_perm file _).trans (ih.cons file)

theorem mem_filesBelow_iff {place names : List String} (hnames : names ≠ []) {contents : Bytes} :
    (names, contents) ∈ tree.filesBelow place ↔ tree.node? (place ++ names) = some (.file contents) := by
  rw [filesBelow, (foldr_insertFile_perm _).mem_iff, List.mem_filterMap, node?, if_neg (by simp [hnames])]
  constructor
  · rintro ⟨⟨key, node⟩, hentry, hfile⟩
    dsimp only at hfile
    split at hfile
    · rename_i contents' rest hbelow
      obtain ⟨rfl, rfl⟩ := Prod.mk.inj (Option.some.inj hfile)
      rw [← eq_append_of_below? hbelow]
      exact OrderedMap.get?_of_mem_entries hentry
    · cases hfile
  · intro h
    exact ⟨(place ++ names, .file contents), OrderedMap.mem_entries_of_get? h, by simp only [below?_append]⟩

theorem mem_walk_iff {path : String} {names : List String} (hnames : names ≠ []) {contents : Bytes} :
    (names, contents) ∈ tree.walk path ↔
      ∃ place, tree.place? path = some place ∧ tree.node? (place ++ names) = some (.file contents) := by
  rw [walk]
  split
  · rename_i place hplace
    rw [mem_filesBelow_iff hnames, hplace]
    constructor
    · exact fun h => ⟨place, rfl, h⟩
    · rintro ⟨_, hsame, h⟩
      obtain rfl := Option.some.inj hsame
      exact h
  · rename_i hnone
    rw [hnone]
    constructor
    · intro h
      cases h
    · rintro ⟨_, h, -⟩
      cases h

/-- What a walk meets is read at its path. -/
theorem Proper.read?_of_mem_walk (h : tree.Proper) {root : String} {names : List String} {contents : Bytes}
    (hnames : names ≠ []) (hmem : (names, contents) ∈ tree.walk root) :
    tree.read? (Path.joinAll root names) = some contents := by
  obtain ⟨place, hplace, hnode⟩ := (mem_walk_iff hnames).mp hmem
  exact h.read?_joinAll hplace hnames hnode

end FileTree

end ModuleAudit
