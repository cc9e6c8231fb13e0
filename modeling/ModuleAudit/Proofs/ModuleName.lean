import ModuleAudit.ModuleName
import ModuleAudit.Proofs.FileTree

/-! The directory of a module name. Its segments are names of directories, and they tell the module name up to
whether its last one is a slot (`eq_of_directory?`). -/

namespace ModuleAudit
set_option autoImplicit false

/-- The part of a module name before its first colon. -/
def dottedPart (name : String) : String := String.ofList (name.toList.takeWhile (· ≠ ':'))

namespace ModuleName

theorem parts_fst (name : String) : (parts name).1 = dottedPart name := by
  rw [parts, dottedPart, ← Text.getD_cutFirst]
  cases Text.cutFirst ':' name.toList with
  | none => exact String.ofList_toList.symm
  | some pair => rfl

theorem segments?_eq_some {dotted : List Char} {segments : List String} (h : segments? dotted = some segments) :
    segments = (Text.splitOn '.' dotted).map String.ofList ∧ ∀ part ∈ Text.splitOn '.' dotted, part ≠ [] := by
  rw [segments?] at h
  split at h
  · cases h
  · rename_i hall
    refine ⟨(Option.some.inj h).symm, ?_⟩
    rintro part hpart rfl
    exact hall (List.any_eq_true.mpr ⟨[], hpart, rfl⟩)

theorem isName_of_segments? {dotted : List Char} {segments : List String} (h : segments? dotted = some segments)
    (hslash : '/' ∉ dotted) : ∀ name ∈ segments, Path.IsName name := by
  obtain ⟨rfl, hparts⟩ := segments?_eq_some h
  intro name hname
  obtain ⟨part, hpart, rfl⟩ := List.mem_map.mp hname
  obtain ⟨hdot, hfrom⟩ := Text.of_mem_splitOn hpart
  have hchar : ∀ other : String, '.' ∈ other.toList → String.ofList part ≠ other := by
    rintro other ho rfl
    rw [String.toList_ofList] at ho
    exact hdot ho
  refine ⟨?_, ?_, hchar "." (by decide), hchar ".." (by decide)⟩
  · intro hempty
    have hnil := congrArg String.toList hempty
    rw [String.toList_ofList] at hnil
    exact hparts part hpart hnil
  · rw [String.toList_ofList]
    exact fun hmem => hslash (hfrom '/' hmem)

theorem segments?_injective {a b : List Char} {segments : List String} (ha : segments? a = some segments)
    (hb : segments? b = some segments) : a = b := by
  have hsplit := (segments?_eq_some ha).1.symm.trans (segments?_eq_some hb).1
  exact Text.splitOn_injective '.' ((List.map_inj_right fun _ _ => String.ofList_inj.mp).mp hsplit)

/-- A directory is that of a dotted name, or of a dotted name with a slot below it. -/
theorem directory?_cases {name : String} {names : List String} (h : directory? name = some names) :
    '/' ∉ name.toList ∧
      ((hasSlot name = false ∧ segments? name.toList = some names) ∨
        ∃ dotted slot segments, hasSlot name = true ∧ name.toList = dotted ++ ':' :: slot ∧
          segments? dotted = some segments ∧ slotSegment? slot = some (String.ofList slot) ∧
          names = segments ++ [String.ofList slot]) := by
  rw [directory?] at h
  split at h
  · cases h
  · rename_i hplain
    refine ⟨fun hslash => hplain (List.any_eq_true.mpr ⟨'/', hslash, rfl⟩), ?_⟩
    split at h
    · rename_i hcut
      exact Or.inl ⟨decide_eq_false (Text.cutFirst_eq_none hcut), h⟩
    · rename_i dotted slot hcut
      have hchars := (Text.cutFirst_eq_some_iff.mp hcut).2
      obtain ⟨segments, hsegments, hrest⟩ := Option.bind_eq_some_iff.mp h
      obtain ⟨segment, hslot, hnames⟩ := Option.bind_eq_some_iff.mp hrest
      have hsegment : segment = String.ofList slot := by
        rw [slotSegment?] at hslot
        split at hslot
        · cases hslot
        · exact (Option.some.inj hslot).symm
      subst hsegment
      refine Or.inr ⟨dotted, slot, segments, decide_eq_true ?_, hchars, hsegments, hslot,
        (Option.some.inj hnames).symm⟩
      rw [hchars]
      exact List.mem_append_right _ List.mem_cons_self

theorem isName_of_slotSegment? {slot : List Char} {segment : String} (h : slotSegment? slot = some segment)
    (hslash : '/' ∉ slot) : Path.IsName segment := by
  rw [slotSegment?] at h
  split at h
  · cases h
  · rename_i hplain
    obtain rfl := Option.some.inj h
    rw [not_or, not_or] at hplain
    have hlist : ∀ other : String, slot ≠ other.toList → String.ofList slot ≠ other := by
      rintro other ho rfl
      exact ho String.toList_ofList.symm
    refine ⟨hlist "" hplain.1, ?_, hlist "." hplain.2.1, hlist ".." hplain.2.2⟩
    rw [String.toList_ofList]
    exact hslash

theorem isName_of_directory? {name : String} {names : List String} (h : directory? name = some names) :
    names ≠ [] ∧ ∀ segment ∈ names, Path.IsName segment := by
  obtain ⟨hslash, ⟨-, hsegments⟩ | ⟨dotted, slot, segments, -, hchars, hsegments, hslot, rfl⟩⟩ := directory?_cases h
  · refine ⟨?_, isName_of_segments? hsegments hslash⟩
    rw [(segments?_eq_some hsegments).1, ne_eq, List.map_eq_nil_iff]
    exact Text.splitOn_ne_nil '.' name.toList
  · rw [hchars, List.mem_append, List.mem_cons, not_or, not_or] at hslash
    refine ⟨List.append_ne_nil_of_right_ne_nil _ (List.cons_ne_nil _ _), fun segment hmem => ?_⟩
    rcases List.mem_append.mp hmem with hmem | hmem
    · exact isName_of_segments? hsegments hslash.1 segment hmem
    · rw [List.mem_singleton.mp hmem]
      exact isName_of_slotSegment? hslot hslash.2.2

/-- A directory tells the name of its module, if it is known whether the name has a slot. -/
theorem eq_of_directory? {a b : String} {names : List String} (ha : directory? a = some names)
    (hb : directory? b = some names) (hslot : hasSlot a = hasSlot b) : a = b := by
  obtain ⟨-, ⟨haslot, hasegments⟩ | ⟨adotted, aslot, asegments, haslot, hachars, hasegments, -, hanames⟩⟩ :=
    directory?_cases ha
  · obtain ⟨-, ⟨-, hbsegments⟩ | ⟨-, -, -, hbslot, -⟩⟩ := directory?_cases hb
    · exact String.toList_injective (segments?_injective hasegments hbsegments)
    · rw [haslot, hbslot] at hslot
      cases hslot
  · obtain ⟨-, ⟨hbslot, -⟩ | ⟨bdotted, bslot, bsegments, -, hbchars, hbsegments, -, hbnames⟩⟩ := directory?_cases hb
    · rw [haslot, hbslot] at hslot
      cases hslot
    · obtain ⟨rfl, hlast⟩ := List.append_inj' (hanames.symm.trans hbnames) rfl
      have hdotted : adotted = bdotted := segments?_injective hasegments hbsegments
      have hslots : aslot = bslot := String.ofList_inj.mp (List.head_eq_of_cons_eq hlast)
      refine String.toList_injective ?_
      rw [hachars, hbchars, hdotted, hslots]

end ModuleName

end ModuleAudit
