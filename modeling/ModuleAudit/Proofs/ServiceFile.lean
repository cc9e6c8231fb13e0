import Mathlib.Tactic.Conv
import ModuleAudit.Proofs.Text
import ModuleAudit.ServiceFile

/-! What a service registration says, however it is laid out. A layout puts names on lines of their own, with blanks
around them, comments after them and lines without a name between them. Every text has a layout (`Layout.exists_chars`),
and reading gives the names of whichever layout the text has (`Layout.listed_chars`). -/

namespace ModuleAudit
set_option autoImplicit false

/-! ## Layouts -/

namespace ServiceFile

/-- What a registration can list. -/
structure IsEntry (name : String) : Prop where
  not_empty : name ≠ ""
  no_comment : '#' ∉ name.toList
  no_feed : '\n' ∉ name.toList
  head_not_blank : ∀ c ∈ name.toList.head?, isBlank c = false
  last_not_blank : ∀ c ∈ name.toList.getLast?, isBlank c = false

/-- Blanks within a line. -/
def IsGap (chars : List Char) : Prop := ∀ c ∈ chars, isBlank c = true ∧ c ≠ '\n'

/-- A line of a registration: a name or none between gaps, and a comment or none at the end. -/
structure Line where
  before : List Char := []
  entry : Option String := none
  after : List Char := []
  comment : Option (List Char) := none
  gap_before : IsGap before
  is_entry : ∀ name ∈ entry, IsEntry name
  gap_after : IsGap after
  one_line : ∀ text ∈ comment, '\n' ∉ text

inductive LineEnd where
  | feed
  | returnFeed

/-- A registration as it is written: lines with their ends, and what may follow the last line end. -/
structure Layout where
  ended : List (Line × LineEnd) := []
  last : Option Line := none

/-- The name of a line. -/
def Line.name (line : Line) : List Char := (line.entry.map String.toList).getD []

/-- A line without its comment. -/
def Line.front (line : Line) : List Char := line.before ++ line.name ++ line.after

def Line.chars (line : Line) : List Char :=
  line.front ++ (line.comment.map ('#' :: ·)).getD []

def LineEnd.chars : LineEnd → List Char
  | .feed => ['\n']
  | .returnFeed => ['\r', '\n']

def Layout.chars (layout : Layout) : List Char :=
  layout.ended.flatMap (fun line => line.1.chars ++ line.2.chars) ++ (layout.last.map Line.chars).getD []

/-- The text that a layout writes. -/
def Layout.text (layout : Layout) : String := String.ofList layout.chars

/-- The names on the lines of a layout, in order. -/
def Layout.names (layout : Layout) : List String :=
  layout.ended.filterMap (·.1.entry) ++ (layout.last.bind (·.entry)).toList

namespace Line

theorem blank_ne_comment {c : Char} (h : isBlank c = true) : c ≠ '#' := by
  rintro rfl
  cases h

theorem no_comment_front (line : Line) : '#' ∉ line.front := by
  rw [front, List.mem_append, List.mem_append]
  rintro ((hc | hc) | hc)
  · exact blank_ne_comment (line.gap_before _ hc).1 rfl
  · rw [name] at hc
    cases hentry : line.entry with
    | none =>
      rw [hentry] at hc
      cases hc
    | some entry =>
      rw [hentry] at hc
      exact (line.is_entry entry hentry).no_comment hc
  · exact blank_ne_comment (line.gap_after _ hc).1 rfl

theorem no_feed_chars (line : Line) : '\n' ∉ line.chars := by
  rw [chars, front, List.mem_append, List.mem_append, List.mem_append]
  rintro (((hc | hc) | hc) | hc)
  · exact (line.gap_before _ hc).2 rfl
  · rw [name] at hc
    cases hentry : line.entry with
    | none =>
      rw [hentry] at hc
      cases hc
    | some entry =>
      rw [hentry] at hc
      exact (line.is_entry entry hentry).no_feed hc
  · exact (line.gap_after _ hc).2 rfl
  · cases hcomment : line.comment with
    | none =>
      rw [hcomment] at hc
      cases hc
    | some text =>
      rw [hcomment] at hc
      rcases List.mem_cons.mp hc with hc | hc
      · cases hc
      · exact line.one_line text hcomment hc

end Line

/-! ## Reading a line -/

/-- What a line lists, if it is not empty. -/
def shown (line : List Char) : List Char := Text.trim (withoutComment line)

theorem withoutComment_of_not_mem {front : List Char} (h : '#' ∉ front) : withoutComment front = front := by
  rw [withoutComment, List.takeWhile_eq_self_iff]
  intro c hc
  refine decide_eq_true ?_
  rintro rfl
  exact h hc

theorem withoutComment_append {front : List Char} (h : '#' ∉ front) (comment : List Char) :
    withoutComment (front ++ '#' :: comment) = front := by
  have hfront : ∀ c ∈ front, decide (c ≠ '#') = true := by
    intro c hc
    refine decide_eq_true ?_
    rintro rfl
    exact h hc
  rw [withoutComment, List.takeWhile_append_of_pos hfront, List.takeWhile_cons_of_neg (by decide), List.append_nil]

theorem shown_append_return (line : List Char) : shown (line ++ ['\r']) = shown line := by
  by_cases h : '#' ∈ line
  · obtain ⟨front, comment, rfl, hfront⟩ := List.eq_append_cons_of_mem h
    rw [shown, shown, List.append_assoc, List.cons_append, withoutComment_append hfront, withoutComment_append hfront]
  · have hlonger : '#' ∉ line ++ ['\r'] := by simp [h]
    obtain ⟨before, after, hline, hbefore, hafter, hhead, hlast⟩ := Text.exists_gaps line
    rw [shown, shown, withoutComment_of_not_mem hlonger, withoutComment_of_not_mem h]
    conv_lhs => rw [hline, List.append_assoc _ after]
    refine Text.trim_append hbefore (fun c hc => ?_) hhead hlast
    rcases List.mem_append.mp hc with hc | hc
    · exact hafter c hc
    · rw [List.mem_singleton.mp hc]
      rfl

/-- A carriage return at the end of a line is a blank or a part of the comment. -/
theorem shown_dropReturn (line : List Char) : shown (Text.dropReturn line) = shown line := by
  rcases Text.dropReturn_cases line with h | h
  · rw [h]
  · rw [h, shown_append_return, Text.dropReturn_append]

theorem Line.shown_chars (line : Line) : shown line.chars = line.name := by
  have hfront : withoutComment line.chars = line.front := by
    rw [chars]
    cases line.comment with
    | none =>
      rw [Option.map_none, Option.getD_none, List.append_nil]
      exact withoutComment_of_not_mem line.no_comment_front
    | some text => exact withoutComment_append line.no_comment_front text
  have hends : (∀ c ∈ line.name.head?, isBlank c = false) ∧ ∀ c ∈ line.name.getLast?, isBlank c = false := by
    rw [name]
    cases hentry : line.entry with
    | none => exact ⟨fun _ hc => absurd hc (Option.not_mem_none _), fun _ hc => absurd hc (Option.not_mem_none _)⟩
    | some entry =>
      exact ⟨(line.is_entry entry hentry).head_not_blank, (line.is_entry entry hentry).last_not_blank⟩
  rw [shown, hfront, front]
  exact Text.trim_append (fun c hc => (line.gap_before c hc).1) (fun c hc => (line.gap_after c hc).1) hends.1 hends.2

theorem exists_entry {name : List Char} (hcomment : '#' ∉ name) (hfeed : '\n' ∉ name)
    (hhead : ∀ c ∈ name.head?, isBlank c = false) (hlast : ∀ c ∈ name.getLast?, isBlank c = false) :
    ∃ entry : Option String, (∀ own ∈ entry, IsEntry own) ∧ (entry.map String.toList).getD [] = name := by
  by_cases hempty : name = []
  · exact ⟨none, fun _ hown => absurd hown (Option.not_mem_none _), hempty.symm⟩
  · have hname : name = (String.ofList name).toList := String.toList_ofList.symm
    refine ⟨some (String.ofList name), ?_, hname.symm⟩
    rintro own hown
    obtain rfl := Option.some.inj hown
    constructor
    · exact fun e => hempty (hname.trans (String.toList_eq_nil_iff.mpr e))
    · rwa [← hname]
    · rwa [← hname]
    · rwa [← hname]
    · rwa [← hname]

/-- Every line without a line feed is written by some line. -/
theorem Line.exists_chars {chars : List Char} (h : '\n' ∉ chars) : ∃ line : Line, line.chars = chars := by
  obtain ⟨front, comment, hchars, hcomment, hfree⟩ : ∃ (front : List Char) (comment : Option (List Char)),
      chars = front ++ (comment.map ('#' :: ·)).getD [] ∧ (∀ text ∈ comment, '\n' ∉ text) ∧ '#' ∉ front := by
    by_cases hmark : '#' ∈ chars
    · obtain ⟨front, comment, rfl, hfront⟩ := List.eq_append_cons_of_mem hmark
      refine ⟨front, some comment, rfl, ?_, hfront⟩
      rintro text hsame
      obtain rfl := Option.some.inj hsame
      exact fun hc => h (List.mem_append_right _ (List.mem_cons_of_mem _ hc))
    · exact ⟨chars, none, (List.append_nil _).symm, fun _ hc => absurd hc (Option.not_mem_none _), hmark⟩
  obtain ⟨before, after, hfront, hbefore, hafter, hhead, hlast⟩ := Text.exists_gaps front
  have hpart : ∀ c ∈ before ++ Text.trim front ++ after, c ≠ '\n' ∧ c ≠ '#' := by
    rw [← hfront]
    intro c hc
    refine ⟨?_, fun e => hfree (e ▸ hc)⟩
    rintro rfl
    exact h (hchars ▸ List.mem_append_left _ hc)
  obtain ⟨entry, hentry, hname⟩ := exists_entry (fun hc => (hpart '#' (by simp [hc])).2 rfl)
    (fun hc => (hpart '\n' (by simp [hc])).1 rfl) hhead hlast
  refine ⟨⟨before, entry, after, comment, fun c hc => ⟨hbefore c hc, (hpart c (by simp [hc])).1⟩, hentry,
    fun c hc => ⟨hafter c hc, (hpart c (by simp [hc])).1⟩, hcomment⟩, ?_⟩
  change before ++ (entry.map String.toList).getD [] ++ after ++ (comment.map ('#' :: ·)).getD [] = chars
  rw [hname, ← hfront, ← hchars]

/-! ## Reading a text -/

theorem listed_eq (contents : List Char) :
    listed contents = ((Text.lines contents).map shown).filter fun name => !name.isEmpty := rfl

theorem listed_append_feed {line : List Char} (h : '\n' ∉ line) (rest : List Char) :
    listed (line ++ '\n' :: rest) = [shown line].filter (!·.isEmpty) ++ listed rest := by
  rw [listed_eq, listed_eq, Text.lines_append_feed h, List.map_cons, shown_dropReturn, ← List.singleton_append,
    List.filter_append]

theorem listed_of_not_mem {line : List Char} (h : '\n' ∉ line) : listed line = [shown line].filter (!·.isEmpty) := by
  rw [listed_eq, Text.lines_of_not_mem h]
  cases line with
  | nil => rfl
  | cons c rest => rfl

theorem Line.filter_name (line : Line) :
    ([line.name].filter (!·.isEmpty)).map String.ofList = line.entry.toList := by
  rw [name]
  cases hentry : line.entry with
  | none => rfl
  | some entry =>
    have hfull := (line.is_entry entry hentry).not_empty
    simp [hfull]

theorem Line.listed_append (line : Line) (ending : LineEnd) (rest : List Char) :
    (listed (line.chars ++ ending.chars ++ rest)).map String.ofList =
      line.entry.toList ++ (listed rest).map String.ofList := by
  cases ending with
  | feed =>
    rw [LineEnd.chars, List.append_assoc, List.singleton_append, listed_append_feed line.no_feed_chars,
      line.shown_chars, List.map_append, line.filter_name]
  | returnFeed =>
    have hfeed : '\n' ∉ line.chars ++ ['\r'] := by simp [line.no_feed_chars]
    have hsplit : line.chars ++ LineEnd.returnFeed.chars ++ rest = (line.chars ++ ['\r']) ++ '\n' :: rest := by
      simp [LineEnd.chars]
    rw [hsplit, listed_append_feed hfeed, shown_append_return, line.shown_chars, List.map_append, line.filter_name]

namespace Layout

/-- Reading a layout gives its names. -/
theorem listed_chars (layout : Layout) : (listed layout.chars).map String.ofList = layout.names := by
  obtain ⟨ended, last⟩ := layout
  rw [chars, names]
  dsimp only
  induction ended with
  | nil =>
    cases last with
    | none => rfl
    | some line =>
      rw [List.flatMap_nil, List.nil_append, Option.map_some, Option.getD_some, listed_of_not_mem line.no_feed_chars,
        line.shown_chars, line.filter_name]
      rfl
  | cons first rest ih =>
    rw [List.flatMap_cons, List.append_assoc (first.1.chars ++ first.2.chars), first.1.listed_append, ih,
      List.filterMap_cons]
    cases first.1.entry with
    | none => rfl
    | some name => rfl

/-- Every text is written by some layout. -/
theorem exists_chars (contents : List Char) : ∃ layout : Layout, layout.chars = contents := by
  -- the parts between the line feeds are the lines, and only the last one has no end
  rw [← Text.intercalate_splitOn '\n' contents]
  have hparts : ∀ part ∈ Text.splitOn '\n' contents, '\n' ∉ part := fun part hpart => (Text.of_mem_splitOn hpart).1
  generalize Text.splitOn '\n' contents = parts at hparts
  induction parts with
  | nil => exact ⟨{}, rfl⟩
  | cons first rest ih =>
    obtain ⟨line, hline⟩ := Line.exists_chars (hparts first List.mem_cons_self)
    cases rest with
    | nil =>
      refine ⟨{ last := some line }, ?_⟩
      rw [List.intercalate_singleton]
      exact hline
    | cons second others =>
      obtain ⟨⟨ended, last⟩, hrest⟩ := ih fun part hpart => hparts part (List.mem_cons_of_mem first hpart)
      refine ⟨{ ended := (line, .feed) :: ended, last }, ?_⟩
      rw [List.intercalate_cons_cons, ← hrest, ← hline, chars, chars, List.flatMap_cons]
      simp [LineEnd.chars]

theorem isEntry_of_mem_names {layout : Layout} {name : String} (h : name ∈ layout.names) : IsEntry name := by
  rw [names, List.mem_append, List.mem_filterMap, Option.mem_toList, Option.bind_eq_some_iff] at h
  rcases h with ⟨line, -, hentry⟩ | ⟨line, -, hentry⟩
  · exact line.1.is_entry name hentry
  · exact line.is_entry name hentry

end Layout

theorem parse?_eq_some_iff {name contents : String} {file : ServiceFile} : parse? name contents = some file ↔
    file.interface ≠ "" ∧ name = directory ++ file.interface ∧
      file.implementations = (listed contents.toList).map String.ofList := by
  rw [parse?]
  constructor
  · intro h
    split at h
    · cases h
    · cases h
    · rename_i interface hne hmark
      obtain rfl := Option.some.inj h
      refine ⟨?_, ?_, rfl⟩
      · intro hempty
        refine hne ?_
        rw [← String.toList_ofList (l := interface)]
        exact String.toList_eq_nil_iff.mpr hempty
      · apply String.toList_injective
        rw [Text.append_of_afterMark? hmark, String.toList_append, String.toList_ofList]
  · obtain ⟨interface, implementations⟩ := file
    rintro ⟨hne, rfl, rfl⟩
    dsimp only at hne ⊢
    rw [String.toList_append, Text.afterMark?_append]
    split
    · rename_i hnone
      cases hnone
    · rename_i hempty
      exact absurd (String.toList_eq_nil_iff.mp (Option.some.inj hempty)) hne
    · rename_i chars _ hchars
      obtain rfl := Option.some.inj hchars
      rw [String.ofList_toList]

/-- A resource is read as a registration exactly if it is named for an interface in the directory of registrations. It
then lists what its lines show, whichever way the text is laid out as lines. -/
theorem parse?_iff_layout (name contents : String) (file : ServiceFile) : parse? name contents = some file ↔
    file.interface ≠ "" ∧ name = directory ++ file.interface ∧
      (∀ entry ∈ file.implementations, IsEntry entry) ∧
      ∃ layout : Layout, layout.text = contents ∧ layout.names = file.implementations := by
  rw [parse?_eq_some_iff]
  refine and_congr_right fun _ => and_congr_right fun _ => ?_
  constructor
  · intro himplementations
    obtain ⟨layout, hlayout⟩ := Layout.exists_chars contents.toList
    have hnames : layout.names = file.implementations := by
      rw [himplementations, ← layout.listed_chars, hlayout]
    refine ⟨fun entry hentry => ?_, layout, ?_, hnames⟩
    · rw [← hnames] at hentry
      exact Layout.isEntry_of_mem_names hentry
    · rw [Layout.text, hlayout, String.ofList_toList]
  · rintro ⟨-, layout, rfl, hnames⟩
    rw [Layout.text, String.toList_ofList, layout.listed_chars, hnames]

example : parse? "META-INF/services/a.S" "# all\n\n  b.T\t# one\r\n\rc.U \r" = some ⟨"a.S", ["b.T", "c.U"]⟩ := by
  decide +kernel

end ServiceFile

end ModuleAudit
