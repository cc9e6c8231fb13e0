import Mathlib.Data.List.Perm.Basic
import Mathlib.Data.Nat.Bitwise
import ModuleAudit.Proofs.Build.Contents
import ModuleAudit.Proofs.Build.Tallied
import ModuleAudit.Proofs.ClassFile.DescriptorGrammar

/-! What a class file leaves in its record. Each event hands over texts that have to be descriptors or class
constants and takes other names as they are written; what the class shows is a part of that. Over all events of a
class file the record counts exactly these names, and the first text that is not well formed is the fault
(`ingest_exact`). -/

namespace ModuleAudit
set_option autoImplicit false

open ClassFile

/-! ## Texts that are checked -/

/-- A text that has to be a descriptor, or the name of a class constant. -/
inductive CheckedText where
  | descriptor (text : String)
  | constant (name : String)

namespace CheckedText

def text : CheckedText → String
  | .descriptor text | .constant text => text

/-- The text is well formed, with these classes in it. A class constant that starts with a bracket is an array
type, and any other one is a name. -/
inductive Holds : CheckedText → List String → Prop
  | descriptor {text : String} {tree : Descriptor} {names : List String}
      (derivation : tree.Derives text.toList names) : Holds (.descriptor text) names
  | array {name : String} {type : FieldType} {names : List String}
      (derivation : FieldType.Derives (.array type) name.toList names) : Holds (.constant name) names
  | name {name : String} (nonempty : name ≠ "") (plain : name.toList.head? ≠ some '[') :
      Holds (.constant name) [name]

/-- The classes that reading the text gives. -/
def classes? : CheckedText → Except Failure (List String)
  | .descriptor text => descriptorClasses text
  | .constant name => (elementClass name).map Option.toList

theorem elementClass_of_name {name : String} (nonempty : name ≠ "") (plain : name.toList.head? ≠ some '[') :
    elementClass name = .ok (some name) := by
  rw [elementClass]
  split
  case h_1 hnil => exact absurd (String.toList_eq_nil_iff.mp hnil) nonempty
  case h_2 rest hcons => exact absurd (congrArg List.head? hcons) plain
  case h_3 => rfl

theorem classes?_of_holds {checked : CheckedText} {names : List String} (h : checked.Holds names) :
    checked.classes? = .ok names := by
  cases h with
  | descriptor derivation => exact descriptorClasses_eq_ok_iff.mpr ⟨_, derivation⟩
  | @array name type _ derivation =>
    have harray : name.toList.head? = some '[' := by
      generalize name.toList = text at derivation
      cases derivation
      rfl
    have hnames := derivation.names_eq
    rw [classes?, (elementClass_eq_ok_iff harray).mpr ⟨type, hnames ▸ derivation⟩, hnames]
    rfl
  | name nonempty plain =>
    rw [classes?, elementClass_of_name nonempty plain]
    rfl

theorem holds_of_classes? {checked : CheckedText} {names : List String} (h : checked.classes? = .ok names) :
    checked.Holds names := by
  cases checked with
  | descriptor text =>
    obtain ⟨tree, derivation⟩ := descriptorClasses_eq_ok_iff.mp h
    exact .descriptor derivation
  | constant name =>
    by_cases hname : name = ""
    · rw [classes?, hname] at h
      cases h
    · by_cases harray : name.toList.head? = some '['
      · cases hclass : elementClass name with
        | error failure =>
          rw [classes?, hclass] at h
          cases h
        | ok element =>
          obtain ⟨type, derivation⟩ := (elementClass_eq_ok_iff harray).mp hclass
          rw [classes?, hclass] at h
          exact Except.ok.inj h ▸ .array derivation
      · rw [classes?, elementClass_of_name hname harray] at h
        exact Except.ok.inj h ▸ .name hname harray

/-- A text that is not well formed is refused as it stands. -/
theorem eq_badDescriptor_of_classes? {checked : CheckedText} {failure : Failure}
    (h : checked.classes? = .error failure) : failure = .badDescriptor checked.text := by
  have hdescriptor : ∀ {text : String}, descriptorClasses text = .error failure → failure = .badDescriptor text := by
    intro text h
    rw [descriptorClasses] at h
    split at h
    · cases h
    · exact (Except.error.inj h).symm
  cases checked with
  | descriptor text => exact hdescriptor h
  | constant name =>
    by_cases hname : name = ""
    · subst hname
      exact (Except.error.inj h).symm
    · by_cases harray : name.toList.head? = some '['
      · rw [classes?, elementClass_of_array harray] at h
        cases hclasses : descriptorClasses name with
        | ok names =>
          rw [hclasses] at h
          cases h
        | error other =>
          rw [hclasses] at h
          exact hdescriptor (Except.error.inj h ▸ hclasses)
      · rw [classes?, elementClass_of_name hname harray] at h
        cases h

/-- The classes in a text, none if it is not well formed. -/
def classes (checked : CheckedText) : List String := checked.classes?.toOption.getD []

theorem holds_classes {checked : CheckedText} (h : ∃ names, checked.Holds names) : checked.Holds checked.classes := by
  obtain ⟨names, hholds⟩ := h
  rw [classes, classes?_of_holds hholds]
  exact hholds

/-- What is wrong with a text. -/
def fault? (checked : CheckedText) : Option Failure :=
  match checked.classes? with
  | .ok _ => none
  | .error failure => some failure

theorem fault?_eq_none_iff {checked : CheckedText} : checked.fault? = none ↔ ∃ names, checked.Holds names := by
  rw [fault?]
  cases h : checked.classes? with
  | ok names => exact iff_of_true rfl ⟨names, holds_of_classes? h⟩
  | error failure =>
    refine iff_of_false (fun e => by cases e) ?_
    rintro ⟨names, hholds⟩
    rw [classes?_of_holds hholds] at h
    cases h

theorem fault?_of_not_holds {checked : CheckedText} (h : ¬∃ names, checked.Holds names) :
    checked.fault? = some (.badDescriptor checked.text) := by
  rw [fault?]
  cases hc : checked.classes? with
  | ok names => exact absurd ⟨names, holds_of_classes? hc⟩ h
  | error failure => rw [eq_badDescriptor_of_classes? hc]

end CheckedText

/-! ## Mentions -/

namespace Mention

/-- The name that is mentioned in this way. -/
def named? (kind : RefKind) : Mention → Option String
  | .ok (known, name) => if known = kind then some name else none
  | .error _ => none

def fault? : Mention → Option Failure
  | .ok _ => none
  | .error failure => some failure

theorem named_map_ofName (kind known : RefKind) (names : List String) :
    (names.map (ofName known)).filterMap (named? kind) = if known = kind then names else [] := by
  induction names with
  | nil => simp
  | cons name rest ih =>
    rw [List.map_cons, List.filterMap_cons, ih]
    by_cases h : known = kind
    · simp [named?, ofName, h]
    · simp [named?, ofName, h]

theorem faults_map_ofName (known : RefKind) (names : List String) :
    (names.map (ofName known)).filterMap fault? = [] := by
  rw [List.filterMap_eq_nil_iff]
  intro mention hmem
  obtain ⟨name, -, rfl⟩ := List.mem_map.mp hmem
  rfl

/-- The mentions that a checked text gives. -/
def ofChecked (known : RefKind) : CheckedText → List Mention
  | .descriptor text => ofDescriptor known text
  | .constant name => ofClassConstant known name

theorem ofChecked_of_ok {checked : CheckedText} {names : List String} (h : checked.classes? = .ok names)
    (known : RefKind) : ofChecked known checked = names.map (ofName known) := by
  cases checked with
  | descriptor text =>
    simp only [ofChecked, ofDescriptor]
    rw [show descriptorClasses text = .ok names from h]
  | constant name =>
    simp only [ofChecked, ofClassConstant]
    cases hclass : elementClass name with
    | error failure =>
      rw [CheckedText.classes?, hclass] at h
      cases h
    | ok element =>
      rw [CheckedText.classes?, hclass] at h
      rw [← Except.ok.inj h]

theorem ofChecked_of_error {checked : CheckedText} {failure : Failure} (h : checked.classes? = .error failure)
    (known : RefKind) : ofChecked known checked = [.error failure] := by
  cases checked with
  | descriptor text =>
    simp only [ofChecked, ofDescriptor]
    rw [show descriptorClasses text = .error failure from h]
  | constant name =>
    simp only [ofChecked, ofClassConstant]
    cases hclass : elementClass name with
    | error other =>
      rw [CheckedText.classes?, hclass] at h
      rw [Except.error.inj h]
    | ok element =>
      rw [CheckedText.classes?, hclass] at h
      cases h

theorem named_ofChecked (kind known : RefKind) (checked : CheckedText) :
    (ofChecked known checked).filterMap (named? kind) = if known = kind then checked.classes else [] := by
  rw [CheckedText.classes]
  cases h : checked.classes? with
  | ok names =>
    rw [ofChecked_of_ok h]
    exact named_map_ofName kind known names
  | error failure =>
    rw [ofChecked_of_error h]
    simp [named?, Except.toOption]

theorem faults_ofChecked (known : RefKind) (checked : CheckedText) :
    (ofChecked known checked).filterMap fault? = checked.fault?.toList := by
  rw [CheckedText.fault?]
  cases h : checked.classes? with
  | ok names =>
    rw [ofChecked_of_ok h]
    exact faults_map_ofName known names
  | error failure =>
    rw [ofChecked_of_error h]
    rfl

end Mention

/-! ## Events -/

namespace ClassFile.Event

/-- The texts that an event hands over to be checked, in order. -/
def checked : Event → List CheckedText
  | .header _ _ _ _ | .handler _ | .load (.text _) | .load .other => []
  | .field _ _ descriptor | .method _ _ descriptor | .annotated _ descriptor | .classLiteral descriptor
  | .dynamicCall _ descriptor | .arrayCreation descriptor _ | .load (.methodType descriptor)
  | .localVariable _ descriptor => [.descriptor descriptor]
  | .methodUse _ owner _ descriptor | .fieldUse _ owner _ descriptor => [.descriptor descriptor, .constant owner]
  | .typeUse _ type | .load (.classRef type) => [.constant type]

/-- The names that an event takes as they are written. -/
def plain : Event → List String
  | .header _ _ superName interfaces => superName.toList ++ interfaces
  | .handler type => type.toList
  | _ => []

/-- The names that an event mentions, given the classes in the texts that are checked. -/
def names (classes : CheckedText → List String) (event : Event) : List String :=
  event.plain ++ event.checked.flatMap classes

/-- The names in what a class shows: its supertypes, the types of its public and protected fields, the signatures
of its methods that are neither static nor private, and those of the methods that it calls. -/
def shown (classes : CheckedText → List String) : Event → List String
  | .header _ _ superName interfaces => superName.toList ++ interfaces
  | .field access _ descriptor =>
    if access.testBit 0 || access.testBit 2 then classes (.descriptor descriptor) else []
  | .method access _ descriptor =>
    if access.testBit 3 || access.testBit 1 then [] else classes (.descriptor descriptor)
  | .methodUse _ _ _ descriptor => classes (.descriptor descriptor)
  | _ => []

end ClassFile.Event

theorem and_flags_eq_zero_iff (access i j : Nat) :
    access &&& (1 <<< i ||| 1 <<< j) = 0 ↔ access.testBit i = false ∧ access.testBit j = false := by
  have hflag : ∀ k, access &&& 1 <<< k = 0 ↔ access.testBit k = false := by
    intro k
    rw [Nat.one_shiftLeft, Nat.and_comm, Nat.two_pow_and]
    cases access.testBit k <;> simp
  rw [Nat.and_or_distrib_left, Nat.or_eq_zero_iff, hflag, hflag]

theorem fieldKind_eq (access : Nat) :
    fieldKind access = if access.testBit 0 || access.testBit 2 then .member else .other := by
  have hflags : access &&& (accPublic ||| accProtected) = 0 ↔ _ := and_flags_eq_zero_iff access 0 2
  simp only [fieldKind, ne_eq, hflags]
  cases access.testBit 0 <;> cases access.testBit 2 <;> rfl

theorem methodKind_eq (access : Nat) :
    methodKind access = if access.testBit 3 || access.testBit 1 then .other else .member := by
  have hflags : access &&& (accStatic ||| accPrivate) = 0 ↔ _ := and_flags_eq_zero_iff access 3 1
  simp only [methodKind, hflags]
  cases access.testBit 3 <;> cases access.testBit 1 <;> rfl

namespace ClassFile.Event

/-- How an event mentions the names that it takes as they are written. -/
def plainKind : Event → RefKind
  | .header _ _ _ _ => .member
  | _ => .other

/-- The texts that an event hands over, with how it mentions the classes in them. -/
def handed : Event → List (RefKind × CheckedText)
  | .field access _ descriptor => [(fieldKind access, .descriptor descriptor)]
  | .method access _ descriptor => [(methodKind access, .descriptor descriptor)]
  | .methodUse _ owner _ descriptor => [(.member, .descriptor descriptor), (.other, .constant owner)]
  | event => event.checked.map (.other, ·)

theorem map_snd_handed (event : Event) : event.handed.map Prod.snd = event.checked := by
  cases event with
  | load constant => cases constant <;> rfl
  | _ => rfl

theorem mentions_eq (event : Event) :
    event.mentions = event.plain.map (Mention.ofName event.plainKind) ++
      event.handed.flatMap fun pair => Mention.ofChecked pair.1 pair.2 := by
  cases event with
  | load constant => cases constant <;> simp [mentions, plain, plainKind, handed, checked, Mention.ofChecked]
  | _ => simp [mentions, plain, plainKind, handed, checked, Mention.ofChecked]

theorem named_mentions (event : Event) (kind : RefKind) :
    event.mentions.filterMap (Mention.named? kind) =
      (if event.plainKind = kind then event.plain else []) ++
        event.handed.flatMap fun pair => if pair.1 = kind then pair.2.classes else [] := by
  rw [mentions_eq, List.filterMap_append, Mention.named_map_ofName, List.filterMap_flatMap]
  simp only [Mention.named_ofChecked]

/-- What is mentioned as a part of the members is what the class shows. -/
theorem named_member (event : Event) :
    event.mentions.filterMap (Mention.named? .member) = event.shown CheckedText.classes := by
  rw [named_mentions]
  cases event with
  | field access name descriptor =>
    simp only [plain, plainKind, handed, shown, fieldKind_eq]
    cases access.testBit 0 <;> cases access.testBit 2 <;> simp
  | method access name descriptor =>
    simp only [plain, plainKind, handed, shown, methodKind_eq]
    cases access.testBit 3 <;> cases access.testBit 1 <;> simp
  | load constant => cases constant <;> simp [plainKind, handed, checked, shown]
  | _ => simp [plain, plainKind, handed, checked, shown]

/-- What is mentioned in one way and in the other is all that is mentioned. -/
theorem named_perm (event : Event) :
    (event.mentions.filterMap (Mention.named? .member) ++ event.mentions.filterMap (Mention.named? .other)).Perm
      (event.names CheckedText.classes) := by
  have hhanded : ∀ (name : String) (pairs : List (RefKind × CheckedText)),
      (pairs.flatMap fun pair => if pair.1 = .member then pair.2.classes else []).count name +
        (pairs.flatMap fun pair => if pair.1 = .other then pair.2.classes else []).count name =
          ((pairs.map Prod.snd).flatMap CheckedText.classes).count name := by
    intro name pairs
    induction pairs with
    | nil => rfl
    | cons pair rest ih =>
      obtain ⟨kind, checked⟩ := pair
      simp only [List.flatMap_cons, List.map_cons, List.count_append]
      cases kind <;> simp <;> omega
  refine List.perm_iff_count.mpr fun name => ?_
  have hall := hhanded name event.handed
  rw [map_snd_handed] at hall
  simp only [named_mentions, names, List.count_append, ← hall]
  cases event.plainKind <;> simp <;> omega

theorem faults_mentions (event : Event) :
    event.mentions.filterMap Mention.fault? = event.checked.filterMap CheckedText.fault? := by
  rw [mentions_eq, List.filterMap_append, Mention.faults_map_ofName, List.nil_append, List.filterMap_flatMap,
    ← map_snd_handed, List.filterMap_map]
  simp only [Mention.faults_ofChecked]
  induction event.handed with
  | nil => rfl
  | cons pair rest ih =>
    rw [List.flatMap_cons, ih, List.filterMap_cons]
    cases h : pair.2.fault? <;> simp [h]

end ClassFile.Event

/-! ## Whole class files -/

/-- Counts one more occurrence of each name. -/
def Counts.addAll (counts : Counts) (names : List String) : Counts :=
  names.foldl (fun counts name => counts.add name 1) counts

theorem Counts.addAll_append (counts : Counts) (names others : List String) :
    counts.addAll (names ++ others) = (counts.addAll names).addAll others := List.foldl_append

theorem Counts.get?_addAll (counts : Counts) (names : List String) (name : String) :
    OrderedMap.get? (counts.addAll names) name =
      if names.count name = 0 then OrderedMap.get? counts name
      else some ((OrderedMap.get? counts name).getD 0 + UInt32.ofNat (names.count name)) := by
  induction names generalizing counts with
  | nil => rfl
  | cons first rest ih =>
    have hadd : OrderedMap.get? (counts.add first 1) name = _ := OrderedMap.get?_alter counts first name _
    rw [addAll, List.foldl_cons, ← addAll, ih, hadd, List.count_cons]
    by_cases h : first = name
    · subst h
      have hone : UInt32.ofNat 1 = 1 := rfl
      rw [if_pos rfl, BEq.rfl, if_pos rfl, if_neg (Nat.succ_ne_zero _), Option.getD_some, UInt32.ofNat_add, hone]
      split
      case isTrue hzero => simp [hzero]
      case isFalse => ac_rfl
    · have h' : name ≠ first := fun e => h e.symm
      simp [h, h']

/-- What a counter says of a number of occurrences. It stands for the number modulo `UInt32.size`, and for the number
itself as long as that is a number of 32 bits. What does not occur has no counter. -/
structure Counted (counter : Option UInt32) (occurrences : Nat) : Prop where
  none_iff : counter = none ↔ occurrences = 0
  modulo : ∀ n, counter = some n → n.toNat = occurrences % UInt32.size
  exact_iff : ∀ n, counter = some n → (n.toNat = occurrences ↔ occurrences < UInt32.size)

theorem Counts.counted_addAll_empty (names : List String) (name : String) :
    Counted (OrderedMap.get? (Counts.addAll {} names) name) (names.count name) := by
  have hempty : OrderedMap.get? ({} : Counts) name = none := rfl
  have hmodulo : ∀ n, OrderedMap.get? (Counts.addAll {} names) name = some n →
      n.toNat = names.count name % UInt32.size := by
    intro n hn
    rw [get?_addAll, hempty] at hn
    split at hn
    · cases hn
    · rw [← Option.some.inj hn, Option.getD_none, UInt32.zero_add, UInt32.toNat_ofNat']
  refine ⟨?_, hmodulo, fun n hn => ?_⟩
  · rw [get?_addAll, hempty]
    split
    case isTrue hzero => exact ⟨fun _ => hzero, fun _ => rfl⟩
    case isFalse hmore => exact ⟨fun h => absurd h (Option.some_ne_none _), fun h => absurd h hmore⟩
  · rw [hmodulo n hn]
    exact Nat.mod_eq_iff_lt (by decide)

/-- The counts of the types that are mentioned in one way. -/
def ClassRecord.refsOf (record : ClassRecord) : RefKind → Counts
  | .member => record.memberRefs
  | .other => record.otherRefs

namespace Ingestion

theorem refsOf_mention (state : Ingestion) (mention : Mention) (kind : RefKind) :
    (state.mention mention).record.refsOf kind =
      (state.record.refsOf kind).addAll ((mention.named? kind).toList.map slashed) := by
  cases mention with
  | error failure => rfl
  | ok named =>
    obtain ⟨known, name⟩ := named
    cases known <;> cases kind <;> rfl

theorem fault_mention (state : Ingestion) (mention : Mention) :
    (state.mention mention).fault = state.fault.or mention.fault? := by
  cases mention with
  | error failure => rfl
  | ok named => exact (Option.or_none).symm

theorem refsOf_note (state : Ingestion) (event : Event) (kind : RefKind) :
    (state.note event).record.refsOf kind = state.record.refsOf kind := by
  cases event with
  | header access name superName interfaces => cases kind <;> rfl
  | load constant => cases constant <;> rfl
  | _ => rfl

theorem fault_note (state : Ingestion) (event : Event) : (state.note event).fault = state.fault := by
  cases event with
  | load constant => cases constant <;> rfl
  | _ => rfl

theorem refsOf_add (state : Ingestion) (event : Event) (kind : RefKind) :
    (state.add event).record.refsOf kind =
      (state.record.refsOf kind).addAll ((event.mentions.filterMap (Mention.named? kind)).map slashed) := by
  rw [add, refsOf_note]
  induction event.mentions generalizing state with
  | nil => rfl
  | cons first rest ih =>
    rw [List.foldl_cons, ih, refsOf_mention, ← Counts.addAll_append, ← List.map_append, List.filterMap_cons]
    cases first.named? kind <;> rfl

theorem fault_add (state : Ingestion) (event : Event) :
    (state.add event).fault = state.fault.or (event.checked.filterMap CheckedText.fault?).head? := by
  rw [add, fault_note, ← event.faults_mentions]
  induction event.mentions generalizing state with
  | nil => exact (Option.or_none).symm
  | cons first rest ih =>
    rw [List.foldl_cons, ih, fault_mention, List.filterMap_cons, Option.or_assoc]
    cases first.fault? <;> rfl

theorem refsOf_foldl (state : Ingestion) (events : List Event) (kind : RefKind) :
    (events.foldl add state).record.refsOf kind = (state.record.refsOf kind).addAll
      ((events.flatMap fun event => event.mentions.filterMap (Mention.named? kind)).map slashed) := by
  induction events generalizing state with
  | nil => rfl
  | cons event rest ih =>
    rw [List.foldl_cons, ih, refsOf_add, ← Counts.addAll_append, ← List.map_append, List.flatMap_cons]

theorem fault_foldl (state : Ingestion) (events : List Event) :
    (events.foldl add state).fault =
      state.fault.or ((events.flatMap Event.checked).filterMap CheckedText.fault?).head? := by
  induction events generalizing state with
  | nil => exact (Option.or_none).symm
  | cons event rest ih =>
    rw [List.foldl_cons, ih, fault_add, Option.or_assoc, List.flatMap_cons, List.filterMap_append,
      List.head?_append]

end Ingestion

/-- The texts that the events of a class file hand over, in order. -/
def checkedTexts (bytes : Bytes) : List CheckedText := (read bytes).events.flatMap Event.checked

theorem ingest_result (pool : NamePool) (module : ModuleId) (bytes : Bytes) :
    ∃ record, (∀ kind, record.refsOf kind = Counts.addAll {} (((read bytes).events.flatMap fun event =>
        event.mentions.filterMap (Mention.named? kind)).map slashed)) ∧
      (ingest pool module bytes).2 =
        ((read bytes).failure.or ((checkedTexts bytes).filterMap CheckedText.fault?).head?).elim (.ok record)
          .error := by
  have hrefs := Ingestion.refsOf_foldl { pool, record := { module } } (read bytes).events
  have hfault := Ingestion.fault_foldl { pool, record := { module } } (read bytes).events
  refine ⟨_, fun kind => (hrefs kind).trans (by cases kind <;> rfl), ?_⟩
  simp only [ingest, hfault, Option.none_or, checkedTexts]
  generalize (read bytes).failure.or _ = fault
  cases fault <;> rfl

/-- The names that are mentioned otherwise are those that the class mentions and does not show. -/
theorem count_other (events : List Event) (name : String) :
    ((events.flatMap fun event => event.mentions.filterMap (Mention.named? .other)).map slashed).count name +
      ((events.flatMap (Event.shown CheckedText.classes)).map slashed).count name =
        ((events.flatMap (Event.names CheckedText.classes)).map slashed).count name := by
  have hperm := (List.flatMap_append_perm events (fun event => event.mentions.filterMap (Mention.named? .member))
    fun event => event.mentions.filterMap (Mention.named? .other)).trans
      (List.Perm.flatMap_left events fun event _ => event.named_perm)
  rw [← (hperm.map slashed).count_eq name, List.map_append, List.count_append, Nat.add_comm]
  simp only [Event.named_member]

theorem faults_eq_nil_iff (texts : List CheckedText) :
    texts.filterMap CheckedText.fault? = [] ↔ ∀ checked ∈ texts, ∃ names, checked.Holds names := by
  rw [List.filterMap_eq_nil_iff]
  exact forall₂_congr fun checked _ => CheckedText.fault?_eq_none_iff

theorem ingest_eq_ok_iff {pool : NamePool} {module : ModuleId} {bytes : Bytes} :
    (∃ record, (ingest pool module bytes).2 = .ok record) ↔
      (read bytes).failure = none ∧ ∀ checked ∈ checkedTexts bytes, ∃ names, checked.Holds names := by
  obtain ⟨built, -, hresult⟩ := ingest_result pool module bytes
  rw [hresult, ← faults_eq_nil_iff]
  cases (read bytes).failure with
  | some failure => simp
  | none => cases (checkedTexts bytes).filterMap CheckedText.fault? <;> simp

theorem refsOf_of_ingest {pool : NamePool} {module : ModuleId} {bytes : Bytes} {record : ClassRecord}
    (h : (ingest pool module bytes).2 = .ok record) (kind : RefKind) :
    record.refsOf kind = Counts.addAll {} (((read bytes).events.flatMap fun event =>
      event.mentions.filterMap (Mention.named? kind)).map slashed) := by
  obtain ⟨built, hrefs, hresult⟩ := ingest_result pool module bytes
  rw [hresult] at h
  generalize (read bytes).failure.or _ = fault at h
  cases fault with
  | some failure => cases h
  | none => exact Except.ok.inj h ▸ hrefs kind

theorem mem_loadedTexts {bytes : Bytes} {text : String} :
    text ∈ loadedTexts bytes ↔ Event.load (.text text) ∈ (read bytes).events := by
  rw [loadedTexts, List.mem_filterMap]
  constructor
  · rintro ⟨event, hmem, htext⟩
    unfold Event.text? at htext
    split at htext
    · exact Option.some.inj htext ▸ hmem
    · cases htext
  · intro hmem
    exact ⟨_, hmem, rfl⟩

end ModuleAudit
