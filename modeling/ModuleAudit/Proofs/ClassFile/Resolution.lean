import ModuleAudit.Proofs.ClassFile.PoolBytes

/-! What the indices of a pool stand for. An accessor follows the indices of constants in order (`Walk`). It gives what
it finds at the ends, or the first index that does not hold what is wanted there (`Answers`). -/

namespace ModuleAudit.ClassFile.Format
set_option autoImplicit false

/-! ## Indices -/

section

variable {count first index : Nat} {entries : List Entry} {entry : Entry}

theorem Holds.lt_of_entryFrom {body : Bytes} (h : Holds count first body entries)
    (hentry : entryFrom first entries index = some entry) : index < count := by
  induction h with
  | full h => cases hentry
  | next room spelled more ih =>
    rw [entryFrom] at hentry
    split at hentry
    case isTrue hindex =>
      rw [hindex]
      exact room
    case isFalse => exact ih hentry

theorem entryFrom_eq_none_of_lt (h : index < first) : entryFrom first entries index = none := by
  cases hentry : entryFrom first entries index with
  | none => rfl
  | some entry => exact absurd (heldBy_of_entryFrom hentry).1 (Nat.not_le_of_lt h)

theorem entryFrom_second (h : entryFrom first entries index = some entry) (hwidth : entry.width = 2) :
    entryFrom first entries (index + 1) = none := by
  induction entries generalizing first with
  | nil => rfl
  | cons front rest ih =>
    have hfirst := (heldBy_of_entryFrom h).1
    rw [entryFrom, if_neg (by omega)]
    rw [entryFrom] at h
    split at h
    case isTrue hindex =>
      obtain rfl := Option.some.inj h
      exact entryFrom_eq_none_of_lt (by omega)
    case isFalse => exact ih h

/-- At an index without a constant a pool holds nothing. -/
theorem heldBy_of_entryFrom_none (h : entryFrom first entries index = none) (hfirst : first ≤ index) :
    (heldBy entries)[index - first]? = none ∨ (heldBy entries)[index - first]? = some .nothing := by
  induction entries generalizing first with
  | nil => exact .inl rfl
  | cons front rest ih =>
    rw [entryFrom] at h
    split at h
    case isTrue => cases h
    case isFalse hindex =>
      rw [heldBy]
      rcases Entry.width_cases front with ⟨hwidth, -⟩ | ⟨hwidth, -⟩
      · have hoffset : index - first = index - (first + front.width) + 1 := by omega
        rw [hwidth, if_neg (by decide), hoffset]
        exact ih h (by omega)
      · rw [hwidth, if_pos rfl]
        by_cases hsecond : index = first + 1
        · rw [hsecond, Nat.add_sub_cancel_left]
          exact .inr rfl
        · have hoffset : index - first = index - (first + front.width) + 2 := by omega
          rw [hoffset]
          exact ih h (by omega)

end

section

variable {pool : List Entry} {index : UInt16}

theorem get_of_entryAt_none (h : entryAt pool index = none) : (poolOf pool).get index.toNat = .ok .nothing ∨
    (poolOf pool).get index.toNat = .error (.badConstant index.toNat) := by
  have hheld : (poolOf pool).constants[index.toNat]? = none ∨
      (poolOf pool).constants[index.toNat]? = some .nothing := by
    rw [poolOf, List.getElem?_toArray]
    rcases hindex : index.toNat with _ | offset
    · exact .inr rfl
    · rw [entryAt, hindex] at h
      exact heldBy_of_entryFrom_none h (Nat.le_add_left 1 offset)
  rcases hheld with hnone | hnothing
  · exact .inr (by rw [ConstantPool.get, hnone])
  · exact .inl (by rw [ConstantPool.get, hnothing])

/-! ## Chains of indices -/

/-- What is wanted at an index. -/
inductive Kind where
  | text
  | type
  | nameAndType
  | member
  | call
  | loadable

/-- The indices that a constant of a kind goes on to, in order, each with what is wanted there. Constants of other
kinds are refused. -/
def Kind.links : Kind → Entry → Option (List (Kind × UInt16))
  | .text, .utf8 _ => some []
  | .type, .classRef name => some [(.text, name)]
  | .nameAndType, .nameAndType name descriptor => some [(.text, name), (.text, descriptor)]
  | .member, .fieldRef owner signature | .member, .methodRef owner signature
  | .member, .interfaceMethodRef owner signature => some [(.type, owner), (.nameAndType, signature)]
  | .call, .invokeDynamic _ signature => some [(.nameAndType, signature)]
  | .loadable, .classRef name | .loadable, .string name | .loadable, .methodType name => some [(.text, name)]
  | .loadable, .integer _ | .loadable, .float _ | .loadable, .long _ _ | .loadable, .double _ _
  | .loadable, .methodHandle _ _ | .loadable, .dynamic _ _ | .loadable, .module _ | .loadable, .package _ => some []
  | _, _ => none

/-- A walk along the indices of a row. The indices that a constant goes on to come before the rest of the row. The walk
ends with the first index that does not hold what is wanted there, if there is one. -/
inductive Walk (pool : List Entry) : List (Kind × UInt16) → Option UInt16 → Prop
  | done : Walk pool [] none
  | stop {kind : Kind} {index : UInt16} {rest : List (Kind × UInt16)}
      (h : (entryAt pool index).bind kind.links = none) : Walk pool ((kind, index) :: rest) (some index)
  | follow {kind : Kind} {index : UInt16} {links rest : List (Kind × UInt16)} {bad : Option UInt16}
      (h : (entryAt pool index).bind kind.links = some links) (more : Walk pool (links ++ rest) bad) :
      Walk pool ((kind, index) :: rest) bad

theorem Walk.unique {row : List (Kind × UInt16)} {bad other : Option UInt16} (h : Walk pool row bad)
    (h' : Walk pool row other) : bad = other := by
  induction h with
  | done =>
    cases h' with
    | done => rfl
  | stop h =>
    cases h' with
    | stop => rfl
    | follow hlinks => cases h.symm.trans hlinks
  | follow h more ih =>
    cases h' with
    | stop hnone => cases h.symm.trans hnone
    | follow hlinks more' =>
      obtain rfl := Option.some.inj (h.symm.trans hlinks)
      exact ih more'

/-- A constant of a kind as a pool holds it. -/
def Kind.takes : Kind → Constant → Bool
  | .text, .utf8 _ => true
  | .type, .classRef _ => true
  | .nameAndType, .nameAndType _ _ => true
  | .member, .memberRef _ _ => true
  | .call, .dynamicCall _ => true
  | .loadable, .classRef _ | .loadable, .string _ | .loadable, .methodType _ | .loadable, .other => true
  | _, _ => false

theorem takes_held (kind : Kind) (entry : Entry) : kind.takes entry.held = (kind.links entry).isSome := by
  cases kind <;> cases entry <;> rfl

/-! ## What an accessor gives -/

/-- How an accessor ends at an index, wherever the index stands in a row: with a value, and the walk goes on, or with
the index at which the walk ends. -/
inductive Resolves {α : Type} (pool : List Entry) (kind : Kind) (index : UInt16) (Denotes : α → Prop) :
    Except Failure α → Prop
  | found {value : α} (denotes : Denotes value)
      (goes : ∀ rest bad, Walk pool rest bad → Walk pool ((kind, index) :: rest) bad) :
      Resolves pool kind index Denotes (.ok value)
  | lost {bad : UInt16} (ends : ∀ rest, Walk pool ((kind, index) :: rest) (some bad)) :
      Resolves pool kind index Denotes (.error (.badConstant bad.toNat))

section

variable {α β γ : Type} {kind first second : Kind} {index index' index'' : UInt16} {DenotesA : α → Prop}
  {DenotesB : β → Prop} {DenotesC : γ → Prop}

/-- An accessor that refuses the constants of other kinds is known by what it does with those of its own. -/
theorem Resolves.of_links {next : Constant → Except Failure α}
    (hother : ∀ constant, kind.takes constant = false → next constant = .error (.badConstant index.toNat))
    (hown : ∀ entry links, entryAt pool index = some entry → kind.links entry = some links →
      (entryAt pool index).bind kind.links = some links → Resolves pool kind index DenotesA (next entry.held)) :
    Resolves pool kind index DenotesA ((poolOf pool).get index.toNat >>= next) := by
  cases hlinks : (entryAt pool index).bind kind.links with
  | some links =>
    obtain ⟨entry, hentry, hkind⟩ := Option.bind_eq_some_iff.mp hlinks
    rw [get_poolOf hentry]
    exact hown entry links hentry hkind hlinks
  | none =>
    have hfails : ((poolOf pool).get index.toNat >>= next) = .error (.badConstant index.toNat) := by
      cases hentry : entryAt pool index with
      | none =>
        rcases get_of_entryAt_none hentry with hget | hget
        · rw [hget]
          exact hother .nothing (by cases kind <;> rfl)
        · rw [hget]
          rfl
      | some entry =>
        rw [hentry, Option.bind_some] at hlinks
        rw [get_poolOf hentry]
        exact hother entry.held (by rw [takes_held, hlinks]; rfl)
    rw [hfails]
    exact .lost fun rest => .stop hlinks

theorem Resolves.single {answer : Except Failure α} {f : α → β} (h : Resolves pool first index' DenotesA answer)
    (hlinks : (entryAt pool index).bind kind.links = some [(first, index')])
    (hdenotes : ∀ a, DenotesA a → DenotesB (f a)) : Resolves pool kind index DenotesB (answer.map f) := by
  cases h with
  | found denotes goes => exact .found (hdenotes _ denotes) fun rest bad h => .follow hlinks (goes rest bad h)
  | lost ends => exact .lost fun rest => .follow hlinks (ends rest)

theorem Resolves.same {answer : Except Failure α} {Denotes : α → Prop} (h : Resolves pool first index' DenotesA answer)
    (hlinks : (entryAt pool index).bind kind.links = some [(first, index')])
    (hdenotes : ∀ a, DenotesA a → Denotes a) : Resolves pool kind index Denotes answer := by
  have hsingle := h.single (f := id) hlinks hdenotes
  rwa [Except.map_id] at hsingle

theorem Resolves.pair {answer : Except Failure α} {answer' : Except Failure β} {f : α → β → γ}
    (h : Resolves pool first index' DenotesA answer) (h' : Resolves pool second index'' DenotesB answer')
    (hlinks : (entryAt pool index).bind kind.links = some [(first, index'), (second, index'')])
    (hdenotes : ∀ a b, DenotesA a → DenotesB b → DenotesC (f a b)) :
    Resolves pool kind index DenotesC (answer >>= fun a => answer' >>= fun b => pure (f a b)) := by
  cases h with
  | lost ends => exact .lost fun rest => .follow hlinks (ends _)
  | found denotes goes =>
    cases h' with
    | lost ends => exact .lost fun rest => .follow hlinks (goes _ _ (ends rest))
    | found denotes' goes' =>
      exact .found (hdenotes _ _ denotes denotes') fun rest bad h => .follow hlinks (goes _ _ (goes' rest bad h))

end

theorem resolves_utf8 (index : UInt16) :
    Resolves pool .text index (fun text => ∃ ref : TextRef pool, ref.index = index ∧ ref.text = text)
      ((poolOf pool).utf8 index.toNat) := by
  refine .of_links (fun constant htakes => ?_) fun entry links hentry hkind hlinks => ?_
  · cases constant with
    | utf8 text => cases htakes
    | _ => rfl
  · cases entry with
    | utf8 text =>
      cases hkind
      exact .found ⟨⟨index, text, hentry⟩, rfl, rfl⟩ fun rest bad h => .follow hlinks h
    | _ => cases hkind

theorem resolves_className (index : UInt16) :
    Resolves pool .type index (fun name => ∃ ref : ClassRef pool, ref.index = index ∧ ref.name.text = name)
      ((poolOf pool).className index.toNat) := by
  refine .of_links (fun constant htakes => ?_) fun entry links hentry hkind hlinks => ?_
  · cases constant with
    | classRef name => cases htakes
    | _ => rfl
  · cases entry with
    | classRef name =>
      cases hkind
      refine (resolves_utf8 name).same hlinks ?_
      rintro text ⟨ref, rfl, rfl⟩
      exact ⟨⟨index, ref, hentry⟩, rfl, rfl⟩
    | _ => cases hkind

theorem resolves_nameAndType (index : UInt16) :
    Resolves pool .nameAndType index (fun names => ∃ ref : NameAndTypeRef pool, ref.index = index ∧
      (ref.name.text, ref.descriptor.text) = names) ((poolOf pool).nameAndType index.toNat) := by
  refine .of_links (fun constant htakes => ?_) fun entry links hentry hkind hlinks => ?_
  · cases constant with
    | nameAndType name descriptor => cases htakes
    | _ => rfl
  · cases entry with
    | nameAndType name descriptor =>
      cases hkind
      refine (resolves_utf8 name).pair (resolves_utf8 descriptor) hlinks ?_
      rintro _ _ ⟨ref, rfl, rfl⟩ ⟨ref', rfl, rfl⟩
      exact ⟨⟨index, ref, ref', hentry⟩, rfl, rfl⟩
    | _ => cases hkind

theorem resolves_memberRef (index : UInt16) :
    Resolves pool .member index (fun names => ∃ ref : MemberRef pool, ref.index = index ∧
      (ref.owner.name.text, ref.member.name.text, ref.member.descriptor.text) = names)
      ((poolOf pool).memberRef index.toNat) := by
  have hown : ∀ owner signature, entryAt pool index ∈ [some (Entry.fieldRef owner signature),
      some (.methodRef owner signature), some (.interfaceMethodRef owner signature)] →
      (entryAt pool index).bind Kind.member.links = some [(.type, owner), (.nameAndType, signature)] →
      Resolves pool .member index (fun names => ∃ ref : MemberRef pool, ref.index = index ∧
        (ref.owner.name.text, ref.member.name.text, ref.member.descriptor.text) = names)
        ((poolOf pool).className owner.toNat >>= fun owner => (poolOf pool).nameAndType signature.toNat >>=
          fun names => pure (owner, names)) := by
    intro owner signature hentry hlinks
    refine (resolves_className owner).pair (resolves_nameAndType signature) hlinks ?_
    rintro _ _ ⟨ref, rfl, rfl⟩ ⟨ref', rfl, rfl⟩
    exact ⟨⟨index, ref, ref', hentry⟩, rfl, rfl⟩
  refine .of_links (fun constant htakes => ?_) fun entry links hentry hkind hlinks => ?_
  · cases constant with
    | memberRef owner signature => cases htakes
    | _ => rfl
  · cases entry with
    | fieldRef owner signature =>
      cases hkind
      exact hown owner signature (by simp [hentry]) hlinks
    | methodRef owner signature =>
      cases hkind
      exact hown owner signature (by simp [hentry]) hlinks
    | interfaceMethodRef owner signature =>
      cases hkind
      exact hown owner signature (by simp [hentry]) hlinks
    | _ => cases hkind

theorem resolves_dynamicCall (index : UInt16) :
    Resolves pool .call index (fun names => ∃ ref : CallSiteRef pool, ref.index = index ∧
      (ref.call.name.text, ref.call.descriptor.text) = names) ((poolOf pool).dynamicCall index.toNat) := by
  refine .of_links (fun constant htakes => ?_) fun entry links hentry hkind hlinks => ?_
  · cases constant with
    | dynamicCall signature => cases htakes
    | _ => rfl
  · cases entry with
    | invokeDynamic bootstrap signature =>
      cases hkind
      refine (resolves_nameAndType signature).same hlinks ?_
      rintro names ⟨ref, rfl, rfl⟩
      exact ⟨⟨index, bootstrap, ref, hentry⟩, rfl, rfl⟩
    | _ => cases hkind

/-- What loading the constant at an index gives. The names of modules and packages are no values, but are not told from
them. -/
inductive Loads (pool : List Entry) : UInt16 → LoadedConstant → Prop
  | ref (ref : LoadableRef pool) : Loads pool ref.index ref.loaded
  | module {index name : UInt16} (h : entryAt pool index = some (.module name)) : Loads pool index .other
  | package {index name : UInt16} (h : entryAt pool index = some (.package name)) : Loads pool index .other

theorem loaded_of_loads {constant : LoadedConstant} (h : Loads pool index constant) :
    (poolOf pool).loaded index.toNat = .ok constant := by
  cases h with
  | ref ref => exact loaded_poolOf ref
  | module h =>
    rw [ConstantPool.loaded, get_poolOf h]
    rfl
  | package h =>
    rw [ConstantPool.loaded, get_poolOf h]
    rfl

theorem resolves_loaded (index : UInt16) :
    Resolves pool .loadable index (Loads pool index) ((poolOf pool).loaded index.toNat) := by
  refine .of_links (fun constant htakes => ?_) fun entry links hentry hkind hlinks => ?_
  · cases constant with
    | classRef name => cases htakes
    | string text => cases htakes
    | methodType descriptor => cases htakes
    | other => cases htakes
    | _ => rfl
  · cases entry with
    | classRef name =>
      cases hkind
      refine (resolves_utf8 name).single hlinks ?_
      rintro _ ⟨ref, rfl, rfl⟩
      exact .ref (.classRef ⟨index, ref, hentry⟩)
    | string text =>
      cases hkind
      refine (resolves_utf8 text).single hlinks ?_
      rintro _ ⟨ref, rfl, rfl⟩
      exact .ref (.string index ref hentry)
    | methodType descriptor =>
      cases hkind
      refine (resolves_utf8 descriptor).single hlinks ?_
      rintro _ ⟨ref, rfl, rfl⟩
      exact .ref (.methodType index ref hentry)
    | module name =>
      cases hkind
      exact .found (.module hentry) fun rest bad h => .follow hlinks h
    | package name =>
      cases hkind
      exact .found (.package hentry) fun rest bad h => .follow hlinks h
    | utf8 text => cases hkind
    | fieldRef owner signature => cases hkind
    | methodRef owner signature => cases hkind
    | interfaceMethodRef owner signature => cases hkind
    | nameAndType name descriptor => cases hkind
    | invokeDynamic bootstrap signature => cases hkind
    | _ =>
      cases hkind
      exact .found (.ref (.value index _ hentry rfl)) fun rest bad h => .follow hlinks h

/-- What an accessor answers at every index: a value exactly if the constants along the chain denote it, and otherwise
the first index in the chain that is at fault. -/
structure Answers {α : Type} (pool : List Entry) (kind : Kind) (Denotes : UInt16 → α → Prop)
    (accessor : Nat → Except Failure α) : Prop where
  ok_iff : ∀ index value, accessor index.toNat = .ok value ↔ Denotes index value
  error_iff : ∀ index failure, accessor index.toNat = .error failure ↔
    ∃ bad : UInt16, failure = .badConstant bad.toNat ∧ Walk pool [(kind, index)] (some bad)

theorem answers_of_resolves {α : Type} {kind : Kind} {Denotes : UInt16 → α → Prop}
    {accessor : Nat → Except Failure α}
    (h : ∀ index, Resolves pool kind index (Denotes index) (accessor index.toNat))
    (hok : ∀ index value, Denotes index value → accessor index.toNat = .ok value) :
    Answers pool kind Denotes accessor where
  ok_iff index value := by
    refine ⟨fun hvalue => ?_, hok index value⟩
    have hresolves := h index
    rw [hvalue] at hresolves
    cases hresolves with
    | found denotes goes => exact denotes
  error_iff index failure := by
    have hresolves := h index
    constructor
    · intro hfailure
      rw [hfailure] at hresolves
      cases hresolves with
      | @lost bad ends => exact ⟨bad, rfl, ends []⟩
    · rintro ⟨bad, rfl, hwalk⟩
      cases hanswer : accessor index.toNat with
      | ok value =>
        rw [hanswer] at hresolves
        cases hresolves with
        | found denotes goes => cases hwalk.unique (goes [] none .done)
      | error failure =>
        rw [hanswer] at hresolves
        cases hresolves with
        | @lost bad' ends =>
          obtain rfl := Option.some.inj (hwalk.unique (ends []))
          rfl

end

/-- The indices of a pool that was scanned stand for the constants in its bytes, whichever way the bytes are divided
into constants. A constant is at an index from one on and below the number of indices, and there is none at the second
index of one that takes two. -/
theorem accessors_exact {bytes rest : Bytes} {pool : ConstantPool}
    (h : (ConstantPool.scan bytes).result = .ok (pool, rest)) :
    (∃ count entries, IsPool bytes count entries rest) ∧
    ∀ count entries after, IsPool bytes count entries after →
      (∀ index entry, entryAt entries index = some entry →
        1 ≤ index ∧ index < count ∧ (entry.width = 2 → entryAt entries (index + 1) = none)) ∧
      Answers entries .text (fun index text => ∃ ref : TextRef entries, ref.index = index ∧ ref.text = text)
        pool.utf8 ∧
      Answers entries .type (fun index name => ∃ ref : ClassRef entries, ref.index = index ∧ ref.name.text = name)
        pool.className ∧
      Answers entries .nameAndType (fun index names => ∃ ref : NameAndTypeRef entries, ref.index = index ∧
        (ref.name.text, ref.descriptor.text) = names) pool.nameAndType ∧
      Answers entries .member (fun index names => ∃ ref : MemberRef entries, ref.index = index ∧
        (ref.owner.name.text, ref.member.name.text, ref.member.descriptor.text) = names) pool.memberRef ∧
      Answers entries .call (fun index names => ∃ ref : CallSiteRef entries, ref.index = index ∧
        (ref.call.name.text, ref.call.descriptor.text) = names) pool.dynamicCall ∧
      Answers entries .loadable (Loads entries) pool.loaded := by
  refine ⟨exists_isPool_of_scan h, fun count entries after hpool => ?_⟩
  rw [hpool.scan_eq] at h
  obtain ⟨rfl, rfl⟩ := Prod.mk.inj (Except.ok.inj h)
  obtain ⟨body, -, hbody⟩ := hpool
  refine ⟨fun index entry hentry => ?_, answers_of_resolves resolves_utf8 ?_, answers_of_resolves resolves_className ?_,
    answers_of_resolves resolves_nameAndType ?_, answers_of_resolves resolves_memberRef ?_,
    answers_of_resolves resolves_dynamicCall ?_,
    answers_of_resolves resolves_loaded fun index value hloads => loaded_of_loads hloads⟩
  · have hfirst : 1 ≤ index.toNat := (heldBy_of_entryFrom hentry).1
    have hcount : index.toNat < count.toNat := hbody.lt_of_entryFrom hentry
    refine ⟨UInt16.le_iff_toNat_le.mpr hfirst, UInt16.lt_iff_toNat_lt.mpr hcount, fun hwidth => ?_⟩
    have hnext : (index + 1).toNat = index.toNat + 1 := by
      have hlimit := count.toNat_lt
      rw [UInt16.toNat_add, show UInt16.toNat 1 = 1 from rfl]
      exact Nat.mod_eq_of_lt (by omega)
    rw [entryAt, hnext]
    exact entryFrom_second hentry hwidth
  · rintro index _ ⟨ref, rfl, rfl⟩
    exact utf8_poolOf ref
  · rintro index _ ⟨ref, rfl, rfl⟩
    exact className_poolOf ref
  · rintro index _ ⟨ref, rfl, rfl⟩
    exact nameAndType_poolOf ref
  · rintro index _ ⟨ref, rfl, rfl⟩
    exact memberRef_poolOf ref
  · rintro index _ ⟨ref, rfl, rfl⟩
    exact dynamicCall_poolOf ref

/-- A text that is not UTF-8, two classes, and a number whose second index is one too many. The second class is named by
the number. -/
def overrun : Bytes := [0, 5, 1, 0, 2, 0x41, 0xC0, 7, 0, 1, 7, 0, 4, 5, 0, 0, 0, 0, 0, 0, 0, 9, 0xFF]

theorem accessors_exact_overrun : ∃ pool, (ConstantPool.scan overrun).result = .ok (pool, [0xFF]) ∧
    pool.className 2 = .ok "A\uFFFD" ∧ pool.className 3 = .error (.badConstant 4) ∧ pool.loaded 4 = .ok .other ∧
    pool.loaded 5 = .error (.badConstant 5) := by
  have hbody : Holds 5 1 _ [.utf8 (Utf8.lossy [0x41, 0xC0]), .classRef 1, .classRef 4, .long 0 9] :=
    .next (by decide) (.text (by decide)) (.next (by decide) (.other rfl) (.next (by decide) (.other rfl)
      (.next (by decide) (.other rfl) (.full (by decide)))))
  have hpool : IsPool overrun 5 _ [0xFF] := ⟨_, rfl, hbody⟩
  have hscan := congrArg Outcome.result hpool.scan_eq
  obtain ⟨-, -, htype, -, -, -, hload⟩ := (accessors_exact hscan).2 _ _ _ hpool
  refine ⟨_, hscan, (htype.ok_iff 2 _).mpr ⟨⟨2, ⟨1, _, rfl⟩, rfl⟩, rfl, by decide +kernel⟩,
    (htype.error_iff 3 _).mpr ⟨4, rfl, .follow rfl (.stop rfl)⟩, ?_, (hload.error_iff 5 _).mpr ⟨5, rfl, .stop rfl⟩⟩
  exact (hload.ok_iff 4 _).mpr (.ref (.value 4 (.long 0 9) rfl rfl))

end ModuleAudit.ClassFile.Format
