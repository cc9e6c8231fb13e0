import Mathlib.Data.Finset.Card
import Mathlib.Data.Finset.Dedup
import ModuleAudit.Proofs.Naming
import ModuleAudit.Proofs.Text

/-! A pool of names in use. `PoolUse` keeps beside a pool what was asked of it in plain texts: the texts that had to be
pooled, and the symbols it gave with the text that each was asked for. After any row of calls the pool holds just those
texts, and it finds each text under the symbol that was given for it (`PoolUse.Sound`). -/

namespace ModuleAudit
set_option autoImplicit false

/-! ## Packages of names -/

theorem packageOf?_eq_none_iff {typeName : String} : packageOf? typeName = none ↔ '/' ∉ typeName.toList := by
  rw [packageOf?, Option.map_eq_none_iff, Text.cutLast_eq_none_iff]

theorem packageOf?_eq_some_iff {typeName package : String} : packageOf? typeName = some package ↔
    ∃ last, typeName.toList = package.toList ++ '/' :: last ∧ '/' ∉ last := by
  rw [packageOf?, Option.map_eq_some_iff]
  constructor
  · rintro ⟨⟨before, last⟩, hcut, rfl⟩
    exact ⟨last, by simpa using Text.append_of_cutLast hcut⟩
  · rintro ⟨last, hname, hlast⟩
    rw [hname]
    exact ⟨(package.toList, last), Text.cutLast_append hlast _, String.ofList_toList⟩

/-! ## Calls -/

/-- A call on a pool that pools a name or asks for a symbol. -/
inductive PoolCall where
  | intern (name : String)
  | internPath (name : String)
  | internPackage (typeName : Symbol)
  | addLiteral (text : String)
  | lookup (name : String)
  | lookupPackage (typeName : Symbol)
  deriving Repr, DecidableEq

/-- The pool after a call, and the symbol that the call gives. -/
def PoolCall.perform (pool : NamePool) : PoolCall → NamePool × Option Symbol
  | .intern name => ((pool.intern name).1, some (pool.intern name).2)
  | .internPath name => ((pool.internPath name).1, some (pool.internPath name).2)
  | .internPackage typeName => pool.internPackage typeName
  | .addLiteral text => (pool.addLiteral text, none)
  | .lookup name => (pool, pool.lookup? name)
  | .lookupPackage typeName => (pool, pool.lookupPackage? typeName)

/-- Whether a call pools the text it asks for. -/
def PoolCall.pools : PoolCall → Bool
  | .intern _ | .internPath _ | .internPackage _ | .addLiteral _ => true
  | .lookup _ | .lookupPackage _ => false

/-- A pool with what was asked of it so far. -/
structure PoolUse where
  pool : NamePool := {}
  /-- The texts that calls pooled, in order and with repetitions. -/
  pooled : List String := []
  /-- The symbols that calls gave, each with the text it was asked for. -/
  given : List (Symbol × String) := []
  deriving Repr, DecidableEq

namespace PoolUse

/-- The text that a symbol was given for. -/
def textOf? (use : PoolUse) (symbol : Symbol) : Option String :=
  (use.given.find? fun entry => entry.1 = symbol).map (·.2)

/-- The text that a call asks for, which is none for the package of a type without one. A symbol has to be one that
was given. -/
def asked? (use : PoolUse) : PoolCall → Option (Option String)
  | .intern name | .addLiteral name | .lookup name => some (some name)
  | .internPath name => some (some (String.ofList (name.toList.map fun c => if c = '.' then '/' else c)))
  | .internPackage typeName | .lookupPackage typeName => (use.textOf? typeName).map packageOf?

/-- The pool and the record of its use after a call. -/
def step? (use : PoolUse) (call : PoolCall) : Option PoolUse :=
  (use.asked? call).map fun asked =>
    { pool := (call.perform use.pool).1
      pooled := use.pooled ++ if call.pools then asked.toList else []
      given := use.given ++ ((call.perform use.pool).2.bind fun symbol => asked.map (symbol, ·)).toList }

/-- The pool and the record of its use after a row of calls. -/
def run? (use : PoolUse) : List PoolCall → Option PoolUse
  | [] => some use
  | call :: calls => (use.step? call).bind (·.run? calls)

/-- The pool holds the texts that were pooled, and finds the texts that symbols were given for under these symbols. -/
structure Sound (use : PoolUse) : Prop where
  pooled : ∀ text, text ∈ use.pool.names.toList ↔ text ∈ use.pooled
  given : ∀ symbol text, (symbol, text) ∈ use.given → use.pool.lookup? text = some symbol

theorem mem_of_textOf? {use : PoolUse} {symbol : Symbol} {text : String} (h : use.textOf? symbol = some text) :
    (symbol, text) ∈ use.given := by
  obtain ⟨entry, hfound, rfl⟩ := Option.map_eq_some_iff.mp h
  obtain rfl : entry.1 = symbol := by simpa using List.find?_some hfound
  exact List.mem_of_find?_eq_some hfound

section Sound

variable {use later : PoolUse} (h : use.Sound)
include h

theorem Sound.resolve?_eq {symbol : Symbol} {text : String} (hgiven : (symbol, text) ∈ use.given) :
    use.pool.resolve? symbol = some text := NamePool.lookup?_eq_some_iff.mp (h.given symbol text hgiven)

theorem Sound.symbols_eq_iff {s t : Symbol} {a b : String} (hs : (s, a) ∈ use.given) (ht : (t, b) ∈ use.given) :
    s = t ↔ a = b := by
  constructor
  · rintro rfl
    exact Option.some.inj ((h.resolve?_eq hs).symm.trans (h.resolve?_eq ht))
  · rintro rfl
    exact Option.some.inj ((h.given s a hs).symm.trans (h.given t a ht))

/-- A symbol that was given stands for its text, so the package that a call asks for is the one of that text. -/
theorem Sound.package_eq {typeName : Symbol} {asked : Option String}
    (hasked : (use.textOf? typeName).map packageOf? = some asked) :
    (use.pool.resolve? typeName).bind packageOf? = asked := by
  obtain ⟨text, htext, rfl⟩ := Option.map_eq_some_iff.mp hasked
  rw [h.resolve?_eq (mem_of_textOf? htext), Option.bind_some]

/-- A call that pools the text it asks for adds just that text, and the others add nothing. -/
theorem Sound.names_perform {call : PoolCall} {asked : Option String} (hasked : use.asked? call = some asked) :
    (call.perform use.pool).1.names =
      if call.pools then (asked.elim use.pool use.pool.add).names else use.pool.names := by
  cases call with
  | intern name | internPath name | addLiteral text =>
    obtain rfl := Option.some.inj hasked
    rfl
  | lookup name | lookupPackage typeName => rfl
  | internPackage typeName =>
    simp only [PoolCall.perform, NamePool.internPackage, h.package_eq hasked, PoolCall.pools, if_true]
    cases asked with
    | none => rfl
    | some package => rfl

/-- The symbol that a call gives is the one that the text it asks for has after the call. -/
theorem Sound.lookup?_perform {call : PoolCall} {text : String} (hasked : use.asked? call = some (some text))
    {symbol : Symbol} (hgiven : (call.perform use.pool).2 = some symbol) :
    (call.perform use.pool).1.lookup? text = some symbol := by
  have hintern : ∀ name, (use.pool.intern name).1.lookup? name = some (use.pool.intern name).2 := by
    intro name
    obtain ⟨symbol, he, hs⟩ := use.pool.intern_eq name
    rw [he]
    exact hs
  cases call with
  | intern name | internPath name =>
    cases hasked
    obtain rfl := Option.some.inj hgiven
    exact hintern _
  | internPackage typeName =>
    simp only [PoolCall.perform, NamePool.internPackage, h.package_eq hasked] at hgiven ⊢
    obtain rfl := Option.some.inj hgiven
    exact hintern text
  | addLiteral literal => cases hgiven
  | lookup name =>
    cases hasked
    exact hgiven
  | lookupPackage typeName =>
    rw [PoolCall.perform, NamePool.lookupPackage?, h.package_eq hasked] at hgiven
    exact hgiven

theorem Sound.mem_names_perform {call : PoolCall} {asked : Option String} (hasked : use.asked? call = some asked)
    (text : String) : text ∈ (call.perform use.pool).1.names.toList ↔
      text ∈ use.pool.names.toList ∨ call.pools = true ∧ text ∈ asked := by
  rw [h.names_perform hasked]
  cases call.pools with
  | false => simp
  | true =>
    cases asked with
    | none => simp
    | some added => simp [NamePool.add, eq_comm]

theorem Sound.lookup?_of_perform {call : PoolCall} {asked : Option String} (hasked : use.asked? call = some asked)
    {text : String} {symbol : Symbol} (hs : use.pool.lookup? text = some symbol) :
    (call.perform use.pool).1.lookup? text = some symbol := by
  rw [NamePool.lookup?, h.names_perform hasked]
  split
  · cases asked with
    | none => exact hs
    | some added => exact NamePool.lookup?_add hs added
  · exact hs

theorem Sound.step {call : PoolCall} (hstep : use.step? call = some later) : later.Sound := by
  obtain ⟨asked, hasked, rfl⟩ := Option.map_eq_some_iff.mp hstep
  constructor
  · intro text
    rw [h.mem_names_perform hasked, h.pooled, List.mem_append]
    refine or_congr_right ?_
    cases call.pools with
    | false => simp
    | true => simp
  · intro symbol text hm
    rcases List.mem_append.mp hm with hold | hnew
    · exact h.lookup?_of_perform hasked (h.given symbol text hold)
    · simp only [Option.mem_toList, Option.bind_eq_some_iff, Option.map_eq_some_iff] at hnew
      obtain ⟨_, hgiven, _, rfl, he⟩ := hnew
      cases he
      exact h.lookup?_perform hasked hgiven

end Sound

/-! ## Rows of calls -/

theorem sound_empty : Sound {} := ⟨by simp, by simp⟩

theorem hasLiteral_step {use later : PoolUse} {call : PoolCall} (h : use.step? call = some later) (text : String) :
    later.pool.hasLiteral text = true ↔ use.pool.hasLiteral text = true ∨ call = .addLiteral text := by
  obtain ⟨asked, -, rfl⟩ := Option.map_eq_some_iff.mp h
  cases call with
  | addLiteral literal =>
    rw [PoolCall.addLiteral.injEq, eq_comm (a := literal)]
    exact use.pool.hasLiteral_addLiteral literal text
  | internPackage typeName =>
    simp only [PoolCall.perform, NamePool.internPackage, reduceCtorEq, or_false]
    split
    · exact Bool.eq_iff_iff.mp (congrFun (use.pool.hasLiteral_add _) text)
    · rfl
  | _ => simp [PoolCall.perform, NamePool.intern, NamePool.internPath]

section Runs

variable {use later : PoolUse} {calls : List PoolCall}

theorem Sound.run (h : use.Sound) (hrun : use.run? calls = some later) : later.Sound := by
  induction calls generalizing use with
  | nil =>
    cases hrun
    exact h
  | cons call calls ih =>
    obtain ⟨next, hstep, hrest⟩ := Option.bind_eq_some_iff.mp hrun
    exact ih (h.step hstep) hrest

/-- No symbol that was given is forgotten. -/
theorem given_subset_run (hrun : use.run? calls = some later) : use.given ⊆ later.given := by
  induction calls generalizing use with
  | nil =>
    cases hrun
    exact fun _ h => h
  | cons call calls ih =>
    obtain ⟨next, hstep, hrest⟩ := Option.bind_eq_some_iff.mp hrun
    obtain ⟨asked, -, rfl⟩ := Option.map_eq_some_iff.mp hstep
    exact fun entry he => ih hrest (List.mem_append_left _ he)

theorem hasLiteral_run (hrun : use.run? calls = some later) (text : String) :
    later.pool.hasLiteral text = true ↔ use.pool.hasLiteral text = true ∨ .addLiteral text ∈ calls := by
  induction calls generalizing use with
  | nil =>
    cases hrun
    simp
  | cons call calls ih =>
    obtain ⟨next, hstep, hrest⟩ := Option.bind_eq_some_iff.mp hrun
    rw [ih hrest, hasLiteral_step hstep, List.mem_cons, or_assoc, eq_comm (a := call)]

end Runs

section Sound

variable {use : PoolUse} (h : use.Sound)
include h

theorem Sound.size_eq : use.pool.size = use.pooled.toFinset.card := by
  have hsame : use.pool.names.toList.toFinset = use.pooled.toFinset := by
    ext text
    rw [List.mem_toFinset, List.mem_toFinset, h.pooled]
  rw [← hsame, List.toFinset_card_of_nodup use.pool.names.distinct]
  rfl

theorem Sound.lookup?_eq (text : String) :
    use.pool.lookup? text = if text ∈ use.pooled then some (use.pool.intern text).2 else none := by
  split
  · rename_i hmem
    obtain ⟨symbol, hs⟩ := NamePool.mem_names_iff.mp ((h.pooled text).mpr hmem)
    rw [NamePool.intern, NamePool.add_of_lookup? hs, hs]
    rfl
  · rename_i hmem
    refine Option.eq_none_iff_forall_ne_some.mpr fun symbol hs => hmem ?_
    exact (h.pooled text).mp (NamePool.mem_names_iff.mpr ⟨symbol, hs⟩)

/-- The package of a type that has one. -/
theorem Sound.internPackage_eq {symbol : Symbol} {text package : String} (hgiven : (symbol, text) ∈ use.given)
    (hpackage : packageOf? text = some package) : ∃ found,
      use.pool.internPackage symbol = ((use.pool.intern package).1, some found) ∧
      (use.pool.intern package).1.resolve? found = some package ∧
      use.pool.lookupPackage? symbol = if package ∈ use.pooled then some found else none := by
  obtain ⟨found, hintern, hfound⟩ := use.pool.intern_eq package
  refine ⟨found, ?_, ?_, ?_⟩
  · simp only [NamePool.internPackage, h.resolve?_eq hgiven, Option.bind_some, hpackage, hintern]
  · rw [hintern]
    exact NamePool.lookup?_eq_some_iff.mp hfound
  · rw [NamePool.lookupPackage?, h.resolve?_eq hgiven, Option.bind_some, hpackage, Option.bind_some, h.lookup?_eq,
      hintern]

end Sound

/-- After any row of calls: symbols are the same if their texts are, and each stands for its text from then on. A text
has a symbol if it was pooled, and then the one that pooling it again gives. There are as many names as different texts
were pooled, and the loaded texts are those that calls loaded. A type without a slash in its name has no package; the
package of any other is what stands before the last slash, and it is found without pooling it if it was pooled. -/
theorem symbols_stand_for_texts (calls : List PoolCall) (use : PoolUse) (h : run? {} calls = some use) :
    (∀ s a t b, (s, a) ∈ use.given → (t, b) ∈ use.given → (s = t ↔ a = b)) ∧
    (∀ more later, use.run? more = some later → ∀ s a, (s, a) ∈ use.given → later.pool.resolve? s = some a) ∧
    (∀ s a, (s, a) ∈ use.given → use.pool.lookup? a = some s) ∧
    (∀ text, use.pool.lookup? text = if text ∈ use.pooled then some (use.pool.intern text).2 else none) ∧
    use.pool.size = use.pooled.toFinset.card ∧
    (∀ text, use.pool.hasLiteral text = true ↔ .addLiteral text ∈ calls) ∧
    (∀ s a, (s, a) ∈ use.given →
      ((use.pool.internPackage s).2 = none ↔ '/' ∉ a.toList) ∧
      ('/' ∉ a.toList → use.pool.lookupPackage? s = none) ∧
      ∀ package last, a.toList = package.toList ++ '/' :: last → '/' ∉ last → ∃ found,
        use.pool.internPackage s = ((use.pool.intern package).1, some found) ∧
        (use.pool.intern package).1.resolve? found = some package ∧
        use.pool.lookupPackage? s = if package ∈ use.pooled then some found else none) := by
  have hsound : use.Sound := sound_empty.run h
  refine ⟨fun s a t b hs ht => hsound.symbols_eq_iff hs ht, fun more later hmore s a hs => ?_, hsound.given,
    hsound.lookup?_eq, hsound.size_eq, fun text => ?_, fun s a hs => ⟨?_, fun hnone => ?_, ?_⟩⟩
  · exact (hsound.run hmore).resolve?_eq (given_subset_run hmore hs)
  · rw [hasLiteral_run h]
    simp [NamePool.hasLiteral_iff]
  · rw [← packageOf?_eq_none_iff]
    cases hpackage : packageOf? a with
    | none => simp [NamePool.internPackage, hsound.resolve?_eq hs, hpackage]
    | some package =>
      obtain ⟨found, hfound, -⟩ := hsound.internPackage_eq hs hpackage
      simp [hfound]
  · rw [NamePool.lookupPackage?, hsound.resolve?_eq hs, Option.bind_some, packageOf?_eq_none_iff.mpr hnone]
    rfl
  · intro package last ha hlast
    exact hsound.internPackage_eq hs (packageOf?_eq_some_iff.mpr ⟨last, ha, hlast⟩)

/-- A dotted name and its package, which was loaded as a text before. -/
theorem symbols_stand_for_texts_package :
    ∃ use, run? {} [.internPath "a.b.C", .addLiteral "a/b", .internPackage ⟨0⟩, .lookup "a/b/C"] = some use ∧
      (⟨1⟩, "a/b") ∈ use.given ∧ use.pool.resolve? ⟨1⟩ = some "a/b" ∧ use.pool.size = 2 := by
  have hrun : ∃ use,
      run? {} [.internPath "a.b.C", .addLiteral "a/b", .internPackage ⟨0⟩, .lookup "a/b/C"] = some use ∧
        (⟨1⟩, "a/b") ∈ use.given ∧ use.pooled.toFinset.card = 2 := by
    decide +kernel
  obtain ⟨use, hrun, hgiven, hcard⟩ := hrun
  obtain ⟨-, hresolve, -, -, hsize, -⟩ := symbols_stand_for_texts _ use hrun
  exact ⟨use, hrun, hgiven, hresolve [] use rfl _ _ hgiven, hsize.trans hcard⟩

end PoolUse

end ModuleAudit
