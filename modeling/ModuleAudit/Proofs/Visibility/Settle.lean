import ModuleAudit.Proofs.Visibility.Step

/-! No package that spreading takes up is lost. While calls are open, every package that an edge has
taken further is either settled at the dependent, that is, visible along all of its edges that import
it, or it waits for an open call to come to those edges. Calls only go on with what they got, so a
module that is met again on the path has an open call that waits for at least as much.

A dependent may have several edges to one module. An edge is only sure to take packages further if it
is the first of them to import a package (`Leads`), since a package that has come before is not new.
What goes further is then all that the edge imports and exports of the packages of the call. -/

namespace ModuleAudit
set_option autoImplicit false

namespace Index

/-- The edge is the first of its dependent's edges to `source` that imports the package. -/
def Leads (index : Index) (source : ModuleId) (edge : DependentEdge) (package : String) : Prop :=
  (index.dependentsOf source).find? (fun other =>
    other.dependent = edge.dependent && index.imports other package) = some edge

/-- In `index`, all edges of `base` that import the package from the module have made it visible. -/
def Settled (base index : Index) (id : ModuleId) (package : String) : Prop :=
  ∀ edge ∈ base.dependentsOf id, base.imports edge package = true →
    id ∈ index.through edge.dependent package

section Edges

variable {index : Index} {source : ModuleId} {edge other : DependentEdge} {package : String}

theorem Leads.mem (h : index.Leads source edge package) : edge ∈ index.dependentsOf source :=
  List.mem_of_find?_eq_some h

theorem Leads.imports_eq (h : index.Leads source edge package) : index.imports edge package = true := by
  have h' := List.find?_some h
  simpa using h'

theorem Leads.unique (h : index.Leads source edge package) (ho : index.Leads source other package)
    (e : other.dependent = edge.dependent) : other = edge := by
  rw [Leads, e] at ho
  exact Option.some.inj (ho.symm.trans h)

end Edges

theorem Settled.mono {base i j : Index} {carried : ModuleId → String → Prop} (h : Steps carried i j)
    {id : ModuleId} {package : String} (hs : Settled base i id package) : Settled base j id package :=
  fun edge he hi => h.through_mono (hs edge he hi)

/-! ## The invariant -/

/-- What holds between calls. `company source q p` says that `q` never comes to `source` without `p`,
and `waiting` are the packages of the open calls. -/
structure Balanced (base : Index) (carried : ModuleId → String → Prop)
    (company : ModuleId → String → String → Prop) (waiting : ModuleId → String → Prop)
    (index : Index) : Prop where
  relayed : ∀ source edge q p, source ∈ index.through edge.dependent q → base.Leads source edge q →
    company source q p → base.imports edge p = true → base.exports edge p = true →
    source ∈ index.reExportsOf edge.dependent ∧
      (Settled base index edge.dependent p ∨ waiting edge.dependent p)
  led : ∀ source id, source ∈ index.reExportsOf id → ∃ edge q p, edge.dependent = id ∧
    carried source q ∧ base.Leads source edge q ∧
    carried source p ∧ base.imports edge p = true ∧ base.exports edge p = true

/-- What a call may rely on: there is room for all modules that are not on the path, the packages are
carried by the module and come in full company, and every module on the path waits for them. -/
structure Call (base : Index) (carried : ModuleId → String → Prop)
    (company : ModuleId → String → String → Prop) (waiting : ModuleId → String → Prop)
    (room : Nat) (path : List ModuleId) (packages : List String) (source : ModuleId) : Prop where
  source_lt : source < base.modules.size
  path_nodup : path.Nodup
  path_lt : ∀ id ∈ path, id < base.modules.size
  room_le : base.modules.size ≤ path.length + room
  arrive : ∀ p ∈ packages, carried source p
  together : ∀ q ∈ packages, ∀ p, company source q p → p ∈ packages
  waits : ∀ id ∈ path, ∀ p ∈ packages, waiting id p

variable {base : Index} {carried : ModuleId → String → Prop}
  {company : ModuleId → String → String → Prop} {waiting waiting' : ModuleId → String → Prop}

/-- What was balanced before some steps is so after them if the pairs that the steps add are. -/
theorem Balanced.extend {i j : Index} (hb : Balanced base carried company waiting i)
    (hs : Steps carried i j) (hw : ∀ id p, waiting id p → waiting' id p)
    (hnew : ∀ source edge q p, source ∈ j.through edge.dependent q →
      source ∉ i.through edge.dependent q → base.Leads source edge q → company source q p →
      base.imports edge p = true → base.exports edge p = true →
      source ∈ j.reExportsOf edge.dependent ∧ waiting' edge.dependent p)
    (hled : ∀ source id, source ∈ j.reExportsOf id → source ∉ i.reExportsOf id →
      ∃ edge q p, edge.dependent = id ∧ carried source q ∧ base.Leads source edge q ∧
        carried source p ∧ base.imports edge p = true ∧ base.exports edge p = true) :
    Balanced base carried company waiting' j where
  relayed := by
    intro source edge q p ht hl hc hi he
    by_cases hold : source ∈ i.through edge.dependent q
    · obtain ⟨hr, hsw⟩ := hb.relayed source edge q p hold hl hc hi he
      exact ⟨hs.reExports_mono hr, hsw.imp (fun h => h.mono hs) (hw _ _)⟩
    · obtain ⟨hr, hsw⟩ := hnew source edge q p ht hold hl hc hi he
      exact ⟨hr, Or.inr hsw⟩
  led := by
    intro source id ht
    by_cases hold : source ∈ i.reExportsOf id
    · exact hb.led source id hold
    · exact hled source id ht hold

/-- What no longer waits because it is settled need not be said to wait. -/
theorem Balanced.settle {i : Index} (hb : Balanced base carried company waiting' i)
    (hw : ∀ id p, waiting' id p → waiting id p ∨ Settled base i id p) :
    Balanced base carried company waiting i where
  relayed := by
    intro source edge q p ht hl hc hi he
    obtain ⟨hr, hsw⟩ := hb.relayed source edge q p ht hl hc hi he
    refine ⟨hr, ?_⟩
    rcases hsw with h | h
    · exact Or.inl h
    · exact (hw _ _ h).symm
  led := hb.led

theorem Call.mem_path_of_no_room {path : List ModuleId} {packages : List String} {source : ModuleId}
    (h : Call base carried company waiting 0 path packages source) : source ∈ path := by
  by_cases hm : source ∈ path
  · exact hm
  · have hnd : (source :: path).Nodup := List.nodup_cons.mpr ⟨hm, h.path_nodup⟩
    have hsub : (source :: path) ⊆ List.range base.modules.size := by
      intro id hid
      rw [List.mem_range]
      rcases List.mem_cons.mp hid with rfl | hid
      · exact h.source_lt
      · exact h.path_lt id hid
    have hlen := hnd.length_le_of_subset hsub
    have hroom := h.room_le
    simp only [List.length_cons, List.length_range] at hlen
    omega

/-! ## Calls keep the balance -/

/-- A module to which packages are passed on gets each of them in no company but its own. -/
def PassedAlone (base : Index) (carried : ModuleId → String → Prop)
    (company : ModuleId → String → String → Prop) : Prop :=
  ∀ source edge r, edge ∈ base.dependentsOf source → carried source r →
    base.imports edge r = true → base.exports edge r = true →
    ∀ q p, company edge.dependent q p → p = q

/-- What waits while a call is open. -/
def Waiting (waiting : ModuleId → String → Prop) (source : ModuleId) (packages : List String) :
    ModuleId → String → Prop :=
  fun id p => waiting id p ∨ id = source ∧ p ∈ packages

/-- A call keeps the balance, and settles its packages unless its module is on the path. -/
def KeepsBalance (base : Index) (carried : ModuleId → String → Prop)
    (company : ModuleId → String → String → Prop) (room : Nat) (path : List ModuleId) : Prop :=
  ∀ (waiting : ModuleId → String → Prop) (packages : List String) (source : ModuleId) (index : Index),
    index.ground = base.ground → Call base carried company waiting room path packages source →
    Balanced base carried company waiting index →
    Balanced base carried company waiting (spreadIn room path packages source index) ∧
      (source ∉ path → ∀ p ∈ packages, Settled base (spreadIn room path packages source index) source p)

section Loop

variable {room : Nat} {path : List ModuleId} {packages : List String} {source : ModuleId}
  {done rest : List DependentEdge} {edge : DependentEdge} {j : Index}

/-- A package that is new at the dependent of an edge of the loop is led by that edge. -/
theorem leads_of_new (hl : base.dependentsOf source = done ++ edge :: rest)
    (hk : ∀ e ∈ done, ∀ p ∈ packages, base.imports e p = true → source ∈ j.through e.dependent p)
    {q : String} (hq : q ∈ packages) (hi : base.imports edge q = true)
    (hnew : source ∉ j.through edge.dependent q) : base.Leads source edge q := by
  rw [Leads, hl, List.find?_eq_some_iff_append]
  refine ⟨by simpa using hi, done, rest, rfl, ?_⟩
  intro e he
  by_cases hd : e.dependent = edge.dependent
  · have hn : base.imports e q = false := by
      cases hie : base.imports e q with
      | false => rfl
      | true =>
        have hs := hk e he q hq hie
        rw [hd] at hs
        exact absurd hs hnew
    simp [hn]
  · simp [hd]

variable (call : Call base carried company waiting (room + 1) path packages source)
  (hl : base.dependentsOf source = done ++ edge :: rest)
  (hk : ∀ e ∈ done, ∀ p ∈ packages, base.imports e p = true → source ∈ j.through e.dependent p)
include call hl hk

/-- The pairs that an edge of the loop adds are led by it, and so their company is handed on with them. -/
theorem handedOn_of_new {q p : String} {source' : ModuleId} {edge' : DependentEdge}
    (hlt : edge.dependent < j.modules.size)
    (ht : source' ∈ (j.provideAt source edge (base.taken edge packages)).through edge'.dependent q)
    (hold : source' ∉ j.through edge'.dependent q) (hlead : base.Leads source' edge' q)
    (hco : company source' q p) (hi : base.imports edge' p = true) (he : base.exports edge' p = true) :
    source' = source ∧ edge' = edge ∧ q ∈ base.taken edge packages ∧ p ∈ base.handedOn edge packages := by
  rcases (mem_through_provideAt source _ hlt _ _ _).mp ht with h | ⟨hd, hq, rfl⟩
  · exact absurd h hold
  · obtain ⟨hqp, hqi⟩ := mem_taken.mp hq
    rw [hd] at hold
    have hown := leads_of_new hl hk hqp hqi hold
    obtain rfl := hown.unique hlead hd
    have hp : p ∈ packages := call.together q hqp p hco
    exact ⟨rfl, rfl, hq, mem_handedOn.mpr ⟨⟨hp, hi⟩, he⟩⟩

variable (hg : j.ground = base.ground)
  (hb : Balanced base carried company (Waiting waiting source packages) j)
include hg hb

/-- An edge that brings nothing new or hands nothing on keeps the balance. -/
theorem balanced_provideAt (hne : base.taken edge packages ≠ [])
    (hidle : (∀ p ∈ base.taken edge packages, source ∈ j.through edge.dependent p) ∨
      base.handedOn edge packages = []) :
    Balanced base carried company (Waiting waiting source packages)
      (j.provideAt source edge (base.taken edge packages)) := by
  have hmem : edge ∈ base.dependentsOf source := by simp [hl]
  have hstep := step_provideAt hg call.arrive hmem hne
  refine hb.extend (Relation.ReflTransGen.single hstep) (fun _ _ h => h) ?_ ?_
  · intro source' edge' q p ht hold hlead hco hi he
    obtain ⟨rfl, rfl, hq, hp⟩ :=
      handedOn_of_new call hl hk (dependent_lt_of_taken hg hne) ht hold hlead hco hi he
    rcases hidle with hall | hnone
    · exact absurd (hall q hq) hold
    · rw [hnone] at hp
      exact absurd hp (by simp)
  · intro source' id ht hold
    rw [reExportsOf_provideAt] at ht
    exact absurd ht hold

/-- An edge that hands packages on keeps the balance while they wait at its dependent. -/
theorem balanced_reExportAt (hnew : ∃ q ∈ base.taken edge packages, source ∉ j.through edge.dependent q)
    (hex : base.handedOn edge packages ≠ []) :
    Balanced base carried company
      (Waiting (Waiting waiting source packages) edge.dependent (base.handedOn edge packages))
      ((j.provideAt source edge (base.taken edge packages)).reExportAt source edge) := by
  -- The package that is new shows that the edge leads, which is what `led` asks for.
  obtain ⟨q₀, hq₀, hnew₀⟩ := hnew
  have hmem : edge ∈ base.dependentsOf source := by simp [hl]
  have hlt := dependent_lt_of_taken hg (List.ne_nil_of_mem hq₀)
  have hlt' : edge.dependent < (j.provideAt source edge (base.taken edge packages)).modules.size := by
    rw [size_congr (ground_provideAt j source edge (base.taken edge packages))]
    exact hlt
  refine hb.extend (steps_reExportAt hg call.arrive hmem hex) (fun _ _ h => Or.inl h) ?_ ?_
  · intro source' edge' q p ht hold hlead hco hi he
    rw [through_reExportAt] at ht
    obtain ⟨rfl, rfl, -, hp⟩ := handedOn_of_new call hl hk hlt ht hold hlead hco hi he
    exact ⟨(mem_reExportsOf_reExportAt _ hlt' _ _).mpr (Or.inr ⟨rfl, rfl⟩), Or.inr ⟨rfl, hp⟩⟩
  · intro source' id ht hold
    rcases (mem_reExportsOf_reExportAt _ hlt' _ _).mp ht with h | ⟨rfl, rfl⟩
    · rw [reExportsOf_provideAt] at h
      exact absurd h hold
    · obtain ⟨hqp, hqi⟩ := mem_taken.mp hq₀
      obtain ⟨p, hp⟩ := List.exists_mem_of_ne_nil _ hex
      obtain ⟨⟨hpp, hpi⟩, hpx⟩ := mem_handedOn.mp hp
      exact ⟨edge, q₀, p, rfl, call.arrive q₀ hqp, leads_of_new hl hk hqp hqi hnew₀,
        call.arrive p hpp, hpi, hpx⟩

omit hk hb hg in
/-- The call for the dependent of an edge that hands packages on. -/
theorem Call.further (hc : base.PassesOn carried) (ha : PassedAlone base carried company)
    (hnp : source ∉ path) (hex : base.handedOn edge packages ≠ []) :
    Call base carried company
      (Waiting (Waiting waiting source packages) edge.dependent (base.handedOn edge packages))
      room (source :: path) (base.handedOn edge packages) edge.dependent := by
  have hmem : edge ∈ base.dependentsOf source := by simp [hl]
  obtain ⟨r, hr⟩ := List.exists_mem_of_ne_nil _ hex
  obtain ⟨⟨hrp, hri⟩, hrx⟩ := mem_handedOn.mp hr
  refine ⟨lt_size_of_imports hri, List.nodup_cons.mpr ⟨hnp, call.path_nodup⟩, ?_, ?_, ?_, ?_, ?_⟩
  · intro id hid
    rcases List.mem_cons.mp hid with rfl | hid
    · exact call.source_lt
    · exact call.path_lt id hid
  · have h := call.room_le
    simp only [List.length_cons]
    omega
  · intro p hp
    obtain ⟨⟨hpp, hpi⟩, hpx⟩ := mem_handedOn.mp hp
    exact hc source edge p hmem (call.arrive p hpp) hpi hpx
  · intro q hq p hco
    rw [ha source edge r hmem (call.arrive r hrp) hri hrx q p hco]
    exact hq
  · intro id hid p hp
    have hpp := (mem_handedOn.mp hp).1.1
    rcases List.mem_cons.mp hid with rfl | hid
    · exact Or.inl (Or.inr ⟨rfl, hpp⟩)
    · exact Or.inl (Or.inl (call.waits id hid p hpp))

/-- One edge of the loop: the balance is kept, and what the edge imports is visible along it. -/
theorem spreadAlong_balanced (hc : base.PassesOn carried) (ha : PassedAlone base carried company)
    (ih : KeepsBalance base carried company room (source :: path)) (hnp : source ∉ path) :
    Balanced base carried company (Waiting waiting source packages)
        (spreadAlong (spreadIn room (source :: path)) packages source j edge) ∧
      ∀ p ∈ packages, base.imports edge p = true →
        source ∈ (spreadAlong (spreadIn room (source :: path)) packages source j edge).through
          edge.dependent p := by
  have hprovided : ∀ p ∈ packages, base.imports edge p = true →
      source ∈ (j.provideAt source edge (base.taken edge packages)).through edge.dependent p := by
    intro p hp hi
    have ht := mem_taken.mpr ⟨hp, hi⟩
    have hlt := dependent_lt_of_taken hg (List.ne_nil_of_mem ht)
    exact (mem_through_provideAt source _ hlt _ _ _).mpr (Or.inr ⟨rfl, ht, rfl⟩)
  rcases spreadAlong_cases hg (spreadIn room (source :: path)) packages source edge with
    ⟨hnil, e⟩ | ⟨hne, hidle, e⟩ | ⟨hnew, hex, e⟩
  · rw [e]
    refine ⟨hb, fun p hp hi => ?_⟩
    have ht := mem_taken.mpr ⟨hp, hi⟩
    rw [hnil] at ht
    exact absurd ht (by simp)
  · rw [e]
    exact ⟨balanced_provideAt call hl hk hg hb hne hidle, hprovided⟩
  · have hmem : edge ∈ base.dependentsOf source := by simp [hl]
    have hfurther := call.further hl hc ha hnp hex
    have hg' := (steps_reExportAt hg call.arrive hmem hex).ground_eq.trans hg
    have hsteps := spreadIn_steps hc room (source :: path) _ _ _ hg' hfurther.arrive
    obtain ⟨hbal, hset⟩ := ih _ _ _ _ hg' hfurther (balanced_reExportAt call hl hk hg hb hnew hex)
    rw [e]
    refine ⟨hbal.settle ?_, fun p hp hi => hsteps.through_mono ?_⟩
    · -- What was handed on waits for an open call if the dependent is on the path, and is settled if not.
      rintro id p (h | ⟨rfl, hp⟩)
      · exact Or.inl h
      · by_cases hin : edge.dependent ∈ source :: path
        · left
          have hpp := (mem_handedOn.mp hp).1.1
          rcases List.mem_cons.mp hin with hs | hin
          · exact Or.inr ⟨hs, hpp⟩
          · exact Or.inl (call.waits _ hin p hpp)
        · exact Or.inr (hset hin p hp)
    · rw [through_reExportAt]
      exact hprovided p hp hi

end Loop

/-- The loop of a call keeps the balance while its packages wait at its module, and makes them visible along
all edges that import them. -/
theorem foldl_spreadAlong_balanced (hc : base.PassesOn carried) (ha : PassedAlone base carried company)
    {room : Nat} {path : List ModuleId} {packages : List String} {source : ModuleId} {index : Index}
    (ih : KeepsBalance base carried company room (source :: path)) (hnp : source ∉ path)
    (hg : index.ground = base.ground)
    (call : Call base carried company waiting (room + 1) path packages source)
    (hb : Balanced base carried company waiting index) :
    Balanced base carried company (Waiting waiting source packages)
        ((base.dependentsOf source).foldl (spreadAlong (spreadIn room (source :: path)) packages source) index) ∧
      ∀ p ∈ packages, Settled base
        ((base.dependentsOf source).foldl (spreadAlong (spreadIn room (source :: path)) packages source) index)
          source p := by
  -- The loop keeps three things: it is a run, the balance holds, and the edges passed show the packages.
  have hstart : Balanced base carried company (Waiting waiting source packages) index :=
    hb.extend Relation.ReflTransGen.refl (fun _ _ h => Or.inl h) (fun _ _ _ _ ht hn => absurd ht hn)
      (fun _ _ ht hn => absurd ht hn)
  have hloop := foldl_passed (l := base.dependentsOf source) (b := index)
    (f := spreadAlong (spreadIn room (source :: path)) packages source)
    (P := fun done j => Steps carried index j ∧
      Balanced base carried company (Waiting waiting source packages) j ∧
      ∀ e ∈ done, ∀ p ∈ packages, base.imports e p = true → source ∈ j.through e.dependent p)
    ⟨Relation.ReflTransGen.refl, hstart, by simp⟩
    (by
      rintro done edge rest j hl ⟨hsteps, hbal, hk⟩
      have hgj := hsteps.ground_eq.trans hg
      have hmem : edge ∈ base.dependentsOf source := by simp [hl]
      have hstep := spreadAlong_steps hc (spreadIn_steps hc room (source :: path)) hgj call.arrive hmem
      obtain ⟨hbal', hk'⟩ := spreadAlong_balanced call hl hk hgj hbal hc ha ih hnp
      refine ⟨hsteps.trans hstep, hbal', ?_⟩
      intro e he p hp hi
      rcases List.mem_append.mp he with he | he
      · exact hstep.through_mono (hk e he p hp hi)
      · rw [List.mem_singleton.mp he] at hi ⊢
        exact hk' p hp hi)
  exact ⟨hloop.2.1, fun p hp e he hi => hloop.2.2 e he p hp hi⟩

theorem spreadIn_balanced (hc : base.PassesOn carried) (ha : PassedAlone base carried company) (room : Nat)
    (path : List ModuleId) : KeepsBalance base carried company room path := by
  induction room generalizing path with
  | zero =>
    intro waiting packages source index _ call hb
    exact ⟨hb, fun hnp => absurd call.mem_path_of_no_room hnp⟩
  | succ room ih =>
    intro waiting packages source index hg call hb
    rw [spreadIn]
    by_cases hin : source ∈ path
    · rw [if_pos hin]
      exact ⟨hb, fun hnp => absurd hin hnp⟩
    · have hedges : (index.modules[source]?.map (·.dependents)).getD [] = base.dependentsOf source := by
        rw [← dependentsOf_congr hg]
        rfl
      rw [if_neg hin, hedges]
      obtain ⟨hbal, hset⟩ := foldl_spreadAlong_balanced hc ha (ih (source :: path)) hin hg call hb
      refine ⟨hbal.settle ?_, fun _ => hset⟩
      rintro id p (h | ⟨rfl, hp⟩)
      · exact Or.inl h
      · exact Or.inr (hset p hp)

end Index

end ModuleAudit
