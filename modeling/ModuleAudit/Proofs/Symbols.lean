import Mathlib.Data.List.Nodup
import ModuleAudit.Index.NamePool
import ModuleAudit.Proofs.Ordered

/-! Names and their symbols. What is pooled later changes neither the symbol of a name (`lookup?_add`) nor which texts
are loaded (`hasLiteral_add`), because a symbol is given once and for all. -/

namespace ModuleAudit
set_option autoImplicit false

theorem OrderedSet.position?_insert {α : Type} [DecidableEq α] {s : OrderedSet α} {a : α} {position : Nat}
    (h : s.position? a = some position) (added : α) : (s.insert added).position? a = some position := by
  have hfind : ∀ l : List α, l.idxOf? a = l.findIdx? (· == a) := fun _ => rfl
  rw [position?, hfind] at h ⊢
  rw [toList_insert]
  split
  · exact h
  · rw [List.findIdx?_append, h, Option.some_or]

namespace NamePool

variable {pool : NamePool} {name : String} {symbol : Symbol}

/-! ## Symbols -/

/-- A name has a symbol if the symbol stands for the name. -/
theorem lookup?_eq_some_iff : pool.lookup? name = some symbol ↔ pool.resolve? symbol = some name := by
  rw [lookup?, OrderedSet.position?, resolve?, Option.map_eq_some_iff]
  constructor
  · rintro ⟨position, hp, rfl⟩
    obtain ⟨hlt, rfl, -⟩ := List.idxOf?_eq_some_iff.mp hp
    exact List.getElem?_eq_getElem hlt
  · intro h
    obtain ⟨hlt, hname⟩ := List.getElem?_eq_some_iff.mp h
    refine ⟨symbol.position, List.idxOf?_eq_some_iff.mpr ⟨hlt, hname, fun j hj he => ?_⟩, rfl⟩
    have hsame := (List.Nodup.getElem_inj_iff pool.names.distinct).mp (he.trans hname.symm)
    omega

theorem mem_names_iff : name ∈ pool.names.toList ↔ ∃ symbol, pool.lookup? name = some symbol := by
  simp only [lookup?_eq_some_iff, resolve?]
  rw [List.mem_iff_getElem?]
  constructor
  · rintro ⟨position, h⟩
    exact ⟨⟨position⟩, h⟩
  · rintro ⟨symbol, h⟩
    exact ⟨symbol.position, h⟩

/-- A pooled name keeps its symbol. -/
theorem lookup?_add (h : pool.lookup? name = some symbol) (added : String) :
    (pool.add added).lookup? name = some symbol := by
  obtain ⟨position, hp, rfl⟩ := Option.map_eq_some_iff.mp h
  exact Option.map_eq_some_iff.mpr ⟨position, OrderedSet.position?_insert hp added, rfl⟩

theorem exists_lookup?_add (pool : NamePool) (name : String) :
    ∃ symbol, (pool.add name).lookup? name = some symbol := by
  have hmem : name ∈ (pool.names.insert name).toList := (OrderedSet.mem_insert _ _ _).mpr (Or.inr rfl)
  obtain ⟨position, hp⟩ := Option.isSome_iff_exists.mp (List.isSome_idxOf?.mpr hmem)
  exact ⟨⟨position⟩, Option.map_eq_some_iff.mpr ⟨position, hp, rfl⟩⟩

theorem intern_eq (pool : NamePool) (name : String) :
    ∃ symbol, pool.intern name = (pool.add name, symbol) ∧ (pool.add name).lookup? name = some symbol := by
  obtain ⟨symbol, hs⟩ := pool.exists_lookup?_add name
  refine ⟨symbol, ?_, hs⟩
  rw [intern, hs]
  rfl

theorem add_of_lookup? (h : pool.lookup? name = some symbol) : pool.add name = pool :=
  NamePool.ext (OrderedSet.insert_of_mem _ (mem_names_iff.mpr ⟨symbol, h⟩)) rfl

/-! ## Loaded texts -/

/-- A text is loaded if a symbol that was put down for a loaded one stands for it. -/
theorem hasLiteral_iff {text : String} :
    pool.hasLiteral text = true ↔ ∃ symbol ∈ pool.literals.toList, pool.resolve? symbol = some text := by
  simp only [hasLiteral, Option.any_eq_true, OrderedSet.contains_iff, ← lookup?_eq_some_iff]
  exact exists_congr fun _ => and_comm

theorem resolve?_add_of_mem (pool : NamePool) (h : symbol ∈ pool.literals.toList) (name : String) :
    (pool.add name).resolve? symbol = pool.resolve? symbol := by
  rw [resolve?, resolve?, add, OrderedSet.toList_insert]
  split
  · rfl
  · exact List.getElem?_append_left (pool.pooled symbol h)

@[simp] theorem hasLiteral_add (pool : NamePool) (name : String) : (pool.add name).hasLiteral = pool.hasLiteral := by
  funext text
  rw [Bool.eq_iff_iff, hasLiteral_iff, hasLiteral_iff]
  refine exists_congr fun symbol => and_congr_right fun h => ?_
  rw [pool.resolve?_add_of_mem h]

@[simp] theorem hasLiteral_addPath (pool : NamePool) (name : String) :
    (pool.addPath name).hasLiteral = pool.hasLiteral := pool.hasLiteral_add (slashed name)

@[simp] theorem hasLiteral_addPackage (pool : NamePool) (typeName : String) :
    (pool.addPackage typeName).hasLiteral = pool.hasLiteral := by
  rw [addPackage]
  split
  · exact pool.hasLiteral_add _
  · rfl

theorem hasLiteral_addLiteral (pool : NamePool) (loaded text : String) :
    (pool.addLiteral loaded).hasLiteral text = true ↔ pool.hasLiteral text = true ∨ text = loaded := by
  obtain ⟨given, hintern, hgiven⟩ := pool.intern_eq loaded
  have hresolve : (pool.addLiteral loaded).resolve? = (pool.add loaded).resolve? := rfl
  have hliterals : (pool.addLiteral loaded).literals = pool.literals.insert given :=
    congrArg (fun interned : NamePool × Symbol => pool.literals.insert interned.2) hintern
  have hold : pool.hasLiteral text = true ↔
      ∃ symbol ∈ pool.literals.toList, (pool.add loaded).resolve? symbol = some text := by
    rw [← pool.hasLiteral_add loaded, hasLiteral_iff]
    rfl
  have hnew : (pool.add loaded).resolve? given = some text ↔ text = loaded := by
    rw [lookup?_eq_some_iff.mp hgiven, Option.some.injEq, eq_comm]
  rw [hasLiteral_iff, hresolve, hliterals, hold, ← hnew]
  constructor
  · rintro ⟨symbol, hmem, hs⟩
    rcases (OrderedSet.mem_insert _ _ _).mp hmem with hm | rfl
    · exact Or.inl ⟨symbol, hm, hs⟩
    · exact Or.inr hs
  · rintro (⟨symbol, hm, hs⟩ | hs)
    · exact ⟨symbol, (OrderedSet.mem_insert _ _ _).mpr (Or.inl hm), hs⟩
    · exact ⟨given, (OrderedSet.mem_insert _ _ _).mpr (Or.inr rfl), hs⟩

end NamePool

end ModuleAudit
