import ModuleAudit.Ordered.Set
import ModuleAudit.Text.Split

/-! # The pool of names

Every name that an index has met, once each, in the order of first meeting. The position of a name is its
symbol. The pool also remembers which names were loaded as text by compiled code.
-/

namespace ModuleAudit
set_option autoImplicit false

/-- The name of a type or package with slashes between its parts. -/
def slashed (name : String) : String := String.ofList (Text.replaceChar '.' '/' name.toList)

/-- The package of a type: what stands before the last slash of its name. -/
def packageOf? (typeName : String) : Option String :=
  (Text.cutLast '/' typeName.toList).map fun (package, _) => String.ofList package

structure Symbol where
  position : Nat
  deriving Repr, DecidableEq

theorem Symbol.pooled_empty :
    ∀ symbol ∈ ({} : OrderedSet Symbol).toList, symbol.position < ({} : OrderedSet String).size :=
  fun _ h => absurd h List.not_mem_nil

/-- The names met so far, and the symbols of those of them that compiled code loads as text. -/
@[ext] structure NamePool where
  names : OrderedSet String := {}
  literals : OrderedSet Symbol := {}
  pooled : ∀ symbol ∈ literals.toList, symbol.position < names.size := by exact Symbol.pooled_empty
  deriving Repr, DecidableEq

namespace NamePool

def size (pool : NamePool) : Nat := pool.names.size

def lookup? (pool : NamePool) (name : String) : Option Symbol := (pool.names.position? name).map Symbol.mk

def resolve? (pool : NamePool) (symbol : Symbol) : Option String := pool.names.toList[symbol.position]?

/-- Puts a name into the pool, if it is not there yet. -/
def add (pool : NamePool) (name : String) : NamePool where
  names := pool.names.insert name
  literals := pool.literals
  pooled symbol h := Nat.lt_of_lt_of_le (pool.pooled symbol h) (pool.names.size_le_insert name)

/-- Puts the slashed form of a name into the pool. -/
def addPath (pool : NamePool) (name : String) : NamePool := pool.add (slashed name)

/-- Puts the package of a type into the pool, if it has one. -/
def addPackage (pool : NamePool) (typeName : String) : NamePool :=
  match packageOf? typeName with
  | some package => pool.add package
  | none => pool

def intern (pool : NamePool) (name : String) : NamePool × Symbol :=
  let pool := pool.add name
  (pool, (pool.lookup? name).getD ⟨0⟩)

theorem position_intern_lt (pool : NamePool) (name : String) :
    (pool.intern name).2.position < (pool.intern name).1.names.size := by
  have hmem : name ∈ (pool.add name).names.toList := (OrderedSet.mem_insert _ _ _).mpr (Or.inr rfl)
  rw [intern]
  cases hfound : (pool.add name).lookup? name with
  | none => exact List.length_pos_of_mem hmem
  | some symbol =>
    obtain ⟨position, hposition, rfl⟩ := Option.map_eq_some_iff.mp hfound
    exact (List.idxOf?_eq_some_iff.mp hposition).1

/-- Puts a name into the pool as one that compiled code loads as text. -/
def addLiteral (pool : NamePool) (text : String) : NamePool where
  names := (pool.intern text).1.names
  literals := pool.literals.insert (pool.intern text).2
  pooled symbol h := by
    rcases (OrderedSet.mem_insert _ _ _).mp h with hold | rfl
    · exact (pool.add text).pooled symbol hold
    · exact pool.position_intern_lt text

/-- Whether compiled code loads `text`. -/
def hasLiteral (pool : NamePool) (text : String) : Bool := (pool.lookup? text).any pool.literals.contains

/-- Pools the slashed form of a name and gives its symbol. -/
def internPath (pool : NamePool) (name : String) : NamePool × Symbol := pool.intern (slashed name)

/-- Pools the package of a type and gives its symbol; types without a package have none. -/
def internPackage (pool : NamePool) (typeName : Symbol) : NamePool × Option Symbol :=
  match (pool.resolve? typeName).bind packageOf? with
  | some package => let (pool, symbol) := pool.intern package; (pool, some symbol)
  | none => (pool, none)

/-- The symbol of a type's package, if that package is in the pool. -/
def lookupPackage? (pool : NamePool) (typeName : Symbol) : Option Symbol :=
  (pool.resolve? typeName).bind packageOf? |>.bind pool.lookup?

end NamePool

end ModuleAudit
