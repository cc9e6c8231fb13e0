/-! # Sets that keep the order of insertion

`OrderedSet α` is a list of distinct elements, in the order in which they first came.
-/

namespace ModuleAudit
set_option autoImplicit false

/-- A set whose elements stand in the order in which they were first inserted. -/
structure OrderedSet (α : Type) where
  toList : List α := []
  distinct : toList.Nodup := by exact List.nodup_nil
  deriving Repr

namespace OrderedSet

variable {α : Type}

instance : Inhabited (OrderedSet α) := ⟨{}⟩

instance [DecidableEq α] : DecidableEq (OrderedSet α) := fun a b =>
  if same : a.toList = b.toList then
    isTrue (by cases a; cases b; cases same; rfl)
  else isFalse fun h => same (h ▸ rfl)

def size (s : OrderedSet α) : Nat := s.toList.length

variable [DecidableEq α]

def contains (s : OrderedSet α) (a : α) : Bool := a ∈ s.toList

/-- Puts `a` at the end unless it is there already. -/
def insert (s : OrderedSet α) (a : α) : OrderedSet α :=
  if fresh : a ∈ s.toList then s
  else
    { toList := s.toList ++ [a]
      distinct := List.nodup_append.2 ⟨s.distinct, by simp, by
        intro x hx y hy same
        have : y = a := by simpa using hy
        subst this
        exact fresh (same ▸ hx)⟩ }

def insertAll (s : OrderedSet α) (elements : List α) : OrderedSet α := elements.foldl insert s

/-- The position of `a`, counted from zero. -/
def position? (s : OrderedSet α) (a : α) : Option Nat := s.toList.idxOf? a

theorem toList_insert (s : OrderedSet α) (a : α) :
    (s.insert a).toList = if a ∈ s.toList then s.toList else s.toList ++ [a] := by
  unfold insert
  split <;> rfl

theorem size_le_insert (s : OrderedSet α) (a : α) : s.size ≤ (s.insert a).size := by
  rw [size, size, toList_insert]
  split
  · exact Nat.le_refl _
  · simp

@[simp] theorem mem_insert (s : OrderedSet α) (a b : α) :
    b ∈ (s.insert a).toList ↔ b ∈ s.toList ∨ b = a := by
  rw [toList_insert]
  split
  · rename_i known
    exact ⟨Or.inl, fun h => h.elim id (fun same => same ▸ known)⟩
  · simp

end OrderedSet

end ModuleAudit
