import Mathlib.Data.Finset.Basic
import Mathlib.Data.Finset.Card
import Mathlib.Data.List.Basic
import Mathlib.Data.List.Nodup

/-! # Hash sets

A finite set with an order of iteration: a list without repetitions.  The invariant is a field,
so a set in which an element occurs twice cannot be written down.  `toFinset` forgets the order, and
the operations are the ones on finite sets. -/

/-- A list without repetitions. -/
structure HashSet (α : Type) where
  elems : List α
  nodup : elems.Nodup
deriving DecidableEq

namespace HashSet

variable {α : Type}

def empty : HashSet α := ⟨[], List.nodup_nil⟩

def len (s : HashSet α) : ℕ := s.elems.length

def isEmpty (s : HashSet α) : Bool := s.elems.isEmpty

instance : Membership α (HashSet α) := ⟨fun s a => a ∈ s.elems⟩

theorem mem_def {s : HashSet α} {a : α} : a ∈ s ↔ a ∈ s.elems := Iff.rfl

@[simp] theorem not_mem_empty (a : α) : a ∉ (empty : HashSet α) := by simp [mem_def, empty]

theorem isEmpty_iff {s : HashSet α} : s.isEmpty = true ↔ ∀ a, a ∉ s := by
  simp [isEmpty, mem_def, List.eq_nil_iff_forall_not_mem]

/-- The set without its order. -/
def toFinset (s : HashSet α) : Finset α := ⟨s.elems, s.nodup⟩

@[simp] theorem mem_toFinset {s : HashSet α} {a : α} : a ∈ s.toFinset ↔ a ∈ s := Iff.rfl

theorem card_toFinset (s : HashSet α) : s.toFinset.card = s.len := rfl

theorem toFinset_empty : (empty : HashSet α).toFinset = ∅ := rfl

theorem isEmpty_iff_toFinset {s : HashSet α} : s.isEmpty = true ↔ s.toFinset = ∅ := by
  rw [isEmpty_iff, Finset.eq_empty_iff_forall_notMem]
  rfl

variable [DecidableEq α]

def contains (s : HashSet α) (a : α) : Bool := decide (a ∈ s.elems)

def insert (s : HashSet α) (a : α) : HashSet α := ⟨s.elems.insert a, s.nodup.insert⟩

def remove (s : HashSet α) (a : α) : HashSet α := ⟨s.elems.erase a, s.nodup.erase a⟩

@[simp] theorem mem_insert {s : HashSet α} {a b : α} : b ∈ s.insert a ↔ b = a ∨ b ∈ s := by
  simp [mem_def, insert]

@[simp] theorem mem_remove {s : HashSet α} {a b : α} : b ∈ s.remove a ↔ b ≠ a ∧ b ∈ s := by
  simp [mem_def, remove, s.nodup.mem_erase_iff]

@[simp] theorem contains_iff {s : HashSet α} {a : α} : s.contains a = true ↔ a ∈ s := by
  simp [contains, mem_def]

theorem toFinset_insert (s : HashSet α) (a : α) :
    (s.insert a).toFinset = Insert.insert a s.toFinset := by
  ext b
  simp

theorem toFinset_remove (s : HashSet α) (a : α) : (s.remove a).toFinset = s.toFinset.erase a := by
  ext b
  simp

theorem isEmpty_insert (s : HashSet α) (a : α) : (s.insert a).isEmpty = false := by
  rw [Bool.eq_false_iff]
  intro h
  exact isEmpty_iff.mp h a (mem_insert.mpr (Or.inl rfl))

end HashSet
