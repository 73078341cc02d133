import Mathlib.Data.Set.Insert
import Heaven.Lib.Dict
import Heaven.Lib.HashSet

/-! # Indexes of a relation

A relation between keys and elements is kept as a map that sends a key to the set of its elements;
a key without elements is not in the map.  `Represents o A` says that the cell `o` of such a
map holds the set `A`, and `Indexes d f` that this is so for every key.

An element is added to a cell by making a set where there is none (`represents_insert`), and
removed by dropping the set when it has become empty (`represents_unlessEmpty`). -/

variable {κ α : Type}

/-- The cell holds the elements of `A`; without elements it is vacant. -/
structure Represents (o : Option (HashSet α)) (A : Set α) : Prop where
  present : (∃ s, o = some s) ↔ A.Nonempty
  mem : ∀ s, o = some s → ∀ a, a ∈ s ↔ a ∈ A

theorem represents_none {A : Set α} : Represents none A ↔ A = ∅ := by
  rw [← Set.not_nonempty_iff_eq_empty]
  constructor
  · intro h hA
    obtain ⟨s, hs⟩ := h.present.mpr hA
    cases hs
  · intro hA
    refine ⟨iff_of_false ?_ hA, ?_⟩
    · rintro ⟨s, hs⟩
      cases hs
    · intro s hs
      cases hs

theorem represents_some {s : HashSet α} {A : Set α} :
    Represents (some s) A ↔ A.Nonempty ∧ ∀ a, a ∈ s ↔ a ∈ A := by
  constructor
  · intro h
    exact ⟨h.present.mp ⟨s, rfl⟩, h.mem s rfl⟩
  · rintro ⟨hA, hs⟩
    refine ⟨iff_of_true ⟨s, rfl⟩ hA, ?_⟩
    intro s' hs'
    cases hs'
    exact hs

/-- The set of the cell, empty where there is none. -/
theorem Represents.mem_getD {o : Option (HashSet α)} {A : Set α} (h : Represents o A) (a : α) :
    a ∈ o.getD HashSet.empty ↔ a ∈ A := by
  cases o with
  | none =>
      rw [represents_none] at h
      subst h
      exact iff_of_false (HashSet.not_mem_empty a) (Set.notMem_empty a)
  | some s => exact h.mem s rfl a

theorem Represents.exists_mem {o : Option (HashSet α)} {A : Set α} (h : Represents o A) {a : α} :
    (∃ s, o = some s ∧ a ∈ s) ↔ a ∈ A := by
  constructor
  · rintro ⟨s, hs, ha⟩
    exact (h.mem s hs a).mp ha
  · intro ha
    obtain ⟨s, hs⟩ := h.present.mpr ⟨a, ha⟩
    exact ⟨s, hs, (h.mem s hs a).mpr ha⟩

theorem HashSet.isEmpty_iff_not_nonempty {s : HashSet α} {A : Set α} (h : ∀ a, a ∈ s ↔ a ∈ A) :
    s.isEmpty = true ↔ ¬ A.Nonempty := by
  rw [HashSet.isEmpty_iff, Set.not_nonempty_iff_eq_empty, Set.eq_empty_iff_forall_notMem]
  exact forall_congr' fun a => not_congr (h a)

/-- A set that is dropped when it is empty. -/
theorem represents_unlessEmpty {s : HashSet α} {A : Set α} (h : ∀ a, a ∈ s ↔ a ∈ A) :
    Represents (if s.isEmpty then none else some s) A := by
  have hempty := HashSet.isEmpty_iff_not_nonempty h
  split_ifs with hs
  · rw [represents_none, ← Set.not_nonempty_iff_eq_empty]
    exact hempty.mp hs
  · rw [represents_some]
    exact ⟨not_not.mp (hempty.not.mp hs), h⟩

/-- The map holds the sets of the family. -/
def Indexes [DecidableEq κ] (d : Dict κ (HashSet α)) (f : κ → Set α) : Prop :=
  ∀ k, Represents (d.get? k) (f k)

variable [DecidableEq κ] {d : Dict κ (HashSet α)} {f g : κ → Set α}

theorem indexes_empty : Indexes (Dict.empty : Dict κ (HashSet α)) fun _ => ∅ := by
  intro k
  rw [Dict.get?_empty]
  exact represents_none.mpr rfl

theorem Indexes.eq_empty (h : Indexes d f) {k : κ} (hk : d.get? k = none) : f k = ∅ := by
  rw [← represents_none, ← hk]
  exact h k

theorem Indexes.put (h : Indexes d f) {k : κ} {o : Option (HashSet α)} (ho : Represents o (g k))
    (hne : ∀ k', k' ≠ k → g k' = f k') : Indexes (d.put k o) g := by
  intro k'
  by_cases hk : k' = k
  · subst hk
    rw [Dict.get?_put_self]
    exact ho
  · rw [Dict.get?_put_ne d o hk, hne k' hk]
    exact h k'

/-- Enumerating a cell meets each element of the set once. -/
theorem Represents.elems {o : Option (HashSet α)} {A : Set α} (h : Represents o A) :
    (o.elim [] HashSet.elems).Nodup ∧ ∀ a, a ∈ o.elim [] HashSet.elems ↔ a ∈ A := by
  cases o with
  | none =>
      rw [represents_none] at h
      subst h
      exact ⟨List.nodup_nil, fun a => iff_of_false List.not_mem_nil (Set.notMem_empty a)⟩
  | some s => exact ⟨s.nodup, h.mem s rfl⟩

variable [DecidableEq α]

/-- A set to which an element is added, made where there is none. -/
theorem represents_insert {o : Option (HashSet α)} {A : Set α} (h : Represents o A) (a : α) :
    Represents (some ((o.getD HashSet.empty).insert a)) (insert a A) := by
  rw [represents_some]
  refine ⟨⟨a, Set.mem_insert a A⟩, ?_⟩
  intro b
  rw [HashSet.mem_insert, Set.mem_insert_iff, h.mem_getD]
