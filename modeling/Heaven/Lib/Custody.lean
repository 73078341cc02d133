import Mathlib.Algebra.BigOperators.Group.Finset.Basic

/-! # Custody

Things that are kept in several places, each under a key: `has k` collects what is found under `k`
in all places.  `Moves` is a step that takes something from under one key and puts something else
there.  Where there is at most one thing under a key, the step takes all that there is
(`Moves.of_toList`).  A quantity that is summed over everything that is kept changes by what has
been taken and what has been put (`Moves.sum_add`).

`found` collects what a list holds under a key. -/

namespace Custody

variable {κ π α : Type}

/-- What the list holds, where `at?` says what its elements are. -/
def found (at? : α → Option π) (l : List α) : Multiset π := (l.filterMap at? : List π)

@[simp] theorem found_nil (at? : α → Option π) : found at? [] = 0 := rfl

theorem found_append (at? : α → Option π) (l l' : List α) :
    found at? (l ++ l') = found at? l + found at? l' := by
  simp only [found, List.filterMap_append, Multiset.coe_add]

theorem found_cons (at? : α → Option π) (a : α) (l : List α) :
    found at? (a :: l) = (at? a).toList + found at? l := by
  cases h : at? a with
  | none =>
      simp only [found, List.filterMap_cons_none h, Option.toList_none, Multiset.coe_nil,
        Multiset.zero_add]
  | some x =>
      simp only [found, List.filterMap_cons_some h, Option.toList_some, Multiset.coe_singleton,
        Multiset.singleton_add, Multiset.cons_coe]

/-- The step takes `old` away from under the key and puts `new` there. -/
structure Moves (has has' : κ → Multiset π) (k : κ) (old new : Multiset π) : Prop where
  own : ∃ rest, has k = old + rest ∧ has' k = new + rest
  others : ∀ k', k' ≠ k → has' k' = has k'

theorem eq_of_add_eq_toList {x : π} {rest : Multiset π} {o : Option π}
    (h : {x} + rest = (o.toList : Multiset π)) : o = some x ∧ rest = 0 := by
  cases o with
  | none =>
      rw [Option.toList_none, Multiset.coe_nil, Multiset.singleton_add] at h
      exact absurd h (Multiset.cons_ne_zero)
  | some y =>
      rw [Option.toList_some, Multiset.coe_singleton, Multiset.singleton_add] at h
      obtain ⟨rfl, rfl⟩ := (Multiset.singleton_eq_cons_iff rest).mp h.symm
      exact ⟨rfl, rfl⟩

variable {has has' : κ → Multiset π} {k : κ} {old new : Multiset π}

theorem Moves.of_toList {x : π} {o : Option π} (h : Moves has has' k {x} new)
    (hk : has k = (o.toList : Multiset π)) : o = some x ∧ has' k = new := by
  obtain ⟨rest, hold, hnew⟩ := h.own
  obtain ⟨rfl, rfl⟩ := eq_of_add_eq_toList (hold.symm.trans hk)
  exact ⟨rfl, hnew.trans (Multiset.add_zero new)⟩

theorem Moves.sum_add [DecidableEq κ] (h : Moves has has' k old new) (w : π → ℕ) {keys : Finset κ}
    (hk : k ∈ keys) :
    ∑ x ∈ keys, ((has' x).map w).sum + (old.map w).sum =
      ∑ x ∈ keys, ((has x).map w).sum + (new.map w).sum := by
  obtain ⟨rest, hold, hnew⟩ := h.own
  have hothers : ∑ x ∈ keys.erase k, ((has' x).map w).sum =
      ∑ x ∈ keys.erase k, ((has x).map w).sum := by
    apply Finset.sum_congr rfl
    intro x hx
    rw [h.others x (Finset.ne_of_mem_erase hx)]
  rw [← Finset.add_sum_erase keys _ hk,
    ← Finset.add_sum_erase keys (fun x => ((has x).map w).sum) hk, hothers, hold, hnew,
    Multiset.map_add, Multiset.map_add, Multiset.sum_add, Multiset.sum_add]
  omega

end Custody
