import Mathlib.Data.List.Induction

/-! # Histories

A list that only grows at its end.  `Successive P l` says that every element of `l` meets a
condition on the elements before it.  What holds of the empty history and survives the arrival of
an element that meets the condition holds of the whole history (`Successive.induction`). -/

variable {α : Type} {P : List α → α → Prop}

/-- Every element meets the condition on the elements before it. -/
def Successive (P : List α → α → Prop) (l : List α) : Prop :=
  ∀ pre a post, l = pre ++ a :: post → P pre a

theorem successive_nil : Successive P [] := by
  intro pre a post h
  cases pre <;> cases h

/-- A history goes on with an element that meets the condition. -/
theorem successive_concat {l : List α} {a : α} :
    Successive P (l ++ [a]) ↔ Successive P l ∧ P l a := by
  constructor
  · intro h
    refine ⟨?_, h l a [] rfl⟩
    intro pre b post hl
    apply h pre b (post ++ [a])
    rw [hl, List.append_assoc, List.cons_append]
  · rintro ⟨hl, ha⟩ pre b post heq
    rcases List.eq_nil_or_concat post with rfl | ⟨post, c, rfl⟩
    · obtain ⟨rfl, hb⟩ := List.append_inj' heq rfl
      cases hb
      exact ha
    · have hsplit : l ++ [a] = (pre ++ b :: post) ++ [c] := by
        rw [heq, List.append_assoc, List.cons_append, List.concat_eq_append]
      obtain ⟨rfl, -⟩ := List.append_inj' hsplit rfl
      exact hl pre b post rfl

/-- The beginning of a history is a history. -/
theorem Successive.of_append {l l' : List α} (h : Successive P (l ++ l')) : Successive P l := by
  intro pre a post hl
  apply h pre a (post ++ l')
  rw [hl, List.append_assoc, List.cons_append]

/-- A history goes on with several elements. -/
theorem Successive.append {l : List α} (hl : Successive P l) {l' : List α}
    (h : ∀ pre a post, l' = pre ++ a :: post → P (l ++ pre) a) : Successive P (l ++ l') := by
  induction l' using List.reverseRecOn with
  | nil => rwa [List.append_nil]
  | append_singleton l' a ih =>
      rw [← List.append_assoc, successive_concat]
      refine ⟨?_, h l' a [] rfl⟩
      apply ih
      intro pre b post hl'
      apply h pre b (post ++ [a])
      rw [hl', List.append_assoc, List.cons_append]

/-- **The induction over histories.** -/
theorem Successive.induction {M : List α → Prop} (hnil : M [])
    (hconcat : ∀ l a, Successive P l → P l a → M l → M (l ++ [a])) {l : List α}
    (h : Successive P l) : M l := by
  induction l using List.reverseRecOn with
  | nil => exact hnil
  | append_singleton l a ih =>
      obtain ⟨hl, ha⟩ := successive_concat.mp h
      exact hconcat l a hl ha (ih hl)
