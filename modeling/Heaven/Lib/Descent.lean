import Mathlib.Data.Nat.Init
import Heaven.Lib.Runs

/-! # Runs that come to an end

Some inputs of a machine are due in a state.  Where every due step lowers a measure, a run of due
steps is no longer than the measure of its first state (`Due.length_le`), so it cannot go on for
ever; and from every state some run of due steps ends in a state in which nothing is due
(`exists_stuck`). -/

namespace Runs

variable {σ α ε : Type} {step : σ → α → Except ε σ} {C : σ → α → Prop}

/-- The run takes inputs that are due. -/
inductive Due (step : σ → α → Except ε σ) (C : σ → α → Prop) : σ → List α → σ → Prop
  | nil (s : σ) : Due step C s [] s
  | cons {s t s' : σ} {a : α} {as : List α} (due : C s a) (h : step s a = .ok t)
      (rest : Due step C t as s') : Due step C s (a :: as) s'

theorem Due.run {s s' : σ} {as : List α} (h : Due step C s as s') : Run step s as s' := by
  induction h with
  | nil s => exact .nil s
  | cons _ ha _ ih => exact .cons ha ih

/-- Nothing that is due can be done. -/
def Stuck (step : σ → α → Except ε σ) (C : σ → α → Prop) (s : σ) : Prop :=
  ∀ a s', C s a → step s a ≠ .ok s'

section Measure

variable {I : σ → Prop} {w : σ → ℕ} (hinv : ∀ s a s', I s → step s a = .ok s' → I s')
  (hless : ∀ s a s', I s → C s a → step s a = .ok s' → w s' < w s)

include hinv hless

/-- **A run of due steps is no longer than the measure.** -/
theorem Due.length_le {s s' : σ} {as : List α} (h : Due step C s as s') (hI : I s) :
    as.length + w s' ≤ w s := by
  induction h with
  | nil => exact Nat.le_of_eq (Nat.zero_add _)
  | @cons s t s' a as due ha _ ih =>
      have hrest := ih (hinv s a t hI ha)
      have hlt := hless s a t hI due ha
      rw [List.length_cons]
      omega

/-- **Every run of due steps can be completed.** -/
theorem exists_stuck {s : σ} (hI : I s) : ∃ as s', Due step C s as s' ∧ Stuck step C s' := by
  induction hn : w s using Nat.strong_induction_on generalizing s with
  | h n ih =>
      by_cases hstuck : Stuck step C s
      · exact ⟨[], s, .nil s, hstuck⟩
      · simp only [Stuck, not_forall, not_not] at hstuck
        obtain ⟨a, t, due, ha⟩ := hstuck
        have hlt := hless s a t hI due ha
        obtain ⟨as, s', hrest, hend⟩ := ih (w t) (hn ▸ hlt) (hinv s a t hI ha) rfl
        exact ⟨a :: as, s', .cons due ha hrest, hend⟩

end Measure

end Runs
