import Mathlib.Computability.StateTransition

/-! # Paths of a step that may stop

A step takes a state to the next one or stops there; `StateTransition.Reaches` are the states on the
path from a state, and `StateTransition.eval` is the end of the path.

Where a measure falls with each step, the path has an end (`exists_mem_eval`), which can be gone to
(`finish`), and the path can be written down (`trace`).

`Until P` is the path as far as no state has `P`: a state with `P` on the path does not lie before
(`Until.reaches`), and where none lies before, the path comes so far (`until_of_reaches`). -/

namespace Paths

open Relation
open StateTransition (Reaches eval mem_eval)

variable {σ : Type} {next : σ → Option σ} {s t u : σ}

/-- What every step keeps, holds on the path. -/
theorem keeps {I : σ → Prop} (hstep : ∀ s t, I s → next s = some t → I t) (h : Reaches next s t)
    (hI : I s) : I t := by
  induction h with
  | refl => exact hI
  | tail _ hnext ih => exact hstep _ _ ih hnext

/-- Nothing follows a state in which the step stops. -/
theorem eq_of_reaches (h : Reaches next s t) (hstop : next s = none) : t = s := by
  obtain rfl | ⟨u, hu, -⟩ := ReflTransGen.cases_head h
  · rfl
  · rw [Option.mem_def, hstop] at hu
    cases hu

/-- All states of a path lead to its end. -/
theorem reaches_end {e : σ} (h : Reaches next s t) (he : e ∈ eval next s) : Reaches next t e := by
  rw [StateTransition.reaches_eval h] at he
  exact (mem_eval.mp he).1

section Measure

variable {m : σ → ℕ} (hless : ∀ s t, next s = some t → m t < m s)

include hless

theorem exists_mem_eval (s : σ) : ∃ e, e ∈ eval next s := by
  induction hm : m s using Nat.strong_induction_on generalizing s with
  | _ n ih =>
      cases hnext : next s with
      | none => exact ⟨s, mem_eval.mpr ⟨.refl, hnext⟩⟩
      | some t =>
          obtain ⟨e, he⟩ := ih (m t) (hm ▸ hless s t hnext) t rfl
          obtain ⟨hreach, hstop⟩ := mem_eval.mp he
          exact ⟨e, mem_eval.mpr ⟨.head hnext hreach, hstop⟩⟩

/-- The states of a path, at most `n + 1` of them. -/
def trace (next : σ → Option σ) : ℕ → σ → List σ
  | 0, s => [s]
  | n + 1, s => s :: ((next s).map (trace next n)).getD []

/-- The end of a path of at most `n` steps. -/
def finish (next : σ → Option σ) : ℕ → σ → σ
  | 0, s => s
  | n + 1, s => ((next s).map (finish next n)).getD s

theorem finish_mem_eval : ∀ {n : ℕ} {s : σ}, m s ≤ n → finish next n s ∈ eval next s
  | 0, s, hm => by
      refine mem_eval.mpr ⟨.refl, ?_⟩
      cases hnext : next s with
      | none => exact hnext
      | some t =>
          have hlt := hless s t hnext
          omega
  | n + 1, s, hm => by
      cases hnext : next s with
      | none =>
          rw [finish, hnext]
          exact mem_eval.mpr ⟨.refl, hnext⟩
      | some t =>
          have hlt := hless s t hnext
          obtain ⟨hreach, hstop⟩ := mem_eval.mp (finish_mem_eval (n := n) (s := t) (by omega))
          rw [finish, hnext]
          exact mem_eval.mpr ⟨.head hnext hreach, hstop⟩

/-- All states of a path lead to where it is followed. -/
theorem reaches_finish {n : ℕ} (hm : m s ≤ n) (h : Reaches next s t) :
    Reaches next t (finish next n s) :=
  reaches_end h (finish_mem_eval hless hm)

theorem mem_trace : ∀ {n : ℕ} {s : σ}, m s ≤ n → Reaches next s t → t ∈ trace next n s
  | n, s, hm, h => by
      obtain rfl | ⟨u, hu, hrest⟩ := ReflTransGen.cases_head h
      · cases n <;> exact List.mem_cons_self
      · have hlt := hless s u hu
        cases n with
        | zero => omega
        | succ n =>
            rw [trace, Option.mem_def.mp hu]
            exact List.mem_cons_of_mem _ (mem_trace (by omega) hrest)

end Measure

/-- The path as far as no state before has `P`. -/
def Until (next : σ → Option σ) (P : σ → Prop) : σ → σ → Prop :=
  ReflTransGen fun s t => next s = some t ∧ ¬ P s

variable {P : σ → Prop}

theorem Until.toReaches (h : Until next P s t) : Reaches next s t := by
  induction h with
  | refl => exact .refl
  | tail _ hstep ih => exact ih.tail hstep.1

/-- A state with `P` does not lie before. -/
theorem Until.reaches (h : Until next P s t) (hu : Reaches next s u) (hP : P u) :
    Reaches next t u := by
  induction h with
  | refl => exact hu
  | tail _ hstep ih =>
      obtain rfl | ⟨v, hv, hrest⟩ := ReflTransGen.cases_head ih
      · exact absurd hP hstep.2
      · obtain rfl := Option.some.inj (hstep.1.symm.trans hv)
        exact hrest

/-- A path along which a measure falls has come as far as `t` without `P`, if every state with `P`
lies at `t` or behind. -/
theorem until_of_reaches {m : σ → ℕ} (hless : ∀ s t, next s = some t → m t < m s)
    (h : Reaches next s t) (hbehind : ∀ u, Reaches next s u → P u → Reaches next t u) :
    Until next P s t := by
  induction h with
  | refl => exact .refl
  | @tail t v hpath hnext ih =>
      have hback : ∀ u, Reaches next s u → P u → Reaches next t u := fun u hu hP =>
        .head hnext (hbehind u hu hP)
      refine (ih hback).tail ⟨hnext, ?_⟩
      intro hP
      have hle : m t ≤ m v := keeps (I := fun u => m u ≤ m v)
        (fun u u' hu hu' => (hless u u' hu').le.trans hu) (hbehind t hpath hP) (Nat.le_refl _)
      have hlt := hless t v hnext
      omega

end Paths
