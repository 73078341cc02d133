import Mathlib.Data.Nat.Basic

/-! # Loops that leave with a result

The body of a loop takes a state to the next one and either goes round `again` or leaves with a
result; it may also fail.  `Loops.run` runs a body on fuel, `Loops.Head` are the states in which a
run stands at the head of the loop, `Loops.Passes` counts the passes that lead there.

The rules: `run_total` (an invariant and a measure give a run that ends, with the postcondition),
`run_leads` (an invariant gives the postcondition of a run that ends), and `run_ok_iff`, which says
exactly when a loop with a measure ends without a failure, namely if the body fails at none of its
heads.  `passes_of_run` takes a run that ends apart into its passes, and `Passes.add_measure_le`
bounds their number by the measure at the entry. -/

namespace Loops

/-- How a pass of the body ends. -/
inductive Jump (ρ : Type) where
  | again
  | leave (result : ρ)

variable {σ ε ρ : Type} {body : σ → Except ε (σ × Jump ρ)}

/-- `none` when the fuel runs out. -/
def run (body : σ → Except ε (σ × Jump ρ)) : ℕ → σ → Option (Except ε (σ × ρ))
  | 0, _ => none
  | fuel + 1, s =>
      match body s with
      | .error e => some (.error e)
      | .ok (s', .again) => run body fuel s'
      | .ok (s', .leave result) => some (.ok (s', result))

/-- The states at the head of a loop entered in `s`. -/
inductive Head (body : σ → Except ε (σ × Jump ρ)) (s : σ) : σ → Prop
  | enter : Head body s s
  | again {t t' : σ} (h : Head body s t) (hbody : body t = .ok (t', .again)) : Head body s t'

theorem Head.of_again {s s' t : σ} (hbody : body s = .ok (s', .again)) (h : Head body s' t) :
    Head body s t := by
  induction h with
  | enter => exact .again .enter hbody
  | again _ hnext ih => exact .again ih hnext

/-- A head is the entry, or is reached after the first pass. -/
theorem Head.first_pass {s t : σ} (h : Head body s t) :
    t = s ∨ ∃ s', body s = .ok (s', .again) ∧ Head body s' t := by
  induction h with
  | enter => exact .inl rfl
  | again _ hnext ih =>
      obtain rfl | ⟨s', hs, hs'⟩ := ih
      · exact .inr ⟨_, hnext, .enter⟩
      · exact .inr ⟨s', hs, .again hs' hnext⟩

theorem Head.keeps {I : σ → Prop} {s t : σ} (h : Head body s t)
    (hkeep : ∀ s s', I s → body s = .ok (s', .again) → I s') (hI : I s) : I t := by
  induction h with
  | enter => exact hI
  | again _ hnext ih => exact hkeep _ _ ih hnext

/-- `t` is the state after `n` passes that all go round again. -/
inductive Passes (body : σ → Except ε (σ × Jump ρ)) (s : σ) : ℕ → σ → Prop
  | enter : Passes body s 0 s
  | again {n : ℕ} {t t' : σ} (h : Passes body s n t) (hbody : body t = .ok (t', .again)) :
      Passes body s (n + 1) t'

theorem Passes.of_again {s s' t : σ} {n : ℕ} (hbody : body s = .ok (s', .again))
    (h : Passes body s' n t) : Passes body s (n + 1) t := by
  induction h with
  | enter => exact .again .enter hbody
  | again _ hnext ih => exact .again ih hnext

/-- **Every pass costs a unit of the measure**, so only so many of them go round again. -/
theorem Passes.add_measure_le {I : σ → Prop} {m : σ → ℕ} {s t : σ} {n : ℕ}
    (hkeep : ∀ s s', I s → body s = .ok (s', .again) → I s' ∧ m s' < m s)
    (h : Passes body s n t) (hI : I s) : I t ∧ n + m t ≤ m s := by
  induction h with
  | enter => exact ⟨hI, by omega⟩
  | again _ hnext ih =>
      obtain ⟨hbefore, hle⟩ := ih
      obtain ⟨hafter, hlt⟩ := hkeep _ _ hbefore hnext
      exact ⟨hafter, by omega⟩

/-- **Total correctness.**  The body keeps the invariant and lowers the measure, or leaves with
the postcondition; then the loop ends with the postcondition. -/
theorem run_total {I : σ → Prop} {m : σ → ℕ} {Q : σ → ρ → Prop}
    (hbody : ∀ s, I s →
      (∃ s', body s = .ok (s', .again) ∧ I s' ∧ m s' < m s) ∨
        ∃ s' result, body s = .ok (s', .leave result) ∧ Q s' result) :
    ∀ (fuel : ℕ) (s : σ), I s → m s < fuel →
      ∃ s' result, run body fuel s = some (.ok (s', result)) ∧ Q s' result
  | 0, _, _, hm => absurd hm (Nat.not_lt_zero _)
  | fuel + 1, s, hI, hm => by
      rcases hbody s hI with ⟨s', hs, hI', hm'⟩ | ⟨s', result, hs, hQ⟩
      · obtain ⟨t, result, hrun, hQ⟩ := run_total hbody fuel s' hI' (by omega)
        refine ⟨t, result, ?_, hQ⟩
        rw [run, hs]
        exact hrun
      · refine ⟨s', result, ?_, hQ⟩
        rw [run, hs]

/-- The jump goes to a state in which the loop can go on, or leaves with the postcondition. -/
def Jump.Leads (loop : σ → Prop) (post : σ → ρ → Prop) (s : σ) : Jump ρ → Prop
  | .again => loop s
  | .leave result => post s result

/-- What holds whichever way the body leaves. -/
theorem Jump.leads_self {I : σ → Prop} {s : σ} (h : I s) (jump : Jump ρ) :
    jump.Leads I (fun s _ => I s) s := by
  cases jump
  all_goals exact h

/-- **Partial correctness.**  If the loop ends, it ends with the postcondition. -/
theorem run_leads {loop : σ → Prop} {post : σ → ρ → Prop}
    (hbody : ∀ s s' jump, loop s → body s = .ok (s', jump) → jump.Leads loop post s') :
    ∀ (fuel : ℕ) (s : σ) {s' : σ} {result : ρ}, loop s →
      run body fuel s = some (.ok (s', result)) → post s' result
  | 0, _, _, _, _, h => nomatch h
  | fuel + 1, s, s', result, hloop, h => by
      rw [run] at h
      cases hs : body s with
      | error e => rw [hs] at h; cases h
      | ok pass =>
          obtain ⟨t, jump⟩ := pass
          have ht := hbody s t jump hloop hs
          rw [hs] at h
          cases jump with
          | again => exact run_leads hbody fuel t ht h
          | leave result' =>
              cases h
              exact ht

/-- A run that ends consists of passes that go round again, and of one that leaves. -/
theorem passes_of_run {s' : σ} {result : ρ} : ∀ (fuel : ℕ) (s : σ),
    run body fuel s = some (.ok (s', result)) →
      ∃ n last, Passes body s n last ∧ body last = .ok (s', .leave result) := by
  intro fuel
  induction fuel with
  | zero =>
      intro s h
      simp [run] at h
  | succ fuel ih =>
      intro s h
      rw [run] at h
      cases hs : body s with
      | error e => simp [hs] at h
      | ok pass =>
          obtain ⟨t, jump⟩ := pass
          cases jump with
          | leave result' =>
              have hout : t = s' ∧ result' = result := by simpa [hs] using h
              obtain ⟨rfl, rfl⟩ := hout
              exact ⟨0, s, .enter, hs⟩
          | again =>
              have hrest : run body fuel t = some (.ok (s', result)) := by simpa [hs] using h
              obtain ⟨n, last, hpasses, hlast⟩ := ih t hrest
              exact ⟨n + 1, last, .of_again hs hpasses, hlast⟩

/-- Where the fuel runs out, it has been used up by passes that go round again. -/
theorem passes_of_run_eq_none : ∀ (fuel : ℕ) (s : σ), run body fuel s = none →
    ∃ t, Passes body s fuel t := by
  intro fuel
  induction fuel with
  | zero =>
      intro s _
      exact ⟨s, .enter⟩
  | succ fuel ih =>
      intro s h
      rw [run] at h
      cases hs : body s with
      | error e => simp [hs] at h
      | ok pass =>
          obtain ⟨t, jump⟩ := pass
          cases jump with
          | leave result => simp [hs] at h
          | again =>
              have hrest : run body fuel t = none := by simpa [hs] using h
              obtain ⟨last, hpasses⟩ := ih t hrest
              exact ⟨last, .of_again hs hpasses⟩

/-- **A loop ends without a failure precisely if its body fails at none of its heads.** -/
theorem run_ok_iff {I : σ → Prop} {m : σ → ℕ}
    (hkeep : ∀ s s', I s → body s = .ok (s', .again) → I s' ∧ m s' < m s) :
    ∀ (fuel : ℕ) (s : σ), I s → m s < fuel →
      ((∃ out, run body fuel s = some (.ok out)) ↔ ∀ t, Head body s t → ∃ out, body t = .ok out)
  | 0, _, _, hm => absurd hm (Nat.not_lt_zero _)
  | fuel + 1, s, hI, hm => by
      rw [run]
      cases hs : body s with
      | error e =>
          constructor
          · rintro ⟨out, hout⟩
            cases hout
          · intro h
            obtain ⟨out, hout⟩ := h s .enter
            rw [hs] at hout
            cases hout
      | ok pass =>
          obtain ⟨s', jump⟩ := pass
          cases jump with
          | leave result =>
              -- the body leaves at once, so the entry is the only head
              apply iff_of_true ⟨_, rfl⟩
              intro t ht
              obtain rfl | ⟨s₁, hs₁, -⟩ := ht.first_pass
              · exact ⟨_, hs⟩
              · rw [hs] at hs₁
                cases hs₁
          | again =>
              obtain ⟨hI', hm'⟩ := hkeep s s' hI hs
              have ih := run_ok_iff hkeep fuel s' hI' (by omega)
              dsimp only
              rw [ih]
              constructor
              · intro h t ht
                obtain rfl | ⟨s₁, hs₁, ht⟩ := ht.first_pass
                · exact ⟨_, hs⟩
                · rw [hs] at hs₁
                  cases hs₁
                  exact h t ht
              · intro h t ht
                exact h t (.of_again hs ht)

end Loops
