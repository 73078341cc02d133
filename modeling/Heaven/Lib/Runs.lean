import Mathlib.Data.List.Basic

/-! # Runs of a step that can fail

A machine whose step on an input either yields the next state or fails.  `Run step s as s'` says
that the machine takes the inputs `as` from `s` to `s'`.  `Throughout` speaks of every state a run
reaches and `Always` of every step it takes, failed or not.

`runAll` executes a run.  `Run.invariant` is the induction over runs.  `throughout_iff_always` is
its exact form: where one step keeps `I` precisely under the condition `C`, a run has `I` throughout
precisely if all its steps meet `C`.  `exists_run_iff_always` says the same of the success of the
steps. -/

namespace Runs

variable {σ α ε : Type} {step : σ → α → Except ε σ}

/-- The inputs are taken one after the other, and no step fails. -/
inductive Run (step : σ → α → Except ε σ) : σ → List α → σ → Prop
  | nil (s : σ) : Run step s [] s
  | cons {s t s' : σ} {a : α} {as : List α} (h : step s a = .ok t) (rest : Run step t as s') :
      Run step s (a :: as) s'

theorem Run.append {s t s' : σ} {as bs : List α} (h : Run step s as t) (h' : Run step t bs s') :
    Run step s (as ++ bs) s' := by
  induction h with
  | nil => exact h'
  | cons ha _ ih => exact .cons ha (ih h')

/-- Take the inputs one after the other. -/
def runAll (step : σ → α → Except ε σ) : σ → List α → Except ε σ
  | s, [] => .ok s
  | s, a :: as =>
      match step s a with
      | .ok t => runAll step t as
      | .error e => .error e

theorem run_of_runAll {s s' : σ} {as : List α} (h : runAll step s as = .ok s') :
    Run step s as s' := by
  induction as generalizing s with
  | nil =>
      cases h
      exact .nil _
  | cons a as ih =>
      cases ha : step s a with
      | error e =>
          rw [runAll, ha] at h
          cases h
      | ok t =>
          rw [runAll, ha] at h
          exact .cons ha (ih h)

/-- A run that has been executed, with something seen of its last state. -/
theorem exists_run (s : σ) (as : List α) (seen : σ → Bool)
    (h : (runAll step s as).map seen = .ok true) : ∃ s', Run step s as s' ∧ seen s' = true := by
  cases hrun : runAll step s as with
  | error e =>
      rw [hrun] at h
      cases h
  | ok s' =>
      rw [hrun] at h
      exact ⟨s', run_of_runAll hrun, Except.ok.inj h⟩

/-- A run that has been executed and gone on with, with something seen of both its states. -/
theorem exists_runs (s : σ) (as bs : List α) (seen : σ → σ → Bool)
    (h : ((runAll step s as).bind fun t => (runAll step t bs).map (seen t)) = .ok true) :
    ∃ t s', Run step s as t ∧ Run step t bs s' ∧ seen t s' = true := by
  cases hfirst : runAll step s as with
  | error e =>
      rw [hfirst] at h
      cases h
  | ok t =>
      rw [hfirst] at h
      obtain ⟨s', hlater, hseen⟩ := exists_run t bs (seen t) h
      exact ⟨t, s', run_of_runAll hfirst, hlater, hseen⟩

/-- The induction over runs. -/
theorem Run.invariant {I : σ → Prop} {P : α → Prop} {s s' : σ} {as : List α}
    (h : Run step s as s') (hstep : ∀ s a s', P a → I s → step s a = .ok s' → I s')
    (hP : ∀ a ∈ as, P a) (hI : I s) : I s' := by
  induction h with
  | nil => exact hI
  | cons ha _ ih =>
      rw [List.forall_mem_cons] at hP
      exact ih hP.2 (hstep _ _ _ hP.1 hI ha)

/-- `I` holds in every state that the run of `as` from `s` reaches. -/
def Throughout (step : σ → α → Except ε σ) (I : σ → Prop) (s : σ) (as : List α) : Prop :=
  ∀ pre post s', as = pre ++ post → Run step s pre s' → I s'

/-- Every step of the run of `as` from `s` meets `C` in the state before it. -/
def Always (step : σ → α → Except ε σ) (C : σ → α → Prop) (s : σ) (as : List α) : Prop :=
  ∀ pre a post s', as = pre ++ a :: post → Run step s pre s' → C s' a

theorem throughout_nil {I : σ → Prop} {s : σ} : Throughout step I s [] ↔ I s := by
  constructor
  · intro h
    exact h [] [] s rfl (.nil s)
  · intro h pre post s' hpre hrun
    obtain ⟨rfl, rfl⟩ := List.nil_eq_append_iff.mp hpre
    cases hrun
    exact h

theorem throughout_cons {I : σ → Prop} {s : σ} {a : α} {as : List α} :
    Throughout step I s (a :: as) ↔ I s ∧ ∀ t, step s a = .ok t → Throughout step I t as := by
  constructor
  · intro h
    refine ⟨h [] (a :: as) s rfl (.nil s), ?_⟩
    intro t ht pre post s' has hrun
    have hsplit : a :: as = (a :: pre) ++ post := by rw [has, List.cons_append]
    exact h (a :: pre) post s' hsplit (.cons ht hrun)
  · rintro ⟨hs, hrest⟩ pre post s' has hrun
    cases hrun with
    | nil => exact hs
    | cons ht hrun =>
        obtain ⟨rfl, hrest'⟩ := List.cons.inj has
        exact hrest _ ht _ post s' hrest' hrun

theorem always_nil {C : σ → α → Prop} {s : σ} : Always step C s [] := by
  intro pre a post s' h
  cases pre <;> cases h

theorem always_cons {C : σ → α → Prop} {s : σ} {a : α} {as : List α} :
    Always step C s (a :: as) ↔ C s a ∧ ∀ t, step s a = .ok t → Always step C t as := by
  constructor
  · intro h
    refine ⟨h [] a as s rfl (.nil s), ?_⟩
    intro t ht pre b post s' has hrun
    have hsplit : a :: as = (a :: pre) ++ b :: post := by rw [has, List.cons_append]
    exact h (a :: pre) b post s' hsplit (.cons ht hrun)
  · rintro ⟨hs, hrest⟩ pre b post s' has hrun
    cases hrun with
    | nil =>
        obtain ⟨rfl, -⟩ := List.cons.inj has
        exact hs
    | cons ht hrun =>
        obtain ⟨rfl, hrest'⟩ := List.cons.inj has
        exact hrest _ ht _ b post s' hrest' hrun

/-- Whether a run meets a condition can be tried out. -/
instance decidableAlways {C : σ → α → Prop} [∀ s a, Decidable (C s a)] :
    ∀ (s : σ) (as : List α), Decidable (Always step C s as)
  | _, [] => isTrue always_nil
  | s, a :: as =>
      match h : step s a with
      | .ok t =>
          have : Decidable (Always step C t as) := decidableAlways t as
          decidable_of_iff (C s a ∧ Always step C t as) (by simp [always_cons, h])
      | .error _ => decidable_of_iff (C s a) (by simp [always_cons, h])

/-- A run whose steps meet `C` keeps `I` throughout, where steps that meet `C` keep `I`. -/
theorem Always.throughout {I : σ → Prop} {C : σ → α → Prop}
    (hstep : ∀ s a s', C s a → I s → step s a = .ok s' → I s') {s : σ} {as : List α}
    (h : Always step C s as) (hI : I s) : Throughout step I s as := by
  induction as generalizing s with
  | nil => exact throughout_nil.mpr hI
  | cons a as ih =>
      obtain ⟨ha, hrest⟩ := always_cons.mp h
      refine throughout_cons.mpr ⟨hI, ?_⟩
      intro t ht
      exact ih (hrest t ht) (hstep s a t ha hI ht)

/-- Where a step meets `C` precisely if it meets `D`, so do the steps of a run. -/
theorem always_congr {C D : σ → α → Prop} {I : σ → Prop} {P : α → Prop}
    (hinv : ∀ s a s', P a → I s → step s a = .ok s' → I s')
    (hCD : ∀ s a, P a → I s → (C s a ↔ D s a)) {s : σ} {as : List α} (hP : ∀ a ∈ as, P a)
    (hI : I s) : Always step C s as ↔ Always step D s as := by
  induction as generalizing s with
  | nil => exact iff_of_true always_nil always_nil
  | cons a as ih =>
      rw [List.forall_mem_cons] at hP
      rw [always_cons, always_cons, hCD s a hP.1 hI]
      apply and_congr_right
      intro _
      apply forall₂_congr
      intro t ht
      exact ih hP.2 (hinv s a t hP.1 hI ht)

/-- The state after a run is determined by its inputs. -/
theorem Run.unique {s t t' : σ} {as : List α} (h : Run step s as t) (h' : Run step s as t') :
    t = t' := by
  induction h with
  | nil =>
      cases h'
      rfl
  | cons ha _ ih =>
      cases h' with
      | cons ha' hrest' =>
          rw [ha] at ha'
          cases ha'
          exact ih hrest'

/-- **A run goes through precisely if each of its steps meets the condition under which one step
succeeds.** -/
theorem exists_run_iff_always {C : σ → α → Prop} {P : α → Prop}
    (hstep : ∀ s a, P a → (C s a ↔ ∃ t, step s a = .ok t)) {s : σ} {as : List α}
    (hP : ∀ a ∈ as, P a) : (∃ s', Run step s as s') ↔ Always step C s as := by
  induction as generalizing s with
  | nil => exact iff_of_true ⟨s, .nil s⟩ always_nil
  | cons a as ih =>
      rw [List.forall_mem_cons] at hP
      rw [always_cons, hstep s a hP.1]
      constructor
      · rintro ⟨s', hrun⟩
        cases hrun with
        | cons ha hrest =>
            refine ⟨⟨_, ha⟩, ?_⟩
            intro t ht
            rw [ha] at ht
            cases ht
            exact (ih hP.2).mp ⟨s', hrest⟩
      · rintro ⟨⟨t, ht⟩, hrest⟩
        obtain ⟨s', hrun⟩ := (ih hP.2).mpr (hrest t ht)
        exact ⟨s', .cons ht hrun⟩

/-- **A run keeps `I` throughout precisely if each of its steps meets the condition under which one
step keeps `I`.** -/
theorem throughout_iff_always {I : σ → Prop} {C : σ → α → Prop} {P : α → Prop}
    (hstep : ∀ s a, P a → I s → (C s a ↔ ∀ s', step s a = .ok s' → I s')) {s : σ} {as : List α}
    (hP : ∀ a ∈ as, P a) (hI : I s) : Throughout step I s as ↔ Always step C s as := by
  induction as generalizing s with
  | nil => exact iff_of_true (throughout_nil.mpr hI) always_nil
  | cons a as ih =>
      rw [List.forall_mem_cons] at hP
      rw [throughout_cons, always_cons]
      constructor
      · rintro ⟨-, hrest⟩
        have hnext : ∀ t, step s a = .ok t → I t := by
          intro t ht
          exact hrest t ht [] as t rfl (.nil t)
        refine ⟨(hstep s a hP.1 hI).mpr hnext, ?_⟩
        intro t ht
        exact (ih hP.2 (hnext t ht)).mp (hrest t ht)
      · rintro ⟨ha, hrest⟩
        have hnext := (hstep s a hP.1 hI).mp ha
        refine ⟨hI, ?_⟩
        intro t ht
        exact (ih hP.2 (hnext t ht)).mpr (hrest t ht)

end Runs
