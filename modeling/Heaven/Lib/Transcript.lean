import Mathlib.Data.List.Basic

/-! # Transcripts

A machine that takes every input, changes its state and answers.  `transcript step as s` is the
state after the inputs `as` together with the answers in order; `repeated op n` is one operation
`n` times.

Two machines whose single steps correspond have corresponding transcripts (`Simulates.throughout`):
the states are related after every part of the run, and the answers are the images of the
answers. -/

namespace Transcripts

variable {σ τ α β ρ υ : Type} {step : α → σ → σ × ρ} {step' : β → τ → τ × υ}

/-- Take the inputs one after the other and keep the answers. -/
def transcript (step : α → σ → σ × ρ) : List α → σ → σ × List ρ
  | [], s => (s, [])
  | a :: as, s =>
      let (s, r) := step a s
      let (s, rs) := transcript step as s
      (s, r :: rs)

theorem transcript_cons (a : α) (as : List α) (s : σ) :
    transcript step (a :: as) s =
      ((transcript step as (step a s).1).1, (step a s).2 :: (transcript step as (step a s).1).2) :=
  rfl

/-- The operation `n` times. -/
def repeated (op : σ → σ × ρ) (n : ℕ) : σ → σ × List ρ :=
  transcript (fun _ : Unit => op) (List.replicate n ())

theorem repeated_zero (op : σ → σ × ρ) (s : σ) : repeated op 0 s = (s, []) := rfl

theorem repeated_succ (op : σ → σ × ρ) (n : ℕ) (s : σ) :
    repeated op (n + 1) s =
      ((repeated op n (op s).1).1, (op s).2 :: (repeated op n (op s).1).2) := rfl

/-- An operation that leaves a state alone leaves it alone as often as it is repeated. -/
theorem repeated_fixed (op : σ → σ × ρ) {s : σ} (h : (op s).1 = s) (n : ℕ) :
    (repeated op n s).1 = s := by
  induction n with
  | zero => rfl
  | succ n ih => rw [repeated_succ, h, ih]

/-- Every step of the run of `as` from `s` meets `C` in the state before it. -/
def Meets (C : σ → α → Prop) (step : α → σ → σ × ρ) (as : List α) (s : σ) : Prop :=
  ∀ pre a post, as = pre ++ a :: post → C (transcript step pre s).1 a

theorem meets_nil {C : σ → α → Prop} {s : σ} : Meets C step [] s := by
  intro pre a post h
  cases pre <;> cases h

theorem meets_cons {C : σ → α → Prop} {s : σ} {a : α} {as : List α} :
    Meets C step (a :: as) s ↔ C s a ∧ Meets C step as (step a s).1 := by
  constructor
  · intro h
    refine ⟨h [] a as rfl, ?_⟩
    intro pre b post has
    exact h (a :: pre) b post (by rw [has, List.cons_append])
  · rintro ⟨ha, hrest⟩ pre b post has
    cases pre with
    | nil =>
        obtain ⟨rfl, -⟩ := List.cons.inj has
        exact ha
    | cons c pre =>
        obtain ⟨rfl, hsplit⟩ := List.cons.inj has
        exact hrest pre b post hsplit

/-- Whether a run meets a condition can be tried out. -/
instance decidableMeets {C : σ → α → Prop} [∀ s a, Decidable (C s a)] :
    ∀ (as : List α) (s : σ), Decidable (Meets C step as s)
  | [], _ => isTrue meets_nil
  | a :: as, s =>
      have : Decidable (Meets C step as (step a s).1) := decidableMeets as (step a s).1
      decidable_of_iff _ meets_cons.symm

/-- A condition on the inputs alone. -/
theorem meets_of_forall {P : α → Prop} {as : List α} (h : ∀ a ∈ as, P a) (s : σ) :
    Meets (fun _ => P) step as s := by
  intro pre a post has
  apply h
  rw [has]
  exact List.mem_append_right _ (List.mem_cons_self ..)

/-- Where `C` holds of the first machine, the second follows it: it takes the inputs `f a` and
answers the images under `g`. -/
def Simulates (R : σ → τ → Prop) (C : σ → α → Prop) (step : α → σ → σ × ρ)
    (step' : β → τ → τ × υ) (f : α → β) (g : ρ → υ) : Prop :=
  ∀ s t a, R s t → C s a → R (step a s).1 (step' (f a) t).1 ∧ (step' (f a) t).2 = g (step a s).2

variable {R : σ → τ → Prop} {C : σ → α → Prop} {f : α → β} {g : ρ → υ}

/-- Corresponding machines are in related states after the run and answer alike. -/
theorem Simulates.run (h : Simulates R C step step' f g) {as : List α} {s : σ} {t : τ}
    (hC : Meets C step as s) (hR : R s t) :
    R (transcript step as s).1 (transcript step' (as.map f) t).1 ∧
      (transcript step' (as.map f) t).2 = (transcript step as s).2.map g := by
  induction as generalizing s t with
  | nil => exact ⟨hR, rfl⟩
  | cons a as ih =>
      obtain ⟨ha, hrest⟩ := meets_cons.mp hC
      obtain ⟨hnext, hanswer⟩ := h s t a hR ha
      obtain ⟨hstate, hanswers⟩ := ih hrest hnext
      rw [List.map_cons, transcript_cons, transcript_cons]
      refine ⟨hstate, ?_⟩
      rw [hanswer, hanswers, List.map_cons]

/-- Operations that correspond do so as often as they are repeated. -/
theorem repeated_simulates {op : σ → σ × ρ} {op' : τ → τ × υ}
    (h : ∀ s t, R s t → R (op s).1 (op' t).1 ∧ (op' t).2 = g (op s).2) (n : ℕ) {s : σ} {t : τ}
    (hR : R s t) :
    R (repeated op n s).1 (repeated op' n t).1 ∧
      (repeated op' n t).2 = (repeated op n s).2.map g := by
  induction n generalizing s t with
  | zero => exact ⟨hR, rfl⟩
  | succ n ih =>
      obtain ⟨hnext, hanswer⟩ := h s t hR
      obtain ⟨hstate, hanswers⟩ := ih hnext
      rw [repeated_succ, repeated_succ]
      refine ⟨hstate, ?_⟩
      rw [hanswer, hanswers, List.map_cons]

/-- **Corresponding machines have corresponding transcripts.** -/
theorem Simulates.throughout (h : Simulates R C step step' f g) {as : List α} {s : σ} {t : τ}
    (hC : Meets C step as s) (hR : R s t) :
    (∀ pre post, as = pre ++ post →
      R (transcript step pre s).1 (transcript step' (pre.map f) t).1) ∧
      (transcript step' (as.map f) t).2 = (transcript step as s).2.map g := by
  refine ⟨?_, (h.run hC hR).2⟩
  intro pre post has
  apply (h.run _ hR).1
  intro pre' a post' hpre
  apply hC pre' a (post' ++ post)
  rw [has, hpre, List.append_assoc, List.cons_append]

end Transcripts
