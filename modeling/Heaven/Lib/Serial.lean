import Mathlib.Data.List.Forall2
import Mathlib.Data.List.Induction
import Mathlib.Logic.Function.Basic

/-! # One input after the other

An object serves inputs one after the other: each gives a result and a new state, or it fails, and
then the object is gone.  `Records` says of a log that it holds the inputs that have been served,
with the results they give when they are served in this order.

What an observer with inputs of its own sees of the log does not depend on the other inputs, where
these leave alone what it can see (`Unwinds.records`).  Two objects that go on together give the
same log exactly as long as each step meets the condition for it (`Lockstep.log_eq_iff`).

The inputs may come from many sources, each of which has its own sequence.  Where the log holds for
each source what comes of its sequence, it holds what comes of an interleaving of all of them
(`exists_interleaving`). -/

namespace Serial

variable {σ α ε ρ : Type} {turn : σ → α → σ × Except ε ρ}

/-- Serve the inputs in turn, and keep each with its result. -/
def serveAll (turn : σ → α → σ × Except ε ρ) : σ → List α → Option σ × List (α × Except ε ρ)
  | s, [] => (some s, [])
  | s, a :: as =>
      match turn s a with
      | (s, .ok r) => ((serveAll turn s as).1, (a, .ok r) :: (serveAll turn s as).2)
      | (_, .error e) => (none, [(a, .error e)])

theorem serveAll_cons_ok {s t : σ} {a : α} {r : ρ} (h : turn s a = (t, .ok r)) (as : List α) :
    serveAll turn s (a :: as) = ((serveAll turn t as).1, (a, .ok r) :: (serveAll turn t as).2) := by
  rw [serveAll, h]

theorem serveAll_cons_error {s t : σ} {a : α} {e : ε} (h : turn s a = (t, .error e))
    (as : List α) : serveAll turn s (a :: as) = (none, [(a, .error e)]) := by
  rw [serveAll, h]

theorem serveAll_append {s t : σ} {as : List α} {log : List (α × Except ε ρ)}
    (h : serveAll turn s as = (some t, log)) (bs : List α) :
    serveAll turn s (as ++ bs) = ((serveAll turn t bs).1, log ++ (serveAll turn t bs).2) := by
  induction as generalizing s log with
  | nil =>
      cases h
      rfl
  | cons a as ih =>
      rcases hturn : turn s a with ⟨u, e | r⟩
      · rw [serveAll_cons_error hturn] at h
        cases h
      · rw [serveAll_cons_ok hturn] at h
        rw [List.cons_append, serveAll_cons_ok hturn]
        cases hrest : serveAll turn u as with
        | mk left rest =>
            rw [hrest] at h
            cases h
            rw [ih hrest]
            rfl

/-- The log of an object that was in state `s` and is now in state `left`, or gone. -/
def Records (turn : σ → α → σ × Except ε ρ) (s : σ) (log : List (α × Except ε ρ))
    (left : Option σ) : Prop :=
  serveAll turn s (log.map Prod.fst) = (left, log)

section Records

variable {s t t' : σ} {log log' : List (α × Except ε ρ)} {left : Option σ} {a : α}

theorem records_nil (turn : σ → α → σ × Except ε ρ) (s : σ) : Records turn s [] (some s) := rfl

theorem Records.ok (h : Records turn s log (some t)) {r : ρ} (hturn : turn t a = (t', .ok r)) :
    Records turn s (log ++ [(a, .ok r)]) (some t') := by
  have happend := serveAll_append h [a]
  rw [serveAll_cons_ok hturn] at happend
  unfold Records
  rw [List.map_append]
  exact happend

theorem Records.error (h : Records turn s log (some t)) {e : ε}
    (hturn : turn t a = (t', .error e)) : Records turn s (log ++ [(a, .error e)]) none := by
  have happend := serveAll_append h [a]
  rw [serveAll_cons_error hturn] at happend
  unfold Records
  rw [List.map_append]
  exact happend

theorem Records.cons_ok {u : σ} {r : ρ} (hturn : turn s a = (u, .ok r))
    (h : Records turn u log left) : Records turn s ((a, .ok r) :: log) left := by
  unfold Records at h ⊢
  rw [List.map_cons, serveAll_cons_ok hturn, h]

theorem records_singleton {u : σ} {e : ε} (hturn : turn s a = (u, .error e)) :
    Records turn s [(a, .error e)] none := by
  unfold Records
  rw [List.map_cons, serveAll_cons_error hturn]

/-- The front of a log. -/
theorem Records.cons_cases {result : Except ε ρ} (h : Records turn s ((a, result) :: log) left) :
    (∃ u r, turn s a = (u, .ok r) ∧ result = .ok r ∧ Records turn u log left) ∨
      ∃ u e, turn s a = (u, .error e) ∧ result = .error e ∧ log = [] ∧ left = none := by
  unfold Records at h
  rcases hturn : turn s a with ⟨u, e | r⟩
  · rw [List.map_cons, serveAll_cons_error hturn, Prod.mk.injEq, List.cons.injEq,
      Prod.mk.injEq] at h
    obtain ⟨hleft, ⟨-, hresult⟩, hlog⟩ := h
    exact .inr ⟨u, e, rfl, hresult.symm, hlog.symm, hleft.symm⟩
  · rw [List.map_cons, serveAll_cons_ok hturn, Prod.mk.injEq, List.cons.injEq, Prod.mk.injEq] at h
    obtain ⟨hleft, ⟨-, hresult⟩, hlog⟩ := h
    exact .inl ⟨u, r, rfl, hresult.symm, Prod.ext hleft hlog⟩

end Records

/-! ### An observer -/

/-- An observer has some of the inputs.  In states that look alike to it they have the same result,
and what the others do is not seen. -/
structure Unwinds (turn : σ → α → σ × Except ε ρ) (Same : σ → σ → Prop) (Apart : α → Prop)
    (mine : α → Bool) : Prop where
  own : ∀ s t a, Apart a → mine a = true → Same s t →
    (turn s a).2 = (turn t a).2 ∧ Same (turn s a).1 (turn t a).1
  others : ∀ s t a, Apart a → mine a = false → Same s t → Same (turn s a).1 t

/-- **The observer's part of a log is a log**: its inputs have the results they give alone. -/
theorem Unwinds.records {Same : σ → σ → Prop} {Apart : α → Prop} {mine : α → Bool}
    (h : Unwinds turn Same Apart mine) {s t : σ} {log : List (α × Except ε ρ)} {left : Option σ}
    (hapart : ∀ e ∈ log, Apart e.1) (hsame : Same s t) (hlog : Records turn s log left) :
    ∃ left', Records turn t (log.filter fun e => mine e.1) left' ∧
      ∀ s', left = some s' → ∃ t', left' = some t' ∧ Same s' t' := by
  induction log generalizing s t with
  | nil =>
      refine ⟨some t, records_nil turn t, ?_⟩
      rintro s' rfl
      cases hlog
      exact ⟨t, rfl, hsame⟩
  | cons e log ih =>
      obtain ⟨a, result⟩ := e
      rw [List.forall_mem_cons] at hapart
      obtain ⟨ha, hrest⟩ := hapart
      obtain ⟨u, r, hturn, rfl, htail⟩ | ⟨u, err, hturn, rfl, rfl, rfl⟩ := hlog.cons_cases
      · cases hmine : mine a with
        | true =>
            obtain ⟨hresult, hnext⟩ := h.own s t a ha hmine hsame
            simp only [hturn] at hresult hnext
            obtain ⟨left', hrecords, hleft⟩ := ih hrest hnext htail
            refine ⟨left', ?_, hleft⟩
            rw [List.filter_cons_of_pos (by exact hmine)]
            exact .cons_ok (Prod.ext rfl hresult.symm) hrecords
        | false =>
            have hnext := h.others s t a ha hmine hsame
            simp only [hturn] at hnext
            obtain ⟨left', hrecords, hleft⟩ := ih hrest hnext htail
            refine ⟨left', ?_, hleft⟩
            rw [List.filter_cons_of_neg (by simp [hmine])]
            exact hrecords
      · cases hmine : mine a with
        | true =>
            obtain ⟨hresult, -⟩ := h.own s t a ha hmine hsame
            simp only [hturn] at hresult
            refine ⟨none, ?_, (fun _ hs' => by cases hs')⟩
            rw [List.filter_cons_of_pos (by exact hmine)]
            exact records_singleton (Prod.ext rfl hresult.symm)
        | false =>
            refine ⟨some t, ?_, (fun _ hs' => by cases hs')⟩
            rw [List.filter_cons_of_neg (by simp [hmine])]
            exact records_nil turn t

/-! ### Two objects -/

/-- Every input is met in a state in which `C` holds of it. -/
def Meets (turn : σ → α → σ × Except ε ρ) (C : σ → α → Prop) (s : σ) (as : List α) : Prop :=
  ∀ before a after t, as = before ++ a :: after → (serveAll turn s before).1 = some t → C t a

theorem meets_nil {C : σ → α → Prop} {s : σ} : Meets turn C s [] := by
  intro before a after t h
  cases before <;> cases h

theorem meets_cons_ok {C : σ → α → Prop} {s u : σ} {a : α} {r : ρ} (hturn : turn s a = (u, .ok r))
    {as : List α} : Meets turn C s (a :: as) ↔ C s a ∧ Meets turn C u as := by
  constructor
  · intro h
    refine ⟨h [] a as s rfl rfl, ?_⟩
    intro before b after t has hbefore
    apply h (a :: before) b after t (by rw [has, List.cons_append])
    rw [serveAll_cons_ok hturn]
    exact hbefore
  · rintro ⟨ha, hrest⟩ before b after t has hbefore
    cases before with
    | nil =>
        obtain ⟨rfl, -⟩ := List.cons.inj has
        cases hbefore
        exact ha
    | cons c before =>
        obtain ⟨rfl, hsplit⟩ := List.cons.inj has
        rw [serveAll_cons_ok hturn] at hbefore
        exact hrest before b after t hsplit hbefore

theorem meets_cons_error {C : σ → α → Prop} {s u : σ} {a : α} {e : ε}
    (hturn : turn s a = (u, .error e)) {as : List α} : Meets turn C s (a :: as) ↔ C s a := by
  constructor
  · intro h
    exact h [] a as s rfl rfl
  · intro ha before b after t has hbefore
    cases before with
    | nil =>
        obtain ⟨rfl, -⟩ := List.cons.inj has
        cases hbefore
        exact ha
    | cons c before =>
        obtain ⟨rfl, -⟩ := List.cons.inj has
        rw [serveAll_cons_error hturn] at hbefore
        cases hbefore

/-- An object that is still there has served all inputs. -/
theorem serveAll_inputs {s t : σ} {as : List α} (h : (serveAll turn s as).1 = some t) :
    (serveAll turn s as).2.map Prod.fst = as := by
  induction as generalizing s with
  | nil => rfl
  | cons a as ih =>
      rcases hturn : turn s a with ⟨u, e | r⟩
      · rw [serveAll_cons_error hturn] at h
        cases h
      · rw [serveAll_cons_ok hturn] at h ⊢
        rw [List.map_cons, ih h]

/-- The states in which the inputs of a log are met are those of its parts. -/
theorem Records.meets_iff {C : σ → α → Prop} {s : σ} {log : List (α × Except ε ρ)}
    {left : Option σ} (h : Records turn s log left) :
    Meets turn C s (log.map Prod.fst) ↔ ∀ before e after t, log = before ++ e :: after →
      Records turn s before (some t) → C t e.1 := by
  constructor
  · rintro hmeets before e after t rfl hbefore
    apply hmeets (before.map Prod.fst) e.1 (after.map Prod.fst) t
    · rw [List.map_append, List.map_cons]
    · rw [hbefore]
  · intro hlog before a after t hsplit hbefore
    obtain ⟨first, rest, rfl, hfirst, hrest⟩ := List.map_eq_append_iff.mp hsplit
    obtain ⟨e, last, rfl, rfl, -⟩ := List.map_eq_cons_iff.mp hrest
    apply hlog first e last t rfl
    -- what has been served of the first inputs is the first part of the log
    have hserved : serveAll turn s before = (some t, (serveAll turn s before).2) :=
      Prod.ext hbefore rfl
    have hall := serveAll_append hserved (e.1 :: after)
    have hlength : (serveAll turn s before).2.length = first.length := by
      rw [← List.length_map (f := Prod.fst), serveAll_inputs hbefore, ← hfirst, List.length_map]
    unfold Records at h
    rw [hsplit, hall, Prod.mk.injEq] at h
    have hpart := (List.append_inj h.2 hlength).1
    unfold Records
    rw [hfirst, ← hpart]
    exact hserved

/-- The second object follows the first: where they are related, `C` says exactly whether the next
input has the same result, and then they are related again. -/
def Lockstep {τ : Type} (turn : σ → α → σ × Except ε ρ) (turn' : τ → α → τ × Except ε ρ)
    (C : σ → α → Prop) (R : σ → τ → List α → Prop) : Prop :=
  ∀ s t a as, R s t (a :: as) → ((turn s a).2 = (turn' t a).2 ↔ C s a) ∧
    (C s a → R (turn s a).1 (turn' t a).1 as)

/-- **Two objects give the same log exactly if each step of the first meets the condition.** -/
theorem Lockstep.log_eq_iff {τ : Type} {turn' : τ → α → τ × Except ε ρ} {C : σ → α → Prop}
    {R : σ → τ → List α → Prop} (h : Lockstep turn turn' C R) {s : σ} {t : τ} {as : List α}
    (hR : R s t as) :
    (serveAll turn s as).2 = (serveAll turn' t as).2 ↔ Meets turn C s as := by
  induction as generalizing s t with
  | nil => exact iff_of_true rfl meets_nil
  | cons a as ih =>
      obtain ⟨hsame, hnext⟩ := h s t a as hR
      rcases hturn : turn s a with ⟨u, e | r⟩ <;> rcases hturn' : turn' t a with ⟨u', e' | r'⟩
      all_goals
        rw [hturn, hturn'] at hsame hnext
        simp only at hsame hnext
      case error.error =>
        rw [meets_cons_error hturn, ← hsame, serveAll_cons_error hturn, serveAll_cons_error hturn']
        simp
      case error.ok =>
        rw [meets_cons_error hturn, ← hsame, serveAll_cons_error hturn, serveAll_cons_ok hturn']
        simp
      case ok.error =>
        rw [meets_cons_ok hturn, ← hsame, serveAll_cons_ok hturn, serveAll_cons_error hturn']
        simp
      case ok.ok =>
        rw [meets_cons_ok hturn, serveAll_cons_ok hturn, serveAll_cons_ok hturn']
        simp only [List.cons.injEq, Prod.mk.injEq, true_and]
        rw [hsame]
        exact and_congr_right fun hC => ih (hnext hC)

/-! ### Many sources -/

/-- **What comes of each source's sequence comes of an interleaving of the sequences.** -/
theorem exists_interleaving {κ β γ : Type} [DecidableEq κ] {R : κ → β → γ → Prop} (key : γ → κ)
    {source : κ → List β} {log : List γ}
    (h : ∀ k, List.Forall₂ (R k) (source k) (log.filter fun c => decide (key c = k))) :
    ∃ order : List (κ × β),
      List.Forall₂ (fun p c => key c = p.1 ∧ R p.1 p.2 c) order log ∧
        ∀ k, (order.filter fun p => decide (p.1 = k)).map Prod.snd = source k := by
  induction log generalizing source with
  | nil =>
      refine ⟨[], .nil, ?_⟩
      intro k
      exact (List.forall₂_nil_right_iff.mp (h k)).symm
  | cons c log ih =>
      -- the first element comes from the front of its source
      have hown := h (key c)
      rw [List.filter_cons_of_pos (by simp)] at hown
      obtain ⟨b, rest, hfirst, hrest, hsource⟩ := List.forall₂_cons_right_iff.mp hown
      have hless : ∀ k, List.Forall₂ (R k) (Function.update source (key c) rest k)
          (log.filter fun c => decide (key c = k)) := by
        intro k
        by_cases hk : k = key c
        · subst hk
          rw [Function.update_self]
          exact hrest
        · have hother := h k
          rw [List.filter_cons_of_neg (by simpa using Ne.symm hk)] at hother
          rw [Function.update_of_ne hk]
          exact hother
      obtain ⟨order, hall, horder⟩ := ih hless
      refine ⟨(key c, b) :: order, .cons ⟨rfl, hfirst⟩ hall, ?_⟩
      intro k
      have hk' := horder k
      by_cases hk : k = key c
      · subst hk
        rw [Function.update_self] at hk'
        rw [List.filter_cons_of_pos (by simp), List.map_cons, hk', hsource]
      · rw [Function.update_of_ne hk] at hk'
        rw [List.filter_cons_of_neg (by simpa using Ne.symm hk), hk']

end Serial
