import Heaven.Lib.Serial
import Heaven.Lib.Transcript

/-! # Objects inside an object

An object that serves inputs one after the other may house a smaller one: some of its inputs are
operations on the smaller object, and the others leave that alone.  `Houses` says so of one step.
Then the operations in a whole log, with what has been answered to them, are a transcript of the
smaller object (`Houses.plays_log`), whatever has been served between them. -/

namespace Serial

open Transcripts

variable {σ α ε ρ A O R Q : Type} {step : O → A → A × R}

/-! ### Logs of operations -/

/-- The operations of the log, one after the other, take `a` to `a'` and have the answers of the
log. -/
def Plays (step : O → A → A × R) (a : A) (log : List (O × R)) (a' : A) : Prop :=
  transcript step (log.map Prod.fst) a = (a', log.map Prod.snd)

theorem plays_nil {a a' : A} : Plays step a [] a' ↔ a = a' := by
  simp [Plays, transcript]

theorem plays_cons {a a' : A} {o : O} {r : R} {log : List (O × R)} :
    Plays step a ((o, r) :: log) a' ↔ (step o a).2 = r ∧ Plays step (step o a).1 log a' := by
  simp only [Plays, List.map_cons, transcript_cons, List.cons.injEq, Prod.ext_iff]
  tauto

theorem plays_append {a a' : A} {before after : List (O × R)} :
    Plays step a (before ++ after) a' ↔ ∃ b, Plays step a before b ∧ Plays step b after a' := by
  induction before generalizing a with
  | nil => simp [plays_nil]
  | cons e before ih =>
      obtain ⟨o, r⟩ := e
      rw [List.cons_append, plays_cons, ih]
      simp only [plays_cons]
      tauto

/-! ### Houses -/

/-- The object houses one with the operations `step`: `seen` picks the operation out of an input and
its result, with the answer; inputs in which nothing is seen leave the smaller object alone. -/
structure Houses (turn : σ → α → σ × Except ε ρ) (step : O → A → A × R) (answer : R → Q)
    (seen : α × Except ε ρ → Option (O × Q)) (Proper : α → Prop) (Holds : A → σ → Prop) :
    Prop where
  plays : ∀ s x a o q, Proper x → Holds a s → seen (x, (turn s x).2) = some (o, q) →
    answer (step o a).2 = q ∧ Holds (step o a).1 (turn s x).1
  rests : ∀ s x a, Proper x → Holds a s → seen (x, (turn s x).2) = none → Holds a (turn s x).1

variable {turn : σ → α → σ × Except ε ρ} {answer : R → Q}
  {seen : α × Except ε ρ → Option (O × Q)} {Proper : α → Prop} {Holds : A → σ → Prop}

/-- One step, seen or not. -/
theorem Houses.serves (h : Houses turn step answer seen Proper Holds) {s : σ} {x : α} {a : A}
    (hx : Proper x) (ha : Holds a s) :
    ∃ log a', (seen (x, (turn s x).2)).toList = log.map (Prod.map id answer) ∧
      Plays step a log a' ∧ Holds a' (turn s x).1 := by
  rcases hseen : seen (x, (turn s x).2) with _ | ⟨o, q⟩
  · exact ⟨[], a, rfl, plays_nil.mpr rfl, h.rests s x a hx ha hseen⟩
  · obtain ⟨hanswer, hholds⟩ := h.plays s x a o q hx ha hseen
    refine ⟨[(o, (step o a).2)], (step o a).1, ?_, plays_cons.mpr ⟨rfl, plays_nil.mpr rfl⟩, hholds⟩
    rw [← hanswer]
    rfl

/-- **What is seen in a log is a transcript of the smaller object.** -/
theorem Houses.plays_log (h : Houses turn step answer seen Proper Holds) {s : σ}
    {log : List (α × Except ε ρ)} {left : Option σ} {a : A} (hproper : ∀ e ∈ log, Proper e.1)
    (ha : Holds a s) (hlog : Records turn s log left) :
    ∃ ops a', log.filterMap seen = ops.map (Prod.map id answer) ∧ Plays step a ops a' ∧
      ∀ t, left = some t → Holds a' t := by
  induction log generalizing s a with
  | nil =>
      refine ⟨[], a, rfl, plays_nil.mpr rfl, ?_⟩
      rintro t rfl
      cases hlog
      exact ha
  | cons e log ih =>
      obtain ⟨x, result⟩ := e
      rw [List.forall_mem_cons] at hproper
      obtain ⟨hx, hrest⟩ := hproper
      obtain ⟨first, b, hfirst, hplays, hb⟩ := h.serves hx ha
      obtain ⟨u, r, hturn, rfl, htail⟩ | ⟨u, err, hturn, rfl, rfl, rfl⟩ := hlog.cons_cases
      · rw [hturn] at hfirst hb
        obtain ⟨ops, a', hops, hplays', hleft⟩ := ih hrest hb htail
        refine ⟨first ++ ops, a', ?_, plays_append.mpr ⟨b, hplays, hplays'⟩, hleft⟩
        rw [List.map_append, ← hfirst, ← hops]
        cases hseen : seen (x, .ok r) with
        | none => rw [List.filterMap_cons_none hseen, Option.toList_none, List.nil_append]
        | some q =>
            rw [List.filterMap_cons_some hseen, Option.toList_some, List.singleton_append]
      · rw [hturn] at hfirst
        refine ⟨first, b, ?_, hplays, (fun _ hs' => by cases hs')⟩
        rw [← hfirst]
        cases hseen : seen (x, .error err) with
        | none => rw [List.filterMap_cons_none hseen, Option.toList_none, List.filterMap_nil]
        | some q => rw [List.filterMap_cons_some hseen, Option.toList_some, List.filterMap_nil]

end Serial
