import Heaven.Lib.Parts

/-! # Registers

An object can be looked at as registers, each of which holds a value or none.  `writes o k` is what
the operation `o` puts into the register `k`, if it writes to it: `some none` takes the value away.
Then a register holds what has last been written to it (`Stores.plays`), and a value that it holds
was put there by some operation, after which none has written to it (`lastWritten_eq_some_iff`). -/

namespace Registers

open Serial

variable {κ ν A O R : Type} {step : O → A → A × R} {writes : O → κ → Option (Option ν)}
  {old : Option ν} {k : κ}

/-- What is in the register after the operations of the log. -/
def lastWritten (writes : O → κ → Option (Option ν)) (old : Option ν) (log : List (O × R))
    (k : κ) : Option ν :=
  log.foldl (fun old e => (writes e.1 k).getD old) old

@[simp] theorem lastWritten_nil : lastWritten writes old ([] : List (O × R)) k = old := rfl

theorem lastWritten_cons (e : O × R) (log : List (O × R)) :
    lastWritten writes old (e :: log) k =
      lastWritten writes ((writes e.1 k).getD old) log k := rfl

theorem lastWritten_concat (log : List (O × R)) (e : O × R) :
    lastWritten writes old (log ++ [e]) k =
      (writes e.1 k).getD (lastWritten writes old log k) := by
  rw [lastWritten, List.foldl_append]
  rfl

/-- An element of a list and a last one is the last one, or stands before it. -/
theorem concat_eq_append_cons {α : Type} {l before after : List α} {last a : α} :
    l ++ [last] = before ++ a :: after ↔
      (before = l ∧ a = last ∧ after = []) ∨
        ∃ front, after = front ++ [last] ∧ l = before ++ a :: front := by
  constructor
  · intro h
    obtain rfl | ⟨front, b, rfl⟩ := after.eq_nil_or_concat'
    · obtain ⟨rfl, hlast⟩ := List.append_inj' h rfl
      exact .inl ⟨rfl, (List.singleton_inj.mp hlast).symm, rfl⟩
    · rw [← List.cons_append, ← List.append_assoc] at h
      obtain ⟨rfl, hlast⟩ := List.append_inj' h rfl
      exact .inr ⟨front, by rw [List.singleton_inj.mp hlast], rfl⟩
  · rintro (⟨rfl, rfl, rfl⟩ | ⟨front, rfl, rfl⟩)
    · rfl
    · simp

/-- **A value in a register that was empty has been written, and none has been written since.** -/
theorem lastWritten_eq_some_iff {log : List (O × R)} {v : ν} :
    lastWritten writes none log k = some v ↔
      ∃ before e after, log = before ++ e :: after ∧ writes e.1 k = some (some v) ∧
        ∀ e' ∈ after, writes e'.1 k = none := by
  induction log using List.reverseRecOn with
  | nil => simp
  | append_singleton log last ih =>
      simp only [concat_eq_append_cons]
      rw [lastWritten_concat]
      cases hlast : writes last.1 k with
      | none =>
          rw [Option.getD_none, ih]
          constructor
          · rintro ⟨before, e, after, rfl, he, hafter⟩
            refine ⟨before, e, after ++ [last], .inr ⟨after, rfl, rfl⟩, he, ?_⟩
            intro e' he'
            obtain hmem | hmem := List.mem_append.mp he'
            · exact hafter e' hmem
            · rw [List.mem_singleton.mp hmem]
              exact hlast
          · rintro ⟨before, e, after, ⟨-, rfl, -⟩ | ⟨front, rfl, hlog⟩, he, hafter⟩
            · rw [hlast] at he
              cases he
            · exact ⟨before, e, front, hlog, he, fun e' he' => hafter e' (by simp [he'])⟩
      | some value =>
          rw [Option.getD_some]
          constructor
          · rintro rfl
            exact ⟨log, last, [], .inl ⟨rfl, rfl, rfl⟩, hlast, (fun _ h => by cases h)⟩
          · rintro ⟨before, e, after, ⟨-, rfl, -⟩ | ⟨front, rfl, -⟩, he, hafter⟩
            · rw [hlast, Option.some.injEq] at he
              exact he
            · have hnone := hafter last (by simp)
              rw [hlast] at hnone
              cases hnone

/-- The state shows the registers, and each operation writes to them what it should. -/
def Stores (step : O → A → A × R) (writes : O → κ → Option (Option ν))
    (shows : A → κ → Option ν) : Prop :=
  ∀ o a k, shows (step o a).1 k = (writes o k).getD (shows a k)

/-- **The registers hold what has last been written.** -/
theorem Stores.plays {shows : A → κ → Option ν} (h : Stores step writes shows) {a a' : A}
    {log : List (O × R)} (hplays : Plays step a log a') (k : κ) :
    shows a' k = lastWritten writes (shows a k) log k := by
  induction log generalizing a with
  | nil =>
      rw [plays_nil] at hplays
      rw [hplays, lastWritten_nil]
  | cons e log ih =>
      obtain ⟨o, r⟩ := e
      obtain ⟨-, hrest⟩ := plays_cons.mp hplays
      rw [ih hrest, h, lastWritten_cons]

end Registers
