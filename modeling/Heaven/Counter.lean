import Heaven.SoulCells

/-! # Counters

INCR, DECR and INCRBY keep a number as text.  Each command reads the text back, adds with an
overflow check and prints the sum.  `Counts` is what a counter is for: over a run, every command
whose sum is a 64-bit integer succeeds with that sum, and every other fails and leaves the text
alone.

The least 64-bit integer is printed but cannot be read back, since the parser accumulates the
magnitude before it negates.  `counts_iff` says that this is the only way for a counter to
miscount: a command that should raise the number from there fails. -/

namespace Heaven

open Decimal (ascii printInt valueInt valueInt_printInt)

/-- A command on a counter. -/
inductive CounterCommand where
  | incr
  | decr
  | incrby (delta : ℤ)
deriving DecidableEq, Repr

namespace CounterCommand

def delta : CounterCommand → ℤ
  | .incr => 1
  | .decr => -1
  | .incrby delta => delta

def run (c : CounterCommand) (s : Soul) (key : Bytes) (now : ℕ) : Soul × Except Sacrilege ℤ :=
  match c with
  | .incr => s.incr key now
  | .decr => s.decr key now
  | .incrby delta => s.incrby key delta now

def command : CounterCommand → Command
  | .incr => .incr
  | .decr => .decr
  | .incrby _ => .incrby

end CounterCommand

namespace Soul

variable {s : Soul} {key : Bytes}

theorem run_eq_onLive (c : CounterCommand) (s : Soul) (key : Bytes) (now : ℕ) :
    c.run s key now = s.onLive key now (addCell c.command c.delta) := by
  cases c with
  | incr => exact incr_eq_onLive s key now
  | decr => exact decr_eq_onLive s key now
  | incrby delta => exact incrby_eq_onLive s key delta now

/-- GET at any time answers with a text that denotes `n`. -/
def GetsNumber (s : Soul) (key : Bytes) (n : ℤ) : Prop :=
  ∃ text, valueInt text = n ∧ ∀ now, (s.get key now).2 = .ok (some text)

/-- The commands count exactly from `total` on: a command whose sum is in range replies with it and
GET finds it, every other fails and leaves the entry as it is. -/
def Counts (key : Bytes) : Soul → ℤ → List (CounterCommand × ℕ) → Prop
  | _, _, [] => True
  | s, total, (c, now) :: cs =>
      if InI64 (total + c.delta) then
        (c.run s key now).2 = .ok (total + c.delta) ∧
          GetsNumber (c.run s key now).1 key (total + c.delta) ∧
            Counts key (c.run s key now).1 (total + c.delta) cs
      else
        (∃ sacrilege, (c.run s key now).2 = .error sacrilege) ∧
          (c.run s key now).1.get? key = s.get? key ∧ Counts key (c.run s key now).1 total cs

/-- No command that does not lower the number is issued while the number is the least 64-bit
integer. -/
def NeverRaisesMin : ℤ → List (CounterCommand × ℕ) → Prop
  | _, [] => True
  | total, (c, _) :: cs =>
      ¬ (total = -2 ^ 63 ∧ 0 ≤ c.delta) ∧
        NeverRaisesMin (if InI64 (total + c.delta) then total + c.delta else total) cs

/-- The entry holds the number as text, without a deadline. -/
def Holds (s : Soul) (key : Bytes) (n : ℤ) : Prop :=
  s.get? key = some (.string (printInt n), none) ∧ InI64 n

theorem Holds.get_eq {n : ℤ} (h : Holds s key n) (now : ℕ) :
    (s.get key now).2 = .ok (some (printInt n)) := by
  unfold get
  rw [query_eq_onLive]
  simp only [onLive, Dict.onKept, Dict.onCell, h.1, filter_live_some, isExpired]
  rfl

theorem Holds.getsNumber {n : ℤ} (h : Holds s key n) : GetsNumber s key n :=
  ⟨printInt n, valueInt_printInt n, h.get_eq⟩

theorem addToText_printInt (cmd : Command) {n delta : ℤ} (h : InI64 n) :
    addToText cmd delta (printInt n) =
      if n ≠ -2 ^ 63 ∧ InI64 (n + delta) then (printInt (n + delta), .ok (n + delta))
      else (printInt n, misuse cmd) := by
  unfold addToText
  rw [bytesToI64_printInt h]
  by_cases hmin : n = -2 ^ 63
  · simp only [hmin, if_true, ne_eq, not_true_eq_false, false_and, if_false]
  · simp only [hmin, if_false, ne_eq, not_false_eq_true, true_and, checkedAddI64]
    split_ifs <;> rfl

/-- One command on a number. -/
theorem run_of_holds (c : CounterCommand) {n : ℤ} (now : ℕ) (h : Holds s key n) :
    c.run s key now =
      if n ≠ -2 ^ 63 ∧ InI64 (n + c.delta) then
        (s.put key (some (.string (printInt (n + c.delta)), none)), .ok (n + c.delta))
      else (s, misuse c.command) := by
  rw [run_eq_onLive]
  simp only [onLive, Dict.onKept, Dict.onCell, h.1, filter_live_some, isExpired, addCell,
    Bool.false_eq_true, if_false, updateCell, Value.string?, addToText_printInt c.command h.2]
  split_ifs
  · rfl
  · rw [Dict.put_eq_self h.1]

/-- The first command on an unset key. -/
theorem run_of_unset (c : CounterCommand) {now : ℕ} (h : (s.getValidValue key now).2 = none) :
    c.run s key now =
      (s.put key (some (.string (printInt c.delta), none)), .ok c.delta) := by
  rw [getValidValue_eq_onLive] at h
  have hnone : (s.get? key).filter (live now) = none := Option.map_eq_none_iff.mp h
  rw [run_eq_onLive]
  simp only [onLive, Dict.onKept, Dict.onCell, hnone]
  rfl

theorem inI64_of_addToText {cmd : Command} {delta n : ℤ} {text : Bytes}
    (h : (addToText cmd delta text).2 = .ok n) : InI64 n := by
  unfold addToText at h
  split at h
  · cases h
  · unfold checkedAddI64 at h
    split_ifs at h with hrange
    · cases h
      exact hrange
    · cases h

/-- A command that is answered with a number has added it up as a 64-bit integer. -/
theorem inI64_of_run (c : CounterCommand) {now : ℕ} {n : ℤ} (hdelta : InI64 c.delta)
    (h : (c.run s key now).2 = .ok n) : InI64 n := by
  rw [run_eq_onLive] at h
  simp only [onLive, Dict.onKept, Dict.onCell] at h
  cases hentry : (s.get? key).filter (live now) with
  | none =>
      rw [hentry] at h
      cases h
      exact hdelta
  | some entry =>
      obtain ⟨value, expiry⟩ := entry
      rw [hentry] at h
      cases hview : value.string? with
      | none =>
          simp only [addCell, updateCell, hview] at h
          cases h
      | some text =>
          simp only [addCell, updateCell, hview] at h
          exact inI64_of_addToText h

theorem holds_put {n : ℤ} (s : Soul) (key : Bytes) (h : InI64 n) :
    Holds (s.put key (some (.string (printInt n), none))) key n :=
  ⟨Dict.get?_put_self _ _ _, h⟩

/-- **From a stored number on.** -/
theorem counts_iff_of_holds (cs : List (CounterCommand × ℕ)) {s : Soul} {total : ℤ}
    (hs : Holds s key total) (hdelta : ∀ p ∈ cs, InI64 p.1.delta) :
    Counts key s total cs ↔ NeverRaisesMin total cs := by
  induction cs generalizing s total with
  | nil => exact Iff.rfl
  | cons p cs ih =>
      obtain ⟨c, now⟩ := p
      rw [List.forall_mem_cons] at hdelta
      have hrange := hs.2
      have hd : InI64 c.delta := hdelta.1
      unfold InI64 at hrange hd
      rw [Counts, NeverRaisesMin, run_of_holds c now hs]
      by_cases hsum : InI64 (total + c.delta)
      · simp only [hsum, if_true, and_true]
        by_cases hmin : total = -2 ^ 63
        · -- the sum is in range, so the command should have succeeded
          have hnonneg : 0 ≤ c.delta := by
            unfold InI64 at hsum
            omega
          simp only [hmin, hnonneg, ne_eq, not_true_eq_false, if_false, and_self, false_and,
            iff_false, not_and]
          intro hfail
          cases hfail
        · have hput := holds_put s key hsum
          simp only [hmin, ne_eq, not_false_eq_true, if_true, false_and, true_and]
          rw [and_iff_right hput.getsNumber]
          exact ih hput hdelta.2
      · have hmin : ¬ (total = -2 ^ 63 ∧ 0 ≤ c.delta) := by
          rintro ⟨rfl, hnonneg⟩
          exact hsum ⟨by omega, by omega⟩
        simp only [hsum, and_false, if_false, hmin, not_false_eq_true, true_and]
        rw [and_iff_right ⟨_, rfl⟩]
        exact ih hs hdelta.2

/-- **Over every run on an unset key, the counter is exact precisely if no command should raise it
from the least 64-bit integer.** -/
theorem counts_iff (s : Soul) (key : Bytes) (cs : List (CounterCommand × ℕ))
    (hunset : ∀ p ∈ cs.head?, (s.getValidValue key p.2).2 = none)
    (hdelta : ∀ p ∈ cs, InI64 p.1.delta) :
    Counts key s 0 cs ↔ NeverRaisesMin 0 cs := by
  cases cs with
  | nil => exact Iff.rfl
  | cons p cs =>
      obtain ⟨c, now⟩ := p
      rw [List.forall_mem_cons] at hdelta
      have hrange : InI64 c.delta := hdelta.1
      have hput := holds_put s key hrange
      have hzero : ¬ ((0 : ℤ) = -2 ^ 63 ∧ 0 ≤ c.delta) := by
        norm_num
      rw [Counts, NeverRaisesMin, run_of_unset c (hunset _ rfl), zero_add]
      simp only [hrange, if_true, true_and]
      rw [and_iff_right hput.getsNumber, and_iff_right hzero]
      exact counts_iff_of_holds cs hput hdelta.2

/-- INCR and DECR on a fresh key. -/
theorem counts_incr_decr : Counts (ascii "n") Soul.new 0 [(.incr, 7), (.decr, 7)] := by
  apply (counts_iff Soul.new (ascii "n") _ (by decide) (by decide)).mpr
  exact ⟨by decide, by decide, trivial⟩

/-- INCRBY n -9223372036854775807, DECR n, INCR n: the last command fails. -/
theorem incr_from_min_fails :
    ¬ ∀ (s : Soul) (key : Bytes) (cs : List (CounterCommand × ℕ)),
      (∀ p ∈ cs.head?, (s.getValidValue key p.2).2 = none) → (∀ p ∈ cs, InI64 p.1.delta) →
      Counts key s 0 cs := by
  intro h
  have hcounts := h Soul.new (ascii "n")
    [(.incrby (-9223372036854775807), 7), (.decr, 7), (.incr, 7)] (by decide) (by decide)
  rw [Counts, if_pos (by decide)] at hcounts
  obtain ⟨-, -, hcounts⟩ := hcounts
  rw [Counts, if_pos (by decide)] at hcounts
  obtain ⟨-, -, hcounts⟩ := hcounts
  rw [Counts, if_pos (by decide)] at hcounts
  exact absurd hcounts.1 (by decide)

end Soul
end Heaven
