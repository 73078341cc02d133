import Heaven.Lib.Transcript
import Heaven.SoulCells

/-! # Counted pops

LPOP and RPOP with a count repeat the expiry test, the loop and the removal of an exhausted list in
bodies of their own.  They do what the same number of single pops does (`countedPops`).

`TakesOne` is what the two ends of a list have in common.  The single pops are followed on the list
alone, where they are `repeated pop n`, and carried to the cell by `repeated_popWith`. -/

namespace Heaven
namespace Soul

open Transcripts
open Decimal (ascii)

variable {ρ : Type}

/-! ### Pops of a list -/

/-- A pop takes one element of a list that has one. -/
structure TakesOne (pop : List Bytes → List Bytes × Option Bytes) : Prop where
  nil : pop [] = ([], none)
  nonempty : ∀ list, list ≠ [] →
    ∃ rest element, pop list = (rest, some element) ∧ rest.length + 1 = list.length

theorem popFront_takesOne : TakesOne popFront where
  nil := rfl
  nonempty := by
    intro list h
    cases list with
    | nil => exact absurd rfl h
    | cons element rest => exact ⟨rest, element, rfl, rfl⟩

theorem popBack_takesOne : TakesOne popBack where
  nil := rfl
  nonempty := by
    intro list h
    refine ⟨list.dropLast, list.getLast h, ?_, ?_⟩
    · unfold popBack
      rw [List.getLast?_eq_getLast_of_ne_nil h]
    · have hpos := List.length_pos_iff.mpr h
      rw [List.length_dropLast]
      omega

section pop

variable {pop : List Bytes → List Bytes × Option Bytes} (hpop : TakesOne pop)
include hpop

theorem repeated_pop_nil (n : ℕ) : repeated pop n [] = ([], List.replicate n none) := by
  induction n with
  | zero => rfl
  | succ n ih =>
      simp only [repeated_succ, hpop.nil, ih]
      rfl

/-- The loop of a counted pop stops at the first pop that takes nothing. -/
theorem popLoop_eq_repeated (n : ℕ) (list : List Bytes) (popped : List (Option Bytes)) :
    popLoop pop n list popped =
      ((repeated pop n list).1, popped ++ ((repeated pop n list).2.filterMap id).map some) := by
  induction n generalizing list popped with
  | zero =>
      rw [popLoop, repeated_zero]
      simp
  | succ n ih =>
      rw [popLoop, repeated_succ]
      by_cases h : list = []
      · subst h
        simp only [hpop.nil, repeated_pop_nil hpop]
        simp
      · obtain ⟨rest, element, hlist, -⟩ := hpop.nonempty list h
        simp only [hlist, ih]
        simp

theorem length_repeated (n : ℕ) (list : List Bytes) :
    (repeated pop n list).1.length = list.length - n := by
  induction n generalizing list with
  | zero => rfl
  | succ n ih =>
      rw [repeated_succ]
      by_cases h : list = []
      · subst h
        simp only [hpop.nil, repeated_pop_nil hpop, List.length_nil]
        omega
      · obtain ⟨rest, element, hlist, hlength⟩ := hpop.nonempty list h
        simp only [hlist, ih]
        omega

/-- The pops that take something. -/
theorem length_popped (n : ℕ) (list : List Bytes) :
    ((repeated pop n list).2.filterMap id).length = min n list.length := by
  induction n generalizing list with
  | zero =>
      rw [repeated_zero]
      simp
  | succ n ih =>
      rw [repeated_succ]
      by_cases h : list = []
      · subst h
        simp [hpop.nil, repeated_pop_nil hpop]
      · obtain ⟨rest, element, hlist, hlength⟩ := hpop.nonempty list h
        simp only [hlist, List.filterMap_cons_some (by rfl : id (some element) = some element),
          List.length_cons, ih]
        omega

end pop

/-! ### Pops of a cell -/

/-- What a pop leaves of a cell: an exhausted list is removed. -/
def restCell (expiry : Option ℕ) (list : List Bytes) : Option Entry :=
  if list.isEmpty then none else some (.list list, expiry)

theorem restCell_eq_none {expiry : Option ℕ} {list : List Bytes} :
    restCell expiry list = none ↔ list = [] := by
  unfold restCell
  cases list <;> simp

theorem popWith_of_live {s : Soul} {key : Bytes} {now : ℕ} {list : List Bytes} {expiry : Option ℕ}
    (hkey : s.get? key = some (.list list, expiry)) (hlive : isExpired expiry now = false)
    (cmd : Command) (absent : ρ) (pop : List Bytes → List Bytes × ρ) :
    s.popWith key now cmd absent pop =
      (s.put key (restCell expiry (pop list).1), .ok (pop list).2) := by
  rw [popWith_eq_onCell]
  simp only [Dict.onCell, hkey, popCell, hlive, Bool.false_eq_true, if_false, restCell]

theorem popWith_of_absent {s : Soul} {key : Bytes} (hkey : s.get? key = none) (now : ℕ)
    (cmd : Command) (absent : ρ) (pop : List Bytes → List Bytes × ρ) :
    s.popWith key now cmd absent pop = (s, .ok absent) := by
  unfold popWith
  rw [hkey]

theorem popWith_of_expired {s : Soul} {key : Bytes} {now : ℕ} {list : List Bytes}
    {expiry : Option ℕ} (hkey : s.get? key = some (.list list, expiry))
    (hexpired : isExpired expiry now = true) (cmd : Command) (absent : ρ)
    (pop : List Bytes → List Bytes × ρ) :
    s.popWith key now cmd absent pop = (s.erase key, .ok absent) := by
  unfold popWith
  rw [hkey]
  simp only [hexpired, if_true]

theorem popWith_of_other {s : Soul} {key : Bytes} {value : Value} {expiry : Option ℕ}
    (hkey : s.get? key = some (value, expiry)) (hvalue : value.list? = none) (now : ℕ)
    (cmd : Command) (absent : ρ) (pop : List Bytes → List Bytes × ρ) :
    s.popWith key now cmd absent pop = (s, misuse cmd) := by
  unfold popWith
  rw [hkey]
  cases value with
  | list list => cases hvalue
  | string _ | hash _ | set _ => rfl

/-- A pop of what a pop has left. -/
theorem popWith_restCell {pop : List Bytes → List Bytes × Option Bytes} (hpop : TakesOne pop)
    (s : Soul) (key : Bytes) {now : ℕ} {expiry : Option ℕ} (hlive : isExpired expiry now = false)
    (cmd : Command) (list : List Bytes) :
    popWith (s.put key (restCell expiry list)) key now cmd none pop =
      (s.put key (restCell expiry (pop list).1), .ok (pop list).2) := by
  by_cases h : list = []
  · subst h
    rw [hpop.nil]
    exact popWith_of_absent (Dict.get?_put_self _ _ _) now cmd none pop
  · have hcell : restCell expiry list = some (.list list, expiry) := by
      unfold restCell
      rw [List.isEmpty_eq_false_iff.mpr h]
      rfl
    rw [hcell, popWith_of_live (Dict.get?_put_self _ _ _) hlive, Dict.put_put]

/-- Single pops of a live list do to its cell what they do to the list. -/
theorem repeated_popWith {pop : List Bytes → List Bytes × Option Bytes} (hpop : TakesOne pop)
    {s : Soul} {key : Bytes} {now : ℕ} {list : List Bytes} {expiry : Option ℕ}
    (hkey : s.get? key = some (.list list, expiry)) (hlive : isExpired expiry now = false)
    (cmd : Command) {n : ℕ} (hn : 1 ≤ n) :
    repeated (fun s : Soul => s.popWith key now cmd none pop) n s =
      (s.put key (restCell expiry (repeated pop n list).1),
        (repeated pop n list).2.map Except.ok) := by
  obtain ⟨n, rfl⟩ : ∃ m, n = m + 1 := ⟨n - 1, by omega⟩
  -- from the second pop on the cell is what a pop has left
  have hstep : ∀ (list : List Bytes) (t : Soul), t = s.put key (restCell expiry list) →
      (t.popWith key now cmd none pop).1 = s.put key (restCell expiry (pop list).1) ∧
        (t.popWith key now cmd none pop).2 = .ok (pop list).2 := by
    rintro list _ rfl
    rw [popWith_restCell hpop s key hlive]
    exact ⟨rfl, rfl⟩
  have hrest := repeated_simulates (R := fun list t => t = s.put key (restCell expiry list))
    (g := Except.ok) hstep n (s := (pop list).1) rfl
  rw [repeated_succ, repeated_succ, popWith_of_live hkey hlive]
  simp only [hrest.1, hrest.2, List.map_cons]

/-! ### Counted pops -/

/-- The elements among the replies of single pops. -/
def nonNil (replies : List (Except Sacrilege (Option Bytes))) : List Bytes :=
  replies.filterMap fun reply =>
    match reply with
    | .ok element => element
    | .error _ => none

theorem nonNil_map_ok (replies : List (Option Bytes)) :
    nonNil (replies.map Except.ok) = replies.filterMap id := by
  unfold nonNil
  rw [List.filterMap_map]
  rfl

/-- A pop finds that the list at `key` is over.  It does not look at the deadline of a value of
another kind. -/
def FoundExpired (s : Soul) (key : Bytes) (now : ℕ) : Prop :=
  ∃ list expiry, s.get? key = some (.list list, expiry) ∧ isExpired expiry now = true

/-- `many` does what `n` calls of `one` do. -/
structure CountsPops (one : Soul → Soul × Except Sacrilege (Option Bytes))
    (many : Soul → Soul × Except Sacrilege (Option (List (Option Bytes)))) (key : Bytes)
    (n now : ℕ) (s : Soul) : Prop where
  succeeds : (∃ reply, (many s).2 = .ok reply) ↔ ∃ reply, (one s).2 = .ok reply
  store : (many s).1 = (repeated one n s).1
  popped : ∀ list expiry, s.get? key = some (.list list, expiry) → isExpired expiry now = false →
    (many s).2 = .ok (some ((nonNil (repeated one n s).2).map some)) ∧
      (nonNil (repeated one n s).2).length = min n list.length ∧
      ((many s).1.get? key = none ↔ list.length ≤ n)
  absent : s.get? key = none ∨ FoundExpired s key now → (many s).2 = .ok none

section counted

variable {pop : List Bytes → List Bytes × Option Bytes} (hpop : TakesOne pop) {s : Soul}
  {key : Bytes} {now n : ℕ} (cmd : Command)

/-- The counted pop with the body of a single one. -/
def popMany (pop : List Bytes → List Bytes × Option Bytes) (key : Bytes) (n now : ℕ)
    (cmd : Command) (s : Soul) : Soul × Except Sacrilege (Option (List (Option Bytes))) :=
  s.popWith key now cmd none fun list =>
    let (list, popped) := popLoop pop n list []
    (list, some popped)

theorem countsPops_of_absent (hkey : s.get? key = none) :
    CountsPops (fun s => s.popWith key now cmd none pop) (popMany pop key n now cmd) key n now
      s := by
  have hone : (s.popWith key now cmd none pop).1 = s := by rw [popWith_of_absent hkey]
  unfold popMany
  constructor
  · simp only [popWith_of_absent hkey, Except.ok.injEq, exists_eq']
  · rw [repeated_fixed (fun s : Soul => s.popWith key now cmd none pop) hone,
      popWith_of_absent hkey]
  · intro list expiry h
    rw [hkey] at h
    cases h
  · intro _
    rw [popWith_of_absent hkey]

theorem countsPops_of_other {value : Value} {expiry : Option ℕ}
    (hkey : s.get? key = some (value, expiry)) (hvalue : value.list? = none) :
    CountsPops (fun s => s.popWith key now cmd none pop) (popMany pop key n now cmd) key n now
      s := by
  have hone : (s.popWith key now cmd none pop).1 = s := by rw [popWith_of_other hkey hvalue]
  have hlist : ∀ list expiry', s.get? key ≠ some (.list list, expiry') := by
    intro list expiry' h
    rw [hkey] at h
    cases h
    cases hvalue
  unfold popMany
  constructor
  · simp only [popWith_of_other hkey hvalue, misuse, reduceCtorEq, exists_false]
  · rw [repeated_fixed (fun s : Soul => s.popWith key now cmd none pop) hone,
      popWith_of_other hkey hvalue]
  · intro list expiry' h
    exact absurd h (hlist list expiry')
  · rintro (h | ⟨list, expiry', h, -⟩)
    · rw [hkey] at h
      cases h
    · exact absurd h (hlist list expiry')

/-- The first of the single pops removes an expired list, the others find nothing. -/
theorem countsPops_of_expired {list : List Bytes} {expiry : Option ℕ}
    (hkey : s.get? key = some (.list list, expiry)) (hexpired : isExpired expiry now = true)
    (hn : 1 ≤ n) :
    CountsPops (fun s => s.popWith key now cmd none pop) (popMany pop key n now cmd) key n now
      s := by
  have hgone : Dict.get? (s.erase key) key = none := Dict.get?_put_self s key none
  have hone : (popWith (s.erase key) key now cmd none pop).1 = s.erase key := by
    rw [popWith_of_absent hgone]
  obtain ⟨m, rfl⟩ : ∃ m, n = m + 1 := ⟨n - 1, by omega⟩
  unfold popMany
  constructor
  · simp only [popWith_of_expired hkey hexpired, Except.ok.injEq, exists_eq']
  · rw [repeated_succ]
    simp only [popWith_of_expired hkey hexpired]
    exact (repeated_fixed (fun s : Soul => s.popWith key now cmd none pop) hone m).symm
  · intro list' expiry' h hlive
    rw [hkey] at h
    cases h
    rw [hexpired] at hlive
    cases hlive
  · intro _
    rw [popWith_of_expired hkey hexpired]

include hpop in
theorem countsPops_of_live {list : List Bytes} {expiry : Option ℕ}
    (hkey : s.get? key = some (.list list, expiry)) (hlive : isExpired expiry now = false)
    (hn : 1 ≤ n) :
    CountsPops (fun s => s.popWith key now cmd none pop) (popMany pop key n now cmd) key n now
      s := by
  unfold popMany
  constructor
  · simp only [popWith_of_live hkey hlive, Except.ok.injEq, exists_eq']
  · rw [repeated_popWith hpop hkey hlive cmd hn, popWith_of_live hkey hlive]
    simp only [popLoop_eq_repeated hpop]
  · intro list' expiry' h _
    rw [hkey] at h
    cases h
    rw [repeated_popWith hpop hkey hlive cmd hn, popWith_of_live hkey hlive]
    simp only [popLoop_eq_repeated hpop, nonNil_map_ok, List.nil_append, Dict.get?_put_self,
      length_popped hpop, restCell_eq_none, true_and]
    rw [← List.length_eq_zero_iff, length_repeated hpop]
    omega
  · rintro (h | ⟨list', expiry', h, hexpired⟩)
    · rw [hkey] at h
      cases h
    · rw [hkey] at h
      cases h
      rw [hlive] at hexpired
      cases hexpired

include hpop in
/-- The body of the two counted pops. -/
theorem countsPops_popWith (s : Soul) (hn : 1 ≤ n) :
    CountsPops (fun s => s.popWith key now cmd none pop) (popMany pop key n now cmd) key n now
      s := by
  rcases hkey : s.get? key with _ | ⟨value, expiry⟩
  · exact countsPops_of_absent cmd hkey
  · cases hvalue : value.list? with
    | none => exact countsPops_of_other cmd hkey hvalue
    | some list =>
        obtain rfl := list?_eq_some.mp hvalue
        cases hlive : isExpired expiry now with
        | true => exact countsPops_of_expired cmd hkey hlive hn
        | false => exact countsPops_of_live hpop cmd hkey hlive hn

end counted

/-- **A counted pop does what the same number of single pops does**, at either end of the list. -/
theorem countedPops (s : Soul) (key : Bytes) {n : ℕ} (now : ℕ) (hn : 1 ≤ n) :
    CountsPops (fun s => s.lpop key now) (fun s => s.lpopM key n now) key n now s ∧
      CountsPops (fun s => s.rpop key now) (fun s => s.rpopM key n now) key n now s :=
  ⟨countsPops_popWith popFront_takesOne .lpop s hn, countsPops_popWith popBack_takesOne .rpop s hn⟩

/-- Three pops of a list of two. -/
theorem countedPops_of_two :
    (Soul.lpopM (Soul.new.set (ascii "k") (.list [ascii "a", ascii "b"], none)) (ascii "k") 3
      0).1.get? (ascii "k") = none :=
  ((countedPops (Soul.new.set (ascii "k") (.list [ascii "a", ascii "b"], none)) (ascii "k") 0
    (by decide : 1 ≤ 3)).1.popped [ascii "a", ascii "b"] none (Dict.get?_insert_self _ _ _)
    rfl).2.2.mpr (by decide)

end Soul
end Heaven
