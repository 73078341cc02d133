import Mathlib.Data.List.Basic
import Heaven.Lib.Parts

/-! # Deques

A list to which elements are added, and from which they are taken, at either side.  What is done at
a side is stated on the list as it is seen from there (`view`), so that the two sides need not be
treated apart.

A deque that is filled at one side and emptied at the other is a queue: what has been taken is what
has been added, in the same order, as far as it has come (`fifo`). -/

namespace Deque

open Serial

variable {α : Type}

inductive Side where
  | left | right
deriving DecidableEq, Repr

def Side.other : Side → Side
  | .left => .right
  | .right => .left

/-- The list as it is seen from the side. -/
def view : Side → List α → List α
  | .left, l => l
  | .right, l => l.reverse

@[simp] theorem view_view (side : Side) (l : List α) : view side (view side l) = l := by
  cases side <;> simp [view]

/-- From the other side it is the reverse. -/
theorem view_other (side : Side) (l : List α) : view side.other l = (view side l).reverse := by
  cases side <;> simp [view, Side.other]

@[simp] theorem view_nil (side : Side) : view side ([] : List α) = [] := by cases side <;> rfl

theorem view_reverse (side : Side) (l : List α) : view side l.reverse = (view side l).reverse := by
  cases side <;> rfl

theorem view_eq_nil {side : Side} {l : List α} : view side l = [] ↔ l = [] := by
  cases side <;> simp [view]

/-! ### Operations -/

inductive Op (α : Type) where
  | push (side : Side) (elements : List α)
  | pop (side : Side)
  | popMany (side : Side) (count : ℕ)
  | length

inductive Answer (α : Type) where
  | length (n : ℕ)
  | one (element : Option α)
  | many (elements : Option (List α))

/-- Elements are pushed one by one, so the last of them is outermost. -/
def step : Op α → List α → List α × Answer α
  | .push side elements, l =>
      (view side (elements.reverse ++ view side l), .length (elements.length + l.length))
  | .pop side, l => (view side (view side l).tail, .one (view side l).head?)
  | .popMany side count, l =>
      (view side ((view side l).drop count),
        .many (if l.isEmpty then none else some ((view side l).take count)))
  | .length, l => (l, .length l.length)

/-! ### Queues -/

/-- The deque is emptied at the side, and filled at the other one. -/
def Op.ForQueue (out : Side) : Op α → Prop
  | .push side _ => side = out.other
  | .pop side => side = out
  | .popMany side _ => side = out
  | .length => True

/-- What the operations of a log add. -/
def pushed (log : List (Op α × Answer α)) : List α :=
  log.flatMap fun e =>
    match e.1 with
    | .push _ elements => elements
    | _ => []

/-- What the answers of a log hand out. -/
def popped (log : List (Op α × Answer α)) : List α :=
  log.flatMap fun e =>
    match e.2 with
    | .one (some element) => [element]
    | .many (some elements) => elements
    | _ => []

variable {out : Side} {l l' : List α} {log : List (Op α × Answer α)}

/-- One operation of a queue. -/
theorem fifo_step {op : Op α} (hop : op.ForQueue out) (l : List α) :
    view out l ++ pushed [(op, (step op l).2)] =
      popped [(op, (step op l).2)] ++ view out (step op l).1 := by
  cases op with
  | push side elements =>
      obtain rfl : side = out.other := hop
      have hback : view out (step (.push out.other elements) l).1 = view out l ++ elements := by
        simp [step, view_other, view_reverse]
      rw [hback]
      simp [pushed, popped, step]
  | pop side =>
      obtain rfl : side = out := hop
      cases h : view side l with
      | nil => simp [pushed, popped, step, h]
      | cons element rest => simp [pushed, popped, step, h]
  | popMany side count =>
      obtain rfl : side = out := hop
      cases h : l.isEmpty with
      | true =>
          rw [List.isEmpty_iff.mp h]
          simp [pushed, popped, step]
      | false => simp [pushed, popped, step, h]
  | length => simp [pushed, popped, step]

/-- **First in, first out.** -/
theorem fifo (h : Plays step l log l') (hqueue : ∀ e ∈ log, e.1.ForQueue out) :
    view out l ++ pushed log = popped log ++ view out l' := by
  induction log generalizing l with
  | nil =>
      rw [plays_nil] at h
      simp [pushed, popped, h]
  | cons e log ih =>
      obtain ⟨op, answer⟩ := e
      rw [List.forall_mem_cons] at hqueue
      obtain ⟨hop, hrest⟩ := hqueue
      obtain ⟨rfl, hplays⟩ := plays_cons.mp h
      have hstep := fifo_step hop l
      have htail := ih hplays hrest
      have hpushed : pushed ((op, (step op l).2) :: log) =
          pushed [(op, (step op l).2)] ++ pushed log := by simp [pushed]
      have hpopped : popped ((op, (step op l).2) :: log) =
          popped [(op, (step op l).2)] ++ popped log := by simp [popped]
      rw [hpushed, hpopped, ← List.append_assoc, hstep, List.append_assoc, htail,
        List.append_assoc]

/-- A pop has found nothing. -/
def Answer.isNothing : Answer α → Bool
  | .one none | .many none => true
  | _ => false

theorem eq_nil_of_isNothing {op : Op α} (h : (step op l).2.isNothing = true) : l = [] := by
  cases op with
  | push side elements => cases h
  | pop side =>
      cases hview : view side l with
      | nil => exact view_eq_nil.mp hview
      | cons element rest => simp [step, hview, Answer.isNothing] at h
  | popMany side count =>
      cases l with
      | nil => rfl
      | cons element rest => simp [step, Answer.isNothing] at h
  | length => cases h

/-- A pop that finds nothing comes when everything that was added has been handed out. -/
theorem fifo_nothing {op : Op α} {answer : Answer α} {before after : List (Op α × Answer α)}
    (h : Plays step l (before ++ (op, answer) :: after) l') (hnothing : answer.isNothing = true)
    (hqueue : ∀ e ∈ before, e.1.ForQueue out) : view out l ++ pushed before = popped before := by
  obtain ⟨b, hbefore, hplays⟩ := plays_append.mp h
  obtain ⟨rfl, -⟩ := plays_cons.mp hplays
  rw [fifo hbefore hqueue, eq_nil_of_isNothing hnothing, view_nil, List.append_nil]

end Deque
