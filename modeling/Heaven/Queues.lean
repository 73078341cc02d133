import Heaven.Lib.Deque
import Heaven.Objects
import Heaven.Pops

/-! # Lists as queues

A key that is pushed to, popped from and measured is a deque (`listObject`).  The store keeps the
two ends with code of their own and drops the key with its last element; a counted pop is a loop.

So a list that is filled at one end and emptied at the other is a queue between all clients: what
the pops hand out is what the pushes add, in the order in which they are executed, nothing is handed
out twice or left out, and a pop finds nothing only when all has been handed out (`queue_fifo`). -/

namespace Heaven

open Decimal (ascii)
open Deque (Side view)
open Runs
open Serial
open Soul

namespace Soul

variable {ρ : Type} {s : Soul} {key : Bytes} {l : List Bytes}

/-! ### The cell of a list -/

theorem restCell_cons (expiry : Option ℕ) (element : Bytes) (l : List Bytes) :
    restCell expiry (element :: l) = some (.list (element :: l), expiry) := rfl

theorem lasting_restCell (l : List Bytes) : Lasting (restCell none l) := by
  intro entry h
  cases l with
  | nil => cases h
  | cons element l =>
      cases h
      rfl

theorem length_of_restCell (h : s.get? key = restCell none l) (now : ℕ) :
    (s.llen key now).1.get? key = restCell none l ∧ (s.llen key now).2 = .ok l.length := by
  have hlasting : Lasting (s.get? key) := h ▸ lasting_restCell l
  refine ⟨(query_keeps hlasting _ _ _ _ _ _).trans h, ?_⟩
  rw [llen, query_snd, get?_purge, hlasting.filter, h]
  cases l <;> rfl

theorem lpush_of_restCell (h : s.get? key = restCell none l) (now : ℕ) {elements : List Bytes}
    (hne : elements ≠ []) :
    (s.lpush key elements now).1.get? key = restCell none (elements.reverse ++ l) ∧
      (s.lpush key elements now).2 = .ok (elements.length + l.length) := by
  have hlasting : Lasting (s.get? key) := h ▸ lasting_restCell l
  obtain ⟨hcell, hanswer⟩ := onLive_lasting hlasting now
    (updateCell Value.list? .list (misuse .lpush)
      (some (.list elements.reverse, none), .ok elements.length)
      fun list => (elements.foldl (fun list element => element :: list) list,
        .ok (elements.foldl (fun list element => element :: list) list).length))
  rw [lpush_eq_onLive, hcell, hanswer, h]
  have hcons : elements.reverse ≠ [] := by simpa using hne
  obtain ⟨last, front, hreverse⟩ := List.exists_cons_of_ne_nil hcons
  cases l with
  | nil =>
      rw [List.append_nil, hreverse]
      exact ⟨rfl, rfl⟩
  | cons element l =>
      simp only [restCell_cons, updateCell, Value.list?, List.foldl_flip_cons_eq_append']
      refine ⟨?_, by rw [List.length_append, List.length_reverse]⟩
      rw [hreverse]
      rfl

theorem rpush_of_restCell (h : s.get? key = restCell none l) (now : ℕ) {elements : List Bytes}
    (hne : elements ≠ []) :
    (s.rpush key elements now).1.get? key = restCell none (l ++ elements) ∧
      (s.rpush key elements now).2 = .ok (elements.length + l.length) := by
  have hlasting : Lasting (s.get? key) := h ▸ lasting_restCell l
  obtain ⟨hcell, hanswer⟩ := onLive_lasting hlasting now
    (updateCell Value.list? .list (misuse .rpush)
      (some (.list elements, none), .ok elements.length)
      fun list => (elements.foldl (fun list element => list ++ [element]) list,
        .ok (elements.foldl (fun list element => list ++ [element]) list).length))
  rw [rpush_eq_onLive, hcell, hanswer, h]
  obtain ⟨first, rest, rfl⟩ := List.exists_cons_of_ne_nil hne
  cases l with
  | nil => exact ⟨rfl, rfl⟩
  | cons element l =>
      simp only [restCell_cons, updateCell, Value.list?, foldl_concat]
      exact ⟨rfl, by rw [List.length_append, Nat.add_comm]⟩

theorem popWith_of_restCell (h : s.get? key = restCell none l) (now : ℕ) (cmd : Command)
    (absent : ρ) {pop : List Bytes → List Bytes × ρ} (hpop : (pop []).1 = []) :
    (s.popWith key now cmd absent pop).1.get? key = restCell none (pop l).1 ∧
      (s.popWith key now cmd absent pop).2 =
        .ok (if l.isEmpty then absent else (pop l).2) := by
  rw [popWith_eq_onCell, Dict.onCell_get?_self, h]
  cases l with
  | nil =>
      rw [hpop]
      simp only [Dict.onCell, h]
      exact ⟨rfl, rfl⟩
  | cons element l =>
      simp only [Dict.onCell, h]
      exact ⟨rfl, rfl⟩

/-! ### Pops at a side -/

/-- The pop takes from the side. -/
def PopsAt (side : Side) (pop : List Bytes → List Bytes × Option Bytes) : Prop :=
  ∀ l, pop l = (view side (view side l).tail, (view side l).head?)

theorem popFront_popsAt : PopsAt .left popFront := by
  intro l
  cases l <;> rfl

theorem popBack_popsAt : PopsAt .right popBack := by
  intro l
  simp [popBack, view]

/-- The loop of a counted pop takes from the side as long as there is something. -/
theorem PopsAt.popLoop {side : Side} {pop : List Bytes → List Bytes × Option Bytes}
    (h : PopsAt side pop) (n : ℕ) (l : List Bytes) (popped : List (Option Bytes)) :
    popLoop pop n l popped =
      (view side ((view side l).drop n), popped ++ ((view side l).take n).map some) := by
  induction n generalizing l popped with
  | zero => simp [Soul.popLoop]
  | succ n ih =>
      cases hview : view side l with
      | nil =>
          obtain rfl := Deque.view_eq_nil.mp hview
          simp [Soul.popLoop, h []]
      | cons element rest =>
          have hpop : pop l = (view side rest, some element) := by simp [h l, hview]
          simp only [Soul.popLoop, hpop, ih, Deque.view_view]
          simp

end Soul

/-! ### The deque at a key -/

/-- Lists, as far as they are pushed to, popped from and measured. -/
def listUse? : DatabaseCommand → Option (Bytes × Deque.Op Bytes)
  | .lpush key elements _ => if elements = [] then none else some (key, .push .left elements)
  | .rpush key elements _ => if elements = [] then none else some (key, .push .right elements)
  | .lpop key _ => some (key, .pop .left)
  | .rpop key _ => some (key, .pop .right)
  | .lpopM key count _ => some (key, .popMany .left count)
  | .rpopM key count _ => some (key, .popMany .right count)
  | .llen key _ => some (key, .length)
  | _ => none

def listAnswer : Deque.Answer Bytes → Response
  | .length n => .length n
  | .one element => .bulkString element
  | .many elements => .bulkStringArray (elements.map (List.map some))

theorem pop_executes {side : Side} {pop : List Bytes → List Bytes × Option Bytes}
    (hpop : PopsAt side pop) {s : Soul} {key : Bytes} {l : List Bytes}
    (h : s.get? key = restCell none l) (now : ℕ) (cmd : Command) :
    (respond .bulkString (s.popWith key now cmd none pop)).2 =
        .ok (listAnswer (Deque.step (.pop side) l).2) ∧
      (respond .bulkString (s.popWith key now cmd none pop)).1.get? key =
        restCell none (Deque.step (.pop side) l).1 := by
  have hnil : (pop []).1 = [] := by simp [hpop []]
  obtain ⟨hcell, hanswer⟩ := popWith_of_restCell h now cmd none hnil
  simp only [respond, hcell, hanswer, hpop l, replyTo, listAnswer, Deque.step]
  cases l <;> simp

theorem popMany_executes {side : Side} {pop : List Bytes → List Bytes × Option Bytes}
    (hpop : PopsAt side pop) {s : Soul} {key : Bytes} {l : List Bytes}
    (h : s.get? key = restCell none l) (count now : ℕ) (cmd : Command) :
    (respond .bulkStringArray (popMany pop key count now cmd s)).2 =
        .ok (listAnswer (Deque.step (.popMany side count) l).2) ∧
      (respond .bulkStringArray (popMany pop key count now cmd s)).1.get? key =
        restCell none (Deque.step (.popMany side count) l).1 := by
  let taken (list : List Bytes) : List Bytes × Option (List (Option Bytes)) :=
    (view side ((view side list).drop count), some (((view side list).take count).map some))
  have hbody : popMany pop key count now cmd s = s.popWith key now cmd none taken := by
    simp only [popMany, hpop.popLoop, List.nil_append, taken]
  have hnil : (taken []).1 = [] := by simp [taken]
  obtain ⟨hcell, hanswer⟩ := popWith_of_restCell h now cmd none hnil
  rw [hbody]
  simp only [respond, hcell, hanswer, taken, replyTo, listAnswer, Deque.step]
  cases l <;> simp

theorem list_executes (cmd : DatabaseCommand) (key : Bytes) (op : Deque.Op Bytes)
    (huse : listUse? cmd = some (key, op)) (l : List Bytes) (s : Soul) (config : Config)
    (h : s.get? key = restCell none l) :
    (database s config cmd).2 = .ok (listAnswer (Deque.step op l).2) ∧
      (database s config cmd).1.get? key = restCell none (Deque.step op l).1 := by
  cases cmd with
  | lpush key' elements time =>
      rw [listUse?, Option.ite_none_left_eq_some] at huse
      obtain ⟨hne, ⟨⟩⟩ := huse
      obtain ⟨hcell, hanswer⟩ := lpush_of_restCell h time hne
      simp only [database, respond, hcell, hanswer]
      exact ⟨rfl, rfl⟩
  | rpush key' elements time =>
      rw [listUse?, Option.ite_none_left_eq_some] at huse
      obtain ⟨hne, ⟨⟩⟩ := huse
      obtain ⟨hcell, hanswer⟩ := rpush_of_restCell h time hne
      simp only [database, respond, hcell, hanswer]
      simp [replyTo, listAnswer, Deque.step, view]
  | lpop key' time =>
      cases huse
      exact pop_executes popFront_popsAt h time .lpop
  | rpop key' time =>
      cases huse
      exact pop_executes popBack_popsAt h time .rpop
  | lpopM key' count time =>
      cases huse
      exact popMany_executes popFront_popsAt h count time .lpop
  | rpopM key' count time =>
      cases huse
      exact popMany_executes popBack_popsAt h count time .rpop
  | llen key' time =>
      cases huse
      obtain ⟨hcell, hanswer⟩ := length_of_restCell h time
      simp only [database, respond, hcell, hanswer]
      exact ⟨rfl, rfl⟩
  | _ => cases huse

def listObject : KeyObject (List Bytes) (Deque.Op Bytes) (Deque.Answer Bytes) where
  step := Deque.step
  answer := listAnswer
  use? := listUse?
  Holds l o := o = restCell none l
  answer_ne := by
    intro op l h
    cases op <;> cases h
  lasting := by
    rintro l _ rfl
    exact lasting_restCell l
  executes := list_executes

/-! ### Queues -/

/-- The command uses the key, if at all, as a queue that is emptied at the side, or only reads. -/
def DatabaseCommand.ForQueue (key : Bytes) (out : Side) (cmd : DatabaseCommand) : Prop :=
  listObject.Allows key cmd ∧ ∀ op, listUse? cmd = some (key, op) → op.ForQueue out

namespace Server

variable {build : Build} {streams : Token → TcpStream} {s : Server}

/-- **A list is a queue between all clients.**  Where the commands on the key push at one end and
pop at the other, what the pops have handed out, followed by what the list still holds, is what the
pushes have added, in the order of execution; and a pop has found nothing only when all that had
been added was handed out. -/
theorem queue_fifo {ioThreads : ℕ} {soul : Soul} {config : Config} {actions : List Action}
    {key : Bytes} {out : Side}
    (hrun : Run (step build streams) (start ioThreads soul config) actions s)
    (hqueue : ∀ token, ∀ request ∈ asked (streams token).payload,
      request.Only (DatabaseCommand.ForQueue key out) token)
    (hkey : soul.get? key = none) :
    ∃ log rest, listObject.accesses key s.executed = log.map (Prod.map id listAnswer) ∧
      Deque.pushed log = Deque.popped log ++ rest ∧
      (∀ before op answer after, log = before ++ (op, answer) :: after →
        answer.isNothing = true → Deque.pushed before = Deque.popped before) ∧
      ∀ temple, s.temple = some temple →
        temple.soul.get? key = restCell none (view out rest) := by
  have hallowed : ∀ token, ∀ request ∈ asked (streams token).payload,
      request.Only (listObject.Allows key) token :=
    fun token request hrequest cmd hmakes => (hqueue token request hrequest cmd hmakes).1
  have hstart : listObject.Holds [] (soul.get? key) := hkey
  obtain ⟨log, l, haccesses, hplays, hleft⟩ := plays_run hrun hallowed hstart
  have hops : ∀ e ∈ log, e.1.ForQueue out := by
    rintro ⟨op, answer⟩ hmem
    have hseen : (op, listAnswer answer) ∈ listObject.accesses key s.executed := by
      rw [haccesses]
      exact List.mem_map_of_mem (f := Prod.map id listAnswer) hmem
    obtain ⟨e, hexecuted, cmd, hcommand, hop⟩ := KeyObject.mem_accesses hseen
    obtain ⟨request, hrequest, hmakes⟩ := (sound_run hrun).makes_of_executed hexecuted
    apply (hqueue _ request hrequest cmd _).2 op (KeyObject.use_of_op hop)
    rw [← hcommand]
    exact hmakes
  refine ⟨log, view out l, haccesses, ?_, ?_, ?_⟩
  · have hfifo := Deque.fifo hplays hops
    rwa [Deque.view_nil, List.nil_append] at hfifo
  · rintro before op answer after rfl hnothing
    have hbefore : ∀ e ∈ before, e.1.ForQueue out :=
      fun e hmem => hops e (List.mem_append_left _ hmem)
    have hfifo := Deque.fifo_nothing hplays hnothing hbefore
    rwa [Deque.view_nil, List.nil_append] at hfifo
  · intro temple htemple
    rw [Deque.view_view]
    exact hleft temple htemple

/-- LPUSH q a b. -/
def pushAB : Request := ⟨[ascii "LPUSH", ascii "q", ascii "a", ascii "b"], List.cons_ne_nil _ _⟩

/-- RPOP q. -/
def popQ : Request := ⟨[ascii "RPOP", ascii "q"], List.cons_ne_nil _ _⟩

/-- Client 1 adds two elements, and client 2 takes one. -/
def workActions : List Action :=
  [.accept, .accept, .ready 1, .pick 0] ++ singing 0 18 ++ [.collect, .turn, .ready 2, .pick 0] ++
    singing 0 12 ++ [.collect, .turn]

theorem forQueue_work (token : Token) :
    ∀ request ∈ oneEach pushAB popQ token,
      request.Only (DatabaseCommand.ForQueue (ascii "q") .right) token := by
  apply only_oneEach
  · refine Request.only_of_grant
      (fun clock => .lpush (ascii "q") [ascii "a", ascii "b"] clock.unixSecs) (fun _ => rfl) ?_
    intro clock
    refine ⟨fun _ => .inl rfl, ?_⟩
    rintro op ⟨⟩
    rfl
  · refine Request.only_of_grant (fun clock => .rpop (ascii "q") clock.unixSecs) (fun _ => rfl) ?_
    intro clock
    refine ⟨fun _ => .inl rfl, ?_⟩
    rintro op ⟨⟩
    rfl

/-- Client 2 takes what client 1 has added first. -/
theorem queue_fifo_work :
    ∃ s, Run (step .release fun token => asStream (encodeAll (oneEach pushAB popQ token)))
        (start 1 Soul.new ∅) workActions s ∧
      (listObject.accesses (ascii "q") s.executed).map Prod.snd =
        [.length 2, .bulkString (some (ascii "a"))] ∧
      ∃ log rest, listObject.accesses (ascii "q") s.executed = log.map (Prod.map id listAnswer) ∧
        Deque.pushed log = Deque.popped log ++ rest := by
  let streams : Token → TcpStream := fun token => asStream (encodeAll (oneEach pushAB popQ token))
  have hqueue : ∀ token, ∀ request ∈ asked (streams token).payload,
      request.Only (DatabaseCommand.ForQueue (ascii "q") .right) token := by
    intro token request hrequest
    exact forQueue_work token request (mem_of_asked_asStream hrequest)
  obtain ⟨s, hrun, hseen⟩ := exists_run (start 1 Soul.new ∅) workActions
    (fun s => decide ((listObject.accesses (ascii "q") s.executed).map Prod.snd =
      [.length 2, .bulkString (some (ascii "a"))]))
    (by decide +kernel : (runAll (step .release streams) _ _).map _ = .ok true)
  obtain ⟨log, rest, haccesses, hfifo, -⟩ :=
    queue_fifo hrun hqueue (Dict.get?_empty _)
  exact ⟨s, hrun, of_decide_eq_true hseen, log, rest, haccesses, hfifo⟩

end Server
end Heaven
