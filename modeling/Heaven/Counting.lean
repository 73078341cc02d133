import Mathlib.Algebra.BigOperators.Group.Finset.Piecewise
import Mathlib.Order.Interval.Finset.Nat
import Heaven.Counter
import Heaven.Execution
import Heaven.SubscriberMode

/-! # A counter with many clients

Clients send INCR for one fresh key, and perhaps other commands that leave the key alone
(`Request.Neutral`).  The temple answers the wishes one at a time, so whichever order the INCRs come
in, the first is answered with 1 and each of the others with one more (`Tally`), as long as the sum
is a 64-bit integer.

With `Sound.executed_all` the temple has executed as many INCRs as the clients have sent, once it
has executed everything (`incrs_executed`). -/

namespace Heaven

open Decimal (ascii)
open Grant
open Runs

/-! ### Requests on a key -/

/-- An INCR of the key. -/
def Wish.incrs (key : Bytes) (wish : Wish) : Bool :=
  match wish.command with
  | .database (.incr k _) => decide (k = key)
  | _ => false

/-- The wish leaves the key alone, and is no SUBSCRIBE. -/
def Wish.Neutral (key : Bytes) (wish : Wish) : Prop :=
  match wish.command with
  | .database cmd =>
      ∀ (soul : Soul) (config : Config), (database soul config cmd).1.get? key = soul.get? key
  | .broadcast (.subscribe _) => False
  | .broadcast _ => True

/-- INCR with the key. -/
def Request.Incrs (key : Bytes) : Request → Prop
  | ⟨terms, h⟩ => IsCommand (ascii "INCR") terms h ∧ terms.drop 1 = [key]

instance (key : Bytes) : (request : Request) → Decidable (request.Incrs key)
  | ⟨_, _⟩ => inferInstanceAs (Decidable (_ ∧ _))

/-- Whatever the temple is asked for by the request leaves the key alone. -/
def Request.Neutral (key : Bytes) : Request → Prop
  | ⟨terms, h⟩ => ∀ (clock : SystemTime) (token : Token) (wish : Wish),
      Emission.toTemple wish ∈ grant terms h clock token → wish.Neutral key

variable {key : Bytes} {request : Request} {wish : Wish} {token : Token}

theorem grant_incrs (h : request.Incrs key) (clock : SystemTime) (token : Token) :
    grant request.val request.property clock token =
      [.toTemple ⟨token, .database (.incr key clock.unixSecs)⟩] := by
  obtain ⟨hword, hkey⟩ := h
  have hgrant : grant request.val request.property clock token = incr clock token request.val :=
    grant_of_isCommand hword rfl clock token
  have hlength : request.val.length = 2 := by
    have hdrop := congrArg List.length hkey
    have hpos := List.length_pos_of_ne_nil request.property
    rw [List.length_drop, List.length_singleton] at hdrop
    omega
  rw [hgrant]
  simp only [incr, keyHandler, hlength, ne_eq, not_true_eq_false, if_false, hkey]
  rfl

/-- An INCR is not neutral: it sets a key that is not set. -/
theorem not_neutral_of_incrs (h : wish.incrs key = true) : ¬ wish.Neutral key := by
  obtain ⟨token, command⟩ := wish
  cases command with
  | broadcast command => cases h
  | database cmd =>
      cases cmd
      case incr k now =>
        obtain rfl : k = key := of_decide_eq_true h
        intro hneutral
        have hsame := hneutral Soul.new ∅
        have hunset : (Soul.new.getValidValue k now).2 = none := rfl
        have hset : (database Soul.new ∅ (.incr k now)).1 =
            Soul.new.put k (some (.string (Decimal.printInt 1), none)) :=
          congrArg Prod.fst (Soul.run_of_unset .incr hunset)
        rw [hset, Dict.get?_put_self] at hsame
        cases hsame
      all_goals cases h

/-- A request makes one INCR, or none. -/
theorem countP_wishesIn (h : request.Incrs key ∨ request.Neutral key) (clock : SystemTime)
    (token : Token) :
    (wishesIn (grant request.val request.property clock token)).countP (Wish.incrs key) =
      if request.Incrs key then 1 else 0 := by
  by_cases hincrs : request.Incrs key
  · rw [if_pos hincrs, grant_incrs hincrs]
    have hkey : Wish.incrs key ⟨token, .database (.incr key clock.unixSecs)⟩ = true :=
      decide_eq_true rfl
    show List.countP (Wish.incrs key) [_] = 1
    rw [List.countP_singleton, if_pos hkey]
  · have hneutral := h.resolve_left hincrs
    rw [if_neg hincrs, List.countP_eq_zero]
    intro wish hwish hcounts
    exact not_neutral_of_incrs hcounts (hneutral clock token wish (mem_wishesIn.mp hwish))

/-- The wishes of requests hold as many INCRs as the requests. -/
theorem Prayed.countP {requests : List Request} {wishes : List Wish}
    (h : Prayed token requests wishes)
    (hrequests : ∀ request ∈ requests, request.Incrs key ∨ request.Neutral key) :
    wishes.countP (Wish.incrs key) =
      requests.countP fun request => decide (request.Incrs key) := by
  induction h with
  | nil => rfl
  | next request clock h ih =>
      have hrequest := hrequests request (List.mem_append_right _ List.mem_cons_self)
      have hbefore := ih fun r hr => hrequests r (List.mem_append_left _ hr)
      rw [List.countP_append, List.countP_append, hbefore, countP_wishesIn hrequest,
        List.countP_singleton]
      simp only [decide_eq_true_eq]

/-! ### The temple -/

/-- UNSUBSCRIBE makes nobody a subscriber. -/
theorem mem_of_mem_unsubscribe {m : EventMap} {events : List Bytes} {clients : HashSet Token}
    {client : Token} (h : client ∈ (m.unsubscribe events token clients).2.1) :
    client ∈ clients := by
  cases hget : m.get? token with
  | none =>
      rw [EventMap.unsubscribe_of_none hget] at h
      exact h
  | some existing =>
      obtain ⟨rest, result, hspec, -⟩ := EventMap.unsubscribe_of_some hget events clients
      rw [hspec] at h
      dsimp only at h
      split_ifs at h
      · exact (HashSet.mem_remove.mp h).2
      · exact h

/-- Nobody subscribes, and the key has been raised `n` times. -/
structure Counted (key : Bytes) (n : ℕ) (t : Temple) : Prop where
  free : ∀ token, token ∉ t.subscribedClients
  value : if n = 0 then t.soul.get? key = none else Soul.Holds t.soul key n

variable {n : ℕ} {t : Temple}

theorem Counted.incr (h : Counted key n t) (hn : n + 1 < 2 ^ 63) (now : ℕ) :
    t.soul.incr key now =
      (t.soul.put key (some (.string (Decimal.printInt (n + 1)), none)), .ok (n + 1)) := by
  have hvalue := h.value
  by_cases hzero : n = 0
  · subst hzero
    rw [if_pos rfl] at hvalue
    have hunset : (t.soul.getValidValue key now).2 = none := by
      rw [Soul.getValidValue_eq_onLive]
      simp only [Soul.onLive, Dict.onKept, Dict.onCell, hvalue]
      rfl
    exact Soul.run_of_unset .incr hunset
  · rw [if_neg hzero] at hvalue
    have hrun := Soul.run_of_holds .incr now hvalue
    have hsum : (n : ℤ) ≠ -2 ^ 63 ∧ InI64 ((n : ℤ) + 1) := ⟨by omega, by omega, by omega⟩
    rw [CounterCommand.delta, if_pos hsum] at hrun
    exact hrun

/-- An INCR is answered with one more than the INCRs before it. -/
theorem Counted.turn_incrs (h : Counted key n t) (hn : n + 1 < 2 ^ 63)
    (hwish : wish.incrs key = true) :
    (t.turn wish).2 = .ok (Temple.deliver wish.token (.number (n + 1))) ∧
      Counted key (n + 1) (t.turn wish).1 := by
  obtain ⟨token, command⟩ := wish
  cases command with
  | broadcast command => cases hwish
  | database cmd =>
      cases cmd
      case incr k now =>
        obtain rfl : k = key := of_decide_eq_true hwish
        have hincr := h.incr hn now
        have hrange : InI64 ((n : ℤ) + 1) := ⟨by omega, by omega⟩
        have hdatabase : database t.soul t.config (.incr k now) =
            (t.soul.put k (some (.string (Decimal.printInt (n + 1)), none)),
              .ok (.number (n + 1))) := by
          rw [database, hincr]
          rfl
        rw [Temple.turn_executes (h.free token), hdatabase]
        refine ⟨rfl, h.free, ?_⟩
        rw [if_neg (Nat.succ_ne_zero n)]
        have hholds := Soul.holds_put t.soul k hrange
        exact_mod_cast hholds
      all_goals cases hwish

/-- A neutral wish changes nothing about the key. -/
theorem Counted.turn_neutral (h : Counted key n t) (hwish : wish.Neutral key) :
    Counted key n (t.turn wish).1 := by
  obtain ⟨token, command⟩ := wish
  cases command with
  | database cmd =>
      rw [Temple.turn_executes (h.free token)]
      refine ⟨h.free, ?_⟩
      have hsame := hwish t.soul t.config
      have hvalue := h.value
      simp only [Soul.Holds] at hvalue ⊢
      rw [hsame]
      exact hvalue
  | broadcast command =>
      cases command with
      | subscribe events => exact hwish.elim
      | publish event message => exact h
      | unsubscribe terms =>
          refine ⟨?_, h.value⟩
          intro client hclient
          exact h.free client (mem_of_mem_unsubscribe hclient)

/-! ### The replies -/

/-- The number in an answer to the client. -/
def numberFor (token : Token) : Except Panic Decree → Option ℤ
  | .ok (.deliver ⟨client, .number number⟩) => if client = token then some number else none
  | _ => none

/-- An INCR is answered with a 64-bit integer. -/
theorem inI64_of_turn {t : Temple} {wish : Wish} {n : ℤ} (hwish : wish.incrs key = true)
    (h : numberFor wish.token (t.turn wish).2 = some n) : InI64 n := by
  obtain ⟨token, command⟩ := wish
  cases command with
  | broadcast command => cases hwish
  | database cmd =>
      cases cmd
      case incr k now =>
        by_cases hgate : token ∈ t.subscribedClients
        · rw [Temple.turn_gated hgate] at h
          cases h
        · rw [Temple.turn_executes hgate] at h
          cases hincr : (t.soul.incr k now).2 with
          | error sacrilege =>
              simp only [database, respond, hincr] at h
              cases h
          | ok m =>
              simp only [database, respond, hincr] at h
              have hnumber : some m = some n := (if_pos rfl).symm.trans h
              cases hnumber
              exact Soul.inI64_of_run .incr (by decide) hincr
      all_goals cases hwish

/-- What the INCRs of the key have been answered with, in the order of execution. -/
def incrReplies (key : Bytes) (executed : List (Wish × Except Panic Decree)) : List (Option ℤ) :=
  (executed.filter fun e => e.1.incrs key).map fun e => numberFor e.1.token e.2

/-- The numbers from 1 to `n`. -/
def firstNumbers (n : ℕ) : List (Option ℤ) := (List.range n).map fun (i : ℕ) => some ((i : ℤ) + 1)

theorem firstNumbers_succ (n : ℕ) :
    firstNumbers (n + 1) = firstNumbers n ++ [some ((n : ℤ) + 1)] := by
  rw [firstNumbers, List.range_succ, List.map_append]
  rfl

namespace Server

variable {build : Build} {streams : Token → TcpStream} {s s' : Server}

/-- The INCRs so far have been answered with the numbers from 1 on. -/
def Tally (key : Bytes) (s : Server) : Prop :=
  (incrReplies key s.executed).length < 2 ^ 63 →
    incrReplies key s.executed = firstNumbers (incrReplies key s.executed).length ∧
      ∀ temple, s.temple = some temple →
        Counted key (incrReplies key s.executed).length temple

/-- What is executed by a transition: a wish that the temple takes, or nothing. -/
theorem Transition.executed (h : Transition build streams s s') :
    (s'.executed = s.executed ∧ s'.temple = s.temple) ∨
      ∃ temple wish wishes, s.temple = some temple ∧ s.wishes = wish :: wishes ∧
        s' = s.serve temple wish wishes := by
  cases h with
  | @send _ _ _ _ emission _ _ =>
      cases emission
      all_goals exact .inl ⟨rfl, rfl⟩
  | turn htemple hwishes => exact .inr ⟨_, _, _, htemple, hwishes, rfl⟩
  | _ => exact .inl ⟨rfl, rfl⟩

theorem serve_executed (s : Server) (temple : Temple) (wish : Wish) (wishes : List Wish) :
    (s.serve temple wish wishes).executed = s.executed ++ [(wish, (temple.turn wish).2)] ∧
      ∀ temple', (s.serve temple wish wishes).temple = some temple' →
        temple' = (temple.turn wish).1 := by
  unfold serve
  split
  case h_1 temple' decree hturn =>
    rw [hturn]
    refine ⟨rfl, ?_⟩
    rintro _ ⟨⟩
    rfl
  case h_2 temple' panic hturn =>
    rw [hturn]
    exact ⟨rfl, fun _ hnone => nomatch hnone⟩

/-- The step lemma. -/
theorem Tally.step (h : s.Tally key) (hstep : Transition build streams s s')
    (hwishes : ∀ wish ∈ s.wishes, wish.incrs key = true ∨ wish.Neutral key) : s'.Tally key := by
  obtain ⟨hexecuted, htemple⟩ | ⟨temple, wish, wishes, htemple, hqueue, rfl⟩ := hstep.executed
  · unfold Tally
    rw [hexecuted, htemple]
    exact h
  · obtain ⟨hexecuted, hnext⟩ := s.serve_executed temple wish wishes
    intro hlt
    rw [hexecuted] at hlt ⊢
    have hwish := hwishes wish (hqueue ▸ List.mem_cons_self)
    by_cases hincrs : wish.incrs key = true
    · have hreplies : incrReplies key (s.executed ++ [(wish, (temple.turn wish).2)]) =
          incrReplies key s.executed ++ [numberFor wish.token (temple.turn wish).2] := by
        simp only [incrReplies, List.filter_append, List.filter_cons, hincrs, if_true,
          List.filter_nil, List.map_append, List.map_cons, List.map_nil]
      rw [hreplies, List.length_append, List.length_singleton] at hlt
      obtain ⟨hbefore, hcounted⟩ := h (by omega)
      obtain ⟨hanswer, hafter⟩ := (hcounted temple htemple).turn_incrs hlt hincrs
      have hnumber : numberFor wish.token (temple.turn wish).2 =
          some (((incrReplies key s.executed).length : ℤ) + 1) := by
        rw [hanswer]
        exact if_pos rfl
      rw [hreplies, List.length_append, List.length_singleton, firstNumbers_succ, hnumber]
      refine ⟨congrArg (· ++ _) hbefore, ?_⟩
      intro temple' htemple'
      rw [hnext temple' htemple']
      exact hafter
    · have hreplies : incrReplies key (s.executed ++ [(wish, (temple.turn wish).2)]) =
          incrReplies key s.executed := by
        simp only [incrReplies, List.filter_append, List.filter_cons, hincrs, List.filter_nil,
          Bool.false_eq_true, if_false, List.append_nil]
      rw [hreplies] at hlt ⊢
      obtain ⟨hbefore, hcounted⟩ := h hlt
      refine ⟨hbefore, ?_⟩
      intro temple' htemple'
      rw [hnext temple' htemple']
      exact (hcounted temple htemple).turn_neutral (hwish.resolve_left hincrs)

theorem tally_start {soul : Soul} (hfresh : soul.get? key = none) (ioThreads : ℕ)
    (config : Config) : (start ioThreads soul config).Tally key := by
  intro _
  refine ⟨rfl, ?_⟩
  rintro _ ⟨⟩
  exact ⟨fun token => HashSet.not_mem_empty token, hfresh⟩

variable {requests : Token → List Request}

/-- **In every run, the INCRs of a fresh key are answered with the numbers from 1 on.** -/
theorem tally_run {ioThreads : ℕ} {soul : Soul} {config : Config} {actions : List Action}
    (hrun : Run (step build streams) (start ioThreads soul config) actions s)
    (hbytes : ∀ token, (streams token).payload <+: encodeAll (requests token))
    (hkey : ∀ token, ∀ request ∈ requests token, request.Incrs key ∨ request.Neutral key)
    (hfresh : soul.get? key = none) : s.Tally key := by
  have hinvariant : s.Sound build streams ∧ s.Tally key := by
    apply hrun.invariant (P := fun _ => True) _ (fun _ _ => trivial)
      ⟨sound_start build streams ioThreads soul config, tally_start hfresh ioThreads config⟩
    rintro s action s' - ⟨hsound, htally⟩ hstep
    have htransition := step_transition hstep
    refine ⟨hsound.step htransition, htally.step htransition ?_⟩
    intro wish hwish
    obtain ⟨request, hrequest, clock, hgrant⟩ := hsound.wish_of_mem hwish (hbytes wish.token)
    obtain hincrs | hneutral := hkey wish.token request hrequest
    · rw [grant_incrs hincrs, List.mem_singleton, Emission.toTemple.injEq] at hgrant
      rw [hgrant]
      exact .inl (decide_eq_true rfl)
    · exact .inr (hneutral clock wish.token wish hgrant)
  exact hinvariant.2

/-! ### How many there are -/

/-- Nothing is left to do: all input has been read, and no wish is queued. -/
structure Quiet (s : Server) : Prop where
  wishes : s.wishes = []
  read : ∀ token, s.Known token →
    ∃ pilgrim, s.ingressMap.get? token = some pilgrim ∧ pilgrim.stream.payload = []

instance (s : Server) : Decidable s.Quiet :=
  decidable_of_iff (s.wishes = [] ∧ ∀ token ∈ List.range s.pilgrimCounter, 1 ≤ token →
      (s.ingressMap.get? token).map (·.stream.payload) = some []) <| by
    constructor
    · rintro ⟨hwishes, hread⟩
      refine ⟨hwishes, ?_⟩
      rintro token ⟨hpos, hlt⟩
      exact Option.map_eq_some_iff.mp (hread token (List.mem_range.mpr hlt) hpos)
    · rintro ⟨hwishes, hread⟩
      refine ⟨hwishes, ?_⟩
      intro token hlt hpos
      exact Option.map_eq_some_iff.mpr (hread token ⟨hpos, List.mem_range.mp hlt⟩)

/-- The INCRs of the key that the clients of the server send. -/
def incrsSent (requests : Token → List Request) (key : Bytes) (s : Server) : ℕ :=
  ∑ token ∈ Finset.Ico 1 s.pilgrimCounter,
    (requests token).countP fun request => decide (request.Incrs key)

/-- The wishes of all clients are those of each client. -/
theorem countP_eq_sum (p : Wish → Bool) (tokens : Finset Token) {wishes : List Wish}
    (h : ∀ wish ∈ wishes, wish.token ∈ tokens) :
    wishes.countP p =
      ∑ token ∈ tokens, (wishes.filter fun wish => decide (wish.token = token)).countP p := by
  induction wishes with
  | nil => simp only [List.filter_nil, List.countP_nil, Finset.sum_const_zero]
  | cons wish wishes ih =>
      rw [List.forall_mem_cons] at h
      have hone : ∀ token, ((wish :: wishes).filter fun w => decide (w.token = token)).countP p =
          (wishes.filter fun w => decide (w.token = token)).countP p +
            if wish.token = token then (if p wish then 1 else 0) else 0 := by
        intro token
        by_cases htoken : wish.token = token
        · simp only [List.filter_cons, htoken, decide_true, if_true, List.countP_cons]
        · simp only [List.filter_cons, htoken, decide_false, Bool.false_eq_true, if_false, add_zero]
      simp only [hone, Finset.sum_add_distrib, Finset.sum_ite_eq, if_pos h.1, ← ih h.2]
      rw [List.countP_cons]

theorem length_incrReplies (key : Bytes) (executed : List (Wish × Except Panic Decree)) :
    (incrReplies key executed).length = (executed.map (·.1)).countP (Wish.incrs key) := by
  rw [incrReplies, List.length_map, ← List.countP_eq_length_filter, List.countP_map]
  rfl

/-- **When nothing is left to do, every INCR has been executed.** -/
theorem Sound.incrs_executed (h : s.Sound build streams) (hquiet : s.Quiet)
    (hcomplete : ∀ token, s.Known token → Complete (requests token) (streams token))
    (hkey : ∀ token, ∀ request ∈ requests token, request.Incrs key ∨ request.Neutral key) :
    (incrReplies key s.executed).length = s.incrsSent requests key := by
  have hknown : ∀ token, token ∈ Finset.Ico 1 s.pilgrimCounter ↔ s.Known token :=
    fun token => Finset.mem_Ico
  rw [length_incrReplies, countP_eq_sum _ (Finset.Ico 1 s.pilgrimCounter)]
  · apply Finset.sum_congr rfl
    intro token htoken
    have hclient := (hknown token).mp htoken
    obtain ⟨pilgrim, hget, hread⟩ := hquiet.read token hclient
    have hexecuted : Prayed token (requests token) (s.executedBy token) := by
      apply h.executed_all (hcomplete token hclient) hget hread
      rw [hquiet.wishes]
      exact fun _ hwish => nomatch hwish
    exact hexecuted.countP (hkey token)
  · intro wish hwish
    obtain ⟨e, he, rfl⟩ := List.mem_map.mp hwish
    exact (hknown _).mpr (h.known_of_executed he)

/-! ### The range of the counter -/

/-- Every wish has been answered by a turn of the temple. -/
theorem executed_run {ioThreads : ℕ} {soul : Soul} {config : Config} {actions : List Action}
    (hrun : Run (step build streams) (start ioThreads soul config) actions s) :
    ∀ e ∈ s.executed, ∃ t : Temple, e.2 = (t.turn e.1).2 := by
  apply hrun.invariant (P := fun _ => True) _ (fun _ _ => trivial) (fun _ he => nomatch he)
  intro s action s' _ hs hstep
  obtain ⟨hexecuted, -⟩ | ⟨temple, wish, wishes, -, -, rfl⟩ := (step_transition hstep).executed
  · rw [hexecuted]
    exact hs
  · rw [(s.serve_executed temple wish wishes).1]
    intro e he
    rw [List.mem_append, List.mem_singleton] at he
    obtain he | rfl := he
    · exact hs e he
    · exact ⟨temple, rfl⟩

/-- No INCR is answered with a number that is no 64-bit integer. -/
theorem inI64_of_mem_incrReplies {ioThreads : ℕ} {soul : Soul} {config : Config}
    {actions : List Action}
    (hrun : Run (step build streams) (start ioThreads soul config) actions s) {n : ℤ}
    (h : some n ∈ incrReplies key s.executed) : InI64 n := by
  obtain ⟨e, he, hnumber⟩ := List.mem_map.mp h
  rw [List.mem_filter] at he
  obtain ⟨t, ht⟩ := executed_run hrun e he.1
  rw [ht] at hnumber
  exact inI64_of_turn he.2 hnumber

end Server
end Heaven
