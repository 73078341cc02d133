import Heaven.Progress

/-! # Execution exactly once, in order

The results about the server as a whole, for every number of clients and of angels and in every
run: a pilgrim is in one place at a time, the temple executes the wishes of each client in the
order of its requests and once each, and INCRs of a fresh key count (`exactly_once`).

A command that the worker answers itself never reaches the temple, so what the temple executes is
no prefix of the commands of a client; and the counter is a 64-bit integer
(`not_all_executed_nor_counted`). -/

namespace Heaven

open Decimal (ascii printInt)
open Runs

namespace Server

variable {build : Build} {streams : Token → TcpStream} {requests : Token → List Request}
  {s s' : Server} {key : Bytes}

/-! ### The counter -/

/-- When nothing is left to do, the INCRs have been answered with the numbers from 1 on. -/
theorem incrs_count {ioThreads : ℕ} {soul : Soul} {config : Config} {actions : List Action}
    (hrun : Run (step build streams) (start ioThreads soul config) actions s)
    (hbytes : ∀ token, (streams token).payload <+: encodeAll (requests token))
    (hkey : ∀ token, ∀ request ∈ requests token, request.Incrs key ∨ request.Neutral key)
    (hfresh : soul.get? key = none)
    (hcomplete : ∀ token, s.Known token → Complete (requests token) (streams token))
    (hquiet : s.Quiet) (hrange : s.incrsSent requests key < 2 ^ 63) :
    incrReplies key s.executed = firstNumbers (s.incrsSent requests key) ∧
      ∀ temple, s.temple = some temple → 0 < s.incrsSent requests key → ∀ now,
        (temple.soul.get key now).2 = .ok (some (printInt (s.incrsSent requests key))) := by
  have hlength := (sound_run hrun).incrs_executed hquiet hcomplete hkey
  have htally := tally_run hrun hbytes hkey hfresh
  unfold Tally at htally
  rw [hlength] at htally
  obtain ⟨hreplies, hcounted⟩ := htally hrange
  refine ⟨hreplies, ?_⟩
  intro temple htemple hpos now
  have hvalue := (hcounted temple htemple).value
  rw [if_neg hpos.ne'] at hvalue
  exact Soul.Holds.get_eq hvalue now

/-! ### Clients that count -/

/-- All bytes arrive together. -/
def asStream : Bytes → TcpStream
  | [] => []
  | first :: rest => [.data first rest]

theorem payload_asStream (bytes : Bytes) : (asStream bytes).payload = bytes := by
  cases bytes with
  | nil => rfl
  | cons first rest => exact List.append_nil _

theorem complete_asStream {requests : List Request} (h : ∀ request ∈ requests, request.Fits) :
    Complete requests (asStream (encodeAll requests)) := by
  refine ⟨h, ?_, payload_asStream _⟩
  intro arrival harrival
  cases hbytes : encodeAll requests with
  | nil =>
      rw [hbytes] at harrival
      cases harrival
  | cons first rest =>
      rw [hbytes] at harrival
      rw [List.mem_singleton.mp harrival]
      exact ⟨(nomatch ·), (nomatch ·)⟩

/-- INCR n. -/
def incrN : Request := ⟨[ascii "INCR", ascii "n"], List.cons_ne_nil _ _⟩

theorem incrN_incrs : incrN.Incrs (ascii "n") := by decide

theorem steady_of_incrs {request : Request} (h : request.Incrs key) : request.Steady := by
  intro clock token wish hwish t
  rw [grant_incrs h, List.mem_singleton, Emission.toTemple.injEq] at hwish
  subst hwish
  by_cases hgate : token ∈ t.subscribedClients
  · rw [Temple.turn_gated hgate]
    exact ⟨_, rfl⟩
  · rw [Temple.turn_executes hgate]
    exact ⟨_, rfl⟩

/-- Client 1 sends INCR n so many times, and nobody else sends anything. -/
def onlyFirst (count : ℕ) (token : Token) : List Request :=
  if token = 1 then List.replicate count incrN else []

theorem eq_incrN {count : ℕ} {token : Token} {request : Request}
    (h : request ∈ onlyFirst count token) : request = incrN := by
  unfold onlyFirst at h
  split_ifs at h
  · exact List.eq_of_mem_replicate h
  · cases h

theorem complete_onlyFirst (count : ℕ) (token : Token) :
    Complete (onlyFirst count token) (asStream (encodeAll (onlyFirst count token))) := by
  apply complete_asStream
  intro request hrequest
  rw [eq_incrN hrequest]
  decide

/-- The server can execute all of them. -/
theorem exists_run_onlyFirst (build : Build) (count : ℕ) :
    ∃ actions s, Run (step build fun token => asStream (encodeAll (onlyFirst count token)))
        (start 1 Soul.new ∅) actions s ∧ s.pilgrimCounter = 2 ∧ s.Quiet := by
  let streams : Token → TcpStream := fun token => asStream (encodeAll (onlyFirst count token))
  let accepted : Server := { start 1 Soul.new ∅ with
    ingressMap := Dict.empty.insert 1 (.new (streams 1))
    pilgrimCounter := 2
    decrees := [.welcome 1] }
  have haccept : Run (step build streams) (start 1 Soul.new ∅) [.accept] accepted :=
    .cons rfl (.nil accepted)
  have hserving : accepted.Serving build streams (onlyFirst count) := by
    refine ⟨⟨fun token _ => complete_onlyFirst count token, ?_, ?_,
      ⟨.idle, List.mem_cons_self, nofun⟩, ⟨_, rfl⟩⟩, sound_run haccept⟩
    · intro token hknown
      obtain rfl : token = 1 := Nat.le_antisymm (Nat.le_of_lt_succ hknown.2) hknown.1
      have hget : accepted.ingressMap.get? 1 = some (.new (streams 1)) :=
        Dict.get?_insert_self _ _ _
      simp [holders, hget]
    · intro token _ request hrequest
      rw [eq_incrN hrequest]
      exact steady_of_incrs incrN_incrs
  obtain ⟨actions, s, hrun, -, hcounter, hquiet⟩ := hserving.finishes
  exact ⟨_, s, haccept.append hrun, hcounter, hquiet⟩

theorem incrsSent_onlyFirst {count : ℕ} (h : s.pilgrimCounter = 2) :
    s.incrsSent (onlyFirst count) (ascii "n") = count := by
  have hall : (List.replicate count incrN).countP
      (fun request => decide (request.Incrs (ascii "n"))) = count := by
    rw [List.countP_replicate, if_pos (decide_eq_true incrN_incrs)]
  have honly : Finset.Ico 1 2 = {1} := rfl
  rw [incrsSent, h, honly, Finset.sum_singleton]
  exact hall

/-! ### The results -/

/-- **Exactly once, in order.** -/
theorem exactly_once {ioThreads : ℕ} {soul : Soul} {config : Config} {actions : List Action}
    (hrun : Run (step build streams) (start ioThreads soul config) actions s)
    (hbytes : ∀ token, (streams token).payload <+: encodeAll (requests token)) :
    -- a pilgrim is in one place at a time
    (∀ token, (s.holders token).card ≤ 1) ∧
    -- the wishes executed for a client are those of its first requests
    (∀ token, ∃ done, done <+: requests token ∧ Prayed token done (s.executedBy token)) ∧
    -- and of all requests, once its input has been read and no wish of it is queued
    (∀ token pilgrim, Complete (requests token) (streams token) →
      s.ingressMap.get? token = some pilgrim → pilgrim.stream.payload = [] →
      (∀ wish ∈ s.wishes, wish.token ≠ token) →
      Prayed token (requests token) (s.executedBy token)) ∧
    -- the answers are sent to egress in the order of execution
    s.answers.Sublist s.decrees ∧
    -- INCRs of a fresh key count
    (∀ key, soul.get? key = none →
      (∀ token, ∀ request ∈ requests token, request.Incrs key ∨ request.Neutral key) →
      (∀ token, s.Known token → Complete (requests token) (streams token)) → s.Quiet →
      s.incrsSent requests key < 2 ^ 63 →
      incrReplies key s.executed = firstNumbers (s.incrsSent requests key) ∧
        ∀ temple, s.temple = some temple → 0 < s.incrsSent requests key → ∀ now,
          (temple.soul.get key now).2 = .ok (some (printInt (s.incrsSent requests key)))) ∧
    -- and while the clients are connected, all of this can be finished
    (s.Attended streams requests → ∃ actions' s',
      Run (step build streams) s actions' s' ∧ s'.Attended streams requests ∧
        s'.pilgrimCounter = s.pilgrimCounter ∧ s'.Quiet) := by
  have hsound := sound_run hrun
  refine ⟨hsound.card_holders_le, fun token => hsound.executed_initial (hbytes token), ?_,
    answers_run hrun, ?_, ?_⟩
  · intro token pilgrim hcomplete hget hread hwishes
    exact hsound.executed_all hcomplete hget hread hwishes
  · intro key hfresh hkey hcomplete hquiet hrange
    exact incrs_count hrun hbytes hkey hfresh hcomplete hquiet hrange
  · intro hattended
    have hserving : s.Serving build streams requests := ⟨hattended, hsound⟩
    obtain ⟨actions', s', hrun', hserving', hcounter, hquiet⟩ := hserving.finishes
    exact ⟨actions', s', hrun', hserving'.toAttended, hcounter, hquiet⟩

/-- An angel goes on so many times. -/
def singing (i count : ℕ) : List Action := List.replicate count (.sing i .unixEpoch)

/-- Clients 1 and 2 send INCR n. -/
def bothIncr (token : Token) : List Request := if token = 1 ∨ token = 2 then [incrN] else []

/-- Both are read at once, and client 2 comes first. -/
def bothIncrActions : List Action :=
  [.accept, .accept, .ready 1, .pick 0, .ready 2, .pick 1] ++ singing 0 9 ++ singing 1 12 ++
    singing 0 3 ++ [.collect, .turn, .collect, .turn]

theorem eq_incrN_of_bothIncr {token : Token} {request : Request} (h : request ∈ bothIncr token) :
    request = incrN := by
  unfold bothIncr at h
  split_ifs at h
  · exact List.mem_singleton.mp h
  · cases h

/-- The two INCRs are answered with 1 and 2. -/
theorem exactly_once_bothIncr :
    ∃ s, Run (step .release fun token => asStream (encodeAll (bothIncr token))) (start 2 Soul.new ∅)
        bothIncrActions s ∧
      incrReplies (ascii "n") s.executed = [some 1, some 2] := by
  let streams : Token → TcpStream := fun token => asStream (encodeAll (bothIncr token))
  have hcomplete : ∀ token, Complete (bothIncr token) (streams token) := by
    intro token
    apply complete_asStream
    intro request hrequest
    rw [eq_incrN_of_bothIncr hrequest]
    decide
  have hbytes : ∀ token, (streams token).payload <+: encodeAll (bothIncr token) := by
    intro token
    rw [(hcomplete token).bytes]
  have hincrs : ∀ token, ∀ request ∈ bothIncr token,
      request.Incrs (ascii "n") ∨ request.Neutral (ascii "n") := by
    intro token request hrequest
    rw [eq_incrN_of_bothIncr hrequest]
    exact .inl incrN_incrs
  obtain ⟨s, hrun, hseen⟩ := exists_run (start 2 Soul.new ∅) bothIncrActions
    (fun s => decide s.Quiet && decide (s.incrsSent bothIncr (ascii "n") = 2))
    (by decide +kernel : (runAll (step .release streams) _ _).map _ = .ok true)
  rw [Bool.and_eq_true, decide_eq_true_eq, decide_eq_true_eq] at hseen
  obtain ⟨hquiet, hsent⟩ := hseen
  have hrange : s.incrsSent bothIncr (ascii "n") < 2 ^ 63 := by
    rw [hsent]
    decide
  obtain ⟨-, -, -, -, hcounts, -⟩ := exactly_once hrun hbytes
  obtain ⟨hreplies, -⟩ := hcounts (ascii "n") (Dict.get?_empty _) hincrs
    (fun token _ => hcomplete token) hquiet hrange
  refine ⟨s, hrun, ?_⟩
  rw [hreplies, hsent]
  rfl

/-- PING and GET k. -/
def pingGet : List Request :=
  [⟨[ascii "PING"], List.cons_ne_nil _ _⟩, ⟨[ascii "GET", ascii "k"], List.cons_ne_nil _ _⟩]

/-- Client 1 is served. -/
def pingGetActions : List Action :=
  [.accept, .ready 1, .pick 0] ++ singing 0 18 ++ [.collect, .turn]

/-- After PING and GET the temple has executed GET only; and no INCR raises the counter to `2 ^ 63`.
-/
theorem not_all_executed_nor_counted :
    (¬ ∀ (build : Build) (streams : Token → TcpStream) (requests : Token → List Request)
        (ioThreads : ℕ) (soul : Soul) (config : Config) (actions : List Action) (s : Server),
        (∀ token, Complete (requests token) (streams token)) →
        Run (step build streams) (start ioThreads soul config) actions s →
        ∀ token, ∃ done, done <+: requests token ∧
          List.Forall₂ (fun (request : Request) wish => ∃ clock,
            .toTemple wish ∈ grant request.val request.property clock token)
            done (s.executedBy token)) ∧
      ¬ ∀ (build : Build) (streams : Token → TcpStream) (requests : Token → List Request)
        (ioThreads : ℕ) (soul : Soul) (config : Config) (actions : List Action) (s : Server)
        (key : Bytes), soul.get? key = none →
        (∀ token, Complete (requests token) (streams token)) →
        (∀ token, ∀ request ∈ requests token, request.Incrs key) →
        Run (step build streams) (start ioThreads soul config) actions s → s.Quiet →
        incrReplies key s.executed = firstNumbers (s.incrsSent requests key) := by
  constructor
  · intro h
    have hcomplete : Complete pingGet (asStream (encodeAll pingGet)) :=
      complete_asStream (by decide)
    obtain ⟨s, hrun, hseen⟩ := exists_run (start 1 Soul.new ∅) pingGetActions
      (fun s => decide (s.executedBy 1 ≠ []))
      (by decide +kernel : (runAll (step .release fun _ => asStream (encodeAll pingGet))
        _ _).map _ = .ok true)
    rw [decide_eq_true_eq] at hseen
    obtain ⟨done, hdone, hexecuted⟩ :=
      h _ _ (fun _ => pingGet) _ _ _ _ _ (fun _ => hcomplete) hrun 1
    generalize s.executedBy 1 = executed at hseen hexecuted
    cases hexecuted with
    | nil => exact hseen rfl
    | @cons request wish done wishes hwish _ =>
        -- the worker answers PING itself
        obtain ⟨tail, htail⟩ := hdone
        obtain ⟨rfl, -⟩ := List.cons.inj htail
        obtain ⟨clock, hmem⟩ := hwish
        cases List.mem_singleton.mp hmem
  · intro h
    obtain ⟨actions, s, hrun, hcounter, hquiet⟩ := exists_run_onlyFirst .release (2 ^ 63)
    have hincrs : ∀ token, ∀ request ∈ onlyFirst (2 ^ 63) token, request.Incrs (ascii "n") := by
      intro token request hrequest
      rw [eq_incrN hrequest]
      exact incrN_incrs
    have hreplies := h _ _ _ _ _ _ _ _ _ (Dict.get?_empty _) (complete_onlyFirst _) hincrs
      hrun hquiet
    rw [incrsSent_onlyFirst hcounter] at hreplies
    have hlast : some ((2 : ℤ) ^ 63) ∈ incrReplies (ascii "n") s.executed := by
      rw [hreplies]
      apply List.mem_map.mpr
      exact ⟨2 ^ 63 - 1, List.mem_range.mpr (by norm_num), by norm_num⟩
    have hrange := inI64_of_mem_incrReplies hrun hlast
    exact absurd hrange.2 (by norm_num)

end Server

end Heaven
