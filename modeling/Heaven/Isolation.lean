import Heaven.Calls
import Heaven.SerialOrder
import Heaven.SubscriberMode

/-! # Isolation

All clients share one temple.  A client sees of it the entries of the keys it uses, its own
subscriptions, and the configuration (`SameFor`).  Commands for other keys and the subscriptions of
others leave all this as it is.  So a client whose keys no other client uses gets the results it
would get from a temple of its own, in every run and whatever bytes the clients send (`isolated`).

PUBLISH is the exception: its answer is the number of subscribers.  And the order in which HGETALL,
SMEMBERS and CONFIG GET list what they find is the model's choice: a `HashMap` has none of its own,
so for these the results are the same up to the order. -/

namespace Heaven

open Decimal (ascii)
open Runs
open Serial

/-- The client has the keys of `K`, and the wish is for these if it is the client's, and for others
if it is another's. -/
def Wish.Apart (token : Token) (K : Set Bytes) (wish : Wish) : Prop :=
  match wish.command with
  | .database cmd => ∀ key ∈ cmd.keys, (key ∈ K ↔ wish.token = token)
  | .broadcast (.publish _ _) => wish.token ≠ token
  | .broadcast _ => True

namespace Temple

/-- What the client can see is the same. -/
structure SameFor (token : Token) (K : Set Bytes) (t t' : Temple) : Prop where
  entries : Dict.AgreeOn K t.soul t'.soul
  events : t.eventMap.get? token = t'.eventMap.get? token
  subscriber : token ∈ t.subscribedClients ↔ token ∈ t'.subscribedClients
  config : t.config = t'.config

variable {token other : Token} {K : Set Bytes} {t t' : Temple}

theorem SameFor.refl (token : Token) (K : Set Bytes) (t : Temple) : SameFor token K t t :=
  ⟨fun _ _ => rfl, rfl, Iff.rfl, rfl⟩

/-! ### Subscriptions -/

theorem get?_subscribe_of_ne (hne : token ≠ other) (m : EventMap) (events : List Bytes) :
    (m.subscribe other events).1.get? token = m.get? token := by
  rw [EventMap.subscribe_fst, Dict.get?_put, if_neg hne]

theorem unsubscribe_of_ne (hne : token ≠ other) (m : EventMap) (events : List Bytes)
    (clients : HashSet Token) :
    (m.unsubscribe events other clients).1.get? token = m.get? token ∧
      (token ∈ (m.unsubscribe events other clients).2.1 ↔ token ∈ clients) := by
  cases hget : m.get? other with
  | none =>
      rw [EventMap.unsubscribe_of_none hget]
      exact ⟨rfl, Iff.rfl⟩
  | some existing =>
      obtain ⟨rest, result, heq, -, -⟩ := EventMap.unsubscribe_of_some hget events clients
      rw [heq]
      refine ⟨by rw [Dict.get?_put, if_neg hne], ?_⟩
      simp only
      split_ifs
      · rw [HashSet.mem_remove]
        exact and_iff_right hne
      · rfl

/-- SUBSCRIBE depends on the client's own subscriptions only. -/
theorem subscribe_congr {m m' : EventMap} (h : m.get? token = m'.get? token)
    (events : List Bytes) :
    (m.subscribe token events).2 = (m'.subscribe token events).2 ∧
      (m.subscribe token events).1.get? token = (m'.subscribe token events).1.get? token := by
  unfold EventMap.subscribe
  rw [h]
  cases m'.get? token with
  | none => exact ⟨rfl, by simp only [Dict.get?_insert_self]⟩
  | some existing => exact ⟨rfl, by simp only [Dict.get?_insert_self]⟩

/-- So does UNSUBSCRIBE. -/
theorem unsubscribe_congr {m m' : EventMap} (h : m.get? token = m'.get? token)
    (events : List Bytes) {clients clients' : HashSet Token}
    (hclients : token ∈ clients ↔ token ∈ clients') :
    (m.unsubscribe events token clients).2.2 = (m'.unsubscribe events token clients').2.2 ∧
      (m.unsubscribe events token clients).1.get? token =
        (m'.unsubscribe events token clients').1.get? token ∧
      (token ∈ (m.unsubscribe events token clients).2.1 ↔
        token ∈ (m'.unsubscribe events token clients').2.1) := by
  have hremove : token ∈ clients.remove token ↔ token ∈ clients'.remove token := by
    rw [HashSet.mem_remove, HashSet.mem_remove, hclients]
  unfold EventMap.unsubscribe
  rw [h]
  cases hget : m'.get? token with
  | none => exact ⟨rfl, h, hclients⟩
  | some existing =>
      simp only
      split_ifs
      · exact ⟨rfl, by simp only [Dict.get?_erase, if_true], hremove⟩
      · exact ⟨rfl, by simp only [Dict.get?_insert_self], hclients⟩
      · exact ⟨rfl, by simp only [Dict.get?_erase, if_true], hremove⟩

/-! ### Turns -/

/-- The client's own wishes depend on what it can see only. -/
theorem turn_own {wish : Wish} (hapart : wish.Apart token K) (hmine : wish.token = token)
    (h : SameFor token K t t') :
    (t.turn wish).2 = (t'.turn wish).2 ∧ SameFor token K (t.turn wish).1 (t'.turn wish).1 := by
  obtain ⟨client, cmd | cmd⟩ := wish
  · obtain rfl : client = token := hmine
    by_cases hgate : client ∈ t.subscribedClients
    · rw [turn_gated hgate, turn_gated (h.subscriber.mp hgate)]
      exact ⟨rfl, h⟩
    · rw [turn_executes hgate, turn_executes (h.subscriber.not.mp hgate), ← h.config]
      have hkeys : {k | k ∈ cmd.keys} ⊆ K := fun key hkey => (hapart key hkey).mpr rfl
      have hlocal := (database_concerns t.config cmd).mono hkeys
      refine ⟨by rw [hlocal.result _ _ h.entries], ?_⟩
      exact ⟨hlocal.cells _ _ h.entries, h.events, h.subscriber, rfl⟩
  · obtain rfl : client = token := hmine
    cases cmd with
    | subscribe events =>
        obtain ⟨hanswer, hevents⟩ := subscribe_congr h.events events
        refine ⟨by simp only [turn, hanswer], h.entries, hevents, ?_, h.config⟩
        simp only [turn, HashSet.mem_insert, true_or]
    | unsubscribe terms =>
        obtain ⟨hanswer, hevents, hclients⟩ := unsubscribe_congr h.events terms h.subscriber
        exact ⟨by simp only [turn, hanswer], h.entries, hevents, hclients, h.config⟩
    | publish event message => exact absurd rfl hapart

/-- The wishes of others leave what the client can see as it is. -/
theorem turn_others {wish : Wish} (hapart : wish.Apart token K) (hother : wish.token ≠ token)
    (h : SameFor token K t t') : SameFor token K (t.turn wish).1 t' := by
  obtain ⟨other, cmd | cmd⟩ := wish
  · by_cases hgate : other ∈ t.subscribedClients
    · rw [turn_gated hgate]
      exact h
    · rw [turn_executes hgate]
      refine ⟨?_, h.events, h.subscriber, h.config⟩
      intro key hkey
      have hframe : key ∉ {k | k ∈ cmd.keys} := fun hmem => hother ((hapart key hmem).mp hkey)
      rw [← h.entries key hkey]
      exact (database_concerns t.config cmd).frame t.soul key hframe
  · have hne : token ≠ other := Ne.symm hother
    cases cmd with
    | subscribe events =>
        refine ⟨h.entries, (get?_subscribe_of_ne hne _ _).trans h.events, ?_, h.config⟩
        simp only [turn, HashSet.mem_insert, hne, false_or]
        exact h.subscriber
    | unsubscribe terms =>
        obtain ⟨hevents, hclients⟩ :=
          unsubscribe_of_ne hne t.eventMap terms t.subscribedClients
        exact ⟨h.entries, hevents.trans h.events, hclients.trans h.subscriber, h.config⟩
    | publish event message => exact h

theorem unwinds (token : Token) (K : Set Bytes) :
    Unwinds Temple.turn (SameFor token K) (Wish.Apart token K)
      fun wish => decide (wish.token = token) where
  own := fun _ _ _ hapart hmine h => turn_own hapart (of_decide_eq_true hmine) h
  others := fun _ _ _ hapart hother h => turn_others hapart (of_decide_eq_false hother) h

end Temple

/-! ### Runs -/

/-- All wishes the client makes with the command are apart. -/
def Request.Apart (owner : Token) (K : Set Bytes) (token : Token) (request : Request) : Prop :=
  ∀ wish, Makes token request wish → wish.Apart owner K

namespace Server

variable {build : Build} {streams : Token → TcpStream} {s : Server}

/-- **A client with keys of its own is served as if it were alone.**  Whatever the other clients do
with other keys, and however the parties are scheduled, the results of the client's commands are
those of a temple that is given these commands only; while the temple lives, the client sees the
same of both. -/
theorem isolated {ioThreads : ℕ} {soul : Soul} {config : Config} {actions : List Action}
    {token : Token} {K : Set Bytes}
    (hrun : Run (step build streams) (start ioThreads soul config) actions s)
    (hapart : ∀ other, ∀ request ∈ asked (streams other).payload, request.Apart token K other) :
    ∃ left, Records Temple.turn { Temple.worship config with soul }
        (s.executed.filter fun e => decide (e.1.token = token)) left ∧
      ∀ temple, s.temple = some temple →
        ∃ alone, left = some alone ∧ temple.SameFor token K alone := by
  have hexecuted : ∀ e ∈ s.executed, e.1.Apart token K := by
    intro e hmem
    obtain ⟨request, hrequest, hmakes⟩ := (sound_run hrun).makes_of_executed hmem
    exact hapart _ request hrequest _ hmakes
  exact (Temple.unwinds token K).records hexecuted (.refl token K _) (records_run hrun)

theorem apart_of_incrs {request : Request} {key : Bytes} {owner token : Token} {K : Set Bytes}
    (h : request.Incrs key) (hkey : key ∈ K ↔ token = owner) : request.Apart owner K token := by
  rintro wish ⟨clock, hgrant⟩
  rw [grant_incrs h, List.mem_singleton, Emission.toTemple.injEq] at hgrant
  subst hgrant
  intro key' hkey'
  rw [List.mem_singleton.mp hkey']
  exact hkey

/-- INCR m. -/
def incrM : Request := ⟨[ascii "INCR", ascii "m"], List.cons_ne_nil _ _⟩

theorem incrM_incrs : incrM.Incrs (ascii "m") := by decide

/-- Client 1 sends INCR n, and client 2 INCR m. -/
def incrApart (token : Token) : List Request :=
  if token = 1 then [incrN]
  else if token = 2 then [incrM]
  else []

theorem apart_incrApart (token : Token) :
    ∀ request ∈ incrApart token, request.Apart 1 {ascii "n"} token := by
  intro request hrequest
  unfold incrApart at hrequest
  split_ifs at hrequest with hone htwo
  · rw [List.mem_singleton.mp hrequest]
    exact apart_of_incrs incrN_incrs (iff_of_true rfl hone)
  · rw [List.mem_singleton.mp hrequest]
    have hother : ascii "m" ∉ ({ascii "n"} : Set Bytes) := by
      rw [Set.mem_singleton_iff]
      decide
    exact apart_of_incrs incrM_incrs (iff_of_false hother hone)
  · cases hrequest

/-- The INCR n has the result that it has alone. -/
theorem isolated_incrApart :
    ∃ s, Run (step .release fun token => asStream (encodeAll (incrApart token)))
        (start 1 Soul.new ∅) (oneThenTwo.1 ++ oneThenTwo.2) s ∧ s.executed.length = 2 ∧
      ∃ left, Records Temple.turn (Temple.worship ∅)
        (s.executed.filter fun e => decide (e.1.token = 1)) left := by
  let streams : Token → TcpStream := fun token => asStream (encodeAll (incrApart token))
  have hapart : ∀ token, ∀ request ∈ asked (streams token).payload,
      request.Apart 1 {ascii "n"} token := by
    intro token request hrequest
    exact apart_incrApart token request (mem_of_asked_asStream hrequest)
  obtain ⟨s, hrun, hseen⟩ := exists_run (start 1 Soul.new ∅) (oneThenTwo.1 ++ oneThenTwo.2)
    (fun s => decide (s.executed.length = 2))
    (by decide +kernel : (runAll (step .release streams) _ _).map _ = .ok true)
  obtain ⟨left, hrecords, -⟩ := isolated hrun hapart
  exact ⟨s, hrun, of_decide_eq_true hseen, left, hrecords⟩

end Server
end Heaven
