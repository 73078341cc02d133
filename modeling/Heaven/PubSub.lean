import Heaven.Connections
import Heaven.Lib.Runs
import Heaven.Subscriptions

/-! # Temple and egress

The temple's thread and the egress thread, joined by the FIFO channel of decrees.  The server loop
puts a Welcome into the channel for each new connection, and a worker a Goodbye when its
connection has ended; the temple puts in what it answers to SUBSCRIBE, UNSUBSCRIBE and PUBLISH.
Every step may come at any time, and the temple may be handed a command of a client that has said
goodbye, since its wishes are queued.

`Sound` is what holds in every run: the maps of the temple hold the subscriptions that the handled
wishes make, and the decrees are a history in which every client is welcomed first. -/

namespace Heaven

open Decimal (ascii)
open Runs

structure PubSub where
  /-- `pilgrim_counter`, the token of the next connection. -/
  nextToken : Token
  temple : Temple
  /-- The wishes the temple has handled. -/
  handled : List Wish
  decrees : List Decree
  /-- The decrees egress has taken. -/
  processed : List Decree
  egress : Egress

inductive PubSub.Action where
  /-- The server loop accepts a connection. -/
  | welcome
  /-- The temple handles a wish. -/
  | turn (token : Token) (command : BroadcastCommand)
  /-- The worker of a connection has met its end. -/
  | goodbye (token : Token)
  /-- Egress takes a decree. -/
  | process

namespace PubSub

/-- Token 0 is the listener's. -/
def start (soul : Soul) (config : Config) : PubSub where
  nextToken := 1
  temple := { Temple.worship config with soul }
  handled := []
  decrees := []
  processed := []
  egress := Egress.start

/-- The token has been given to a connection. -/
def Known (s : PubSub) (token : Token) : Prop := 1 ≤ token ∧ token < s.nextToken

instance (s : PubSub) (token : Token) : Decidable (s.Known token) :=
  inferInstanceAs (Decidable (_ ∧ _))

/-- All decrees so far. -/
def flow (s : PubSub) : List Decree := s.processed ++ s.decrees

/-- A decree goes into the channel. -/
def send (s : PubSub) (decree : Decree) : PubSub := { s with decrees := s.decrees ++ [decree] }

/-- The temple handles a wish. -/
def handle (s : PubSub) (wish : Wish) : PubSub :=
  { s with temple := (s.temple.turn wish).1, handled := s.handled ++ [wish] }

/-- A step of a party; an error means that the party has nothing to do. -/
def step (room : ℕ → ℕ) (s : PubSub) : Action → Except Unit PubSub
  | .welcome => .ok ({ s with nextToken := s.nextToken + 1 }.send (.welcome s.nextToken))
  | .turn token command =>
      if s.Known token then
        match (s.temple.turn ⟨token, .broadcast command⟩).2 with
        | .ok decree => .ok ((s.handle ⟨token, .broadcast command⟩).send decree)
        | .error _ => .error ()
      else .error ()
  | .goodbye token =>
      if s.Known token then .ok (s.send (.goodbye token)) else .error ()
  | .process =>
      match s.decrees with
      | decree :: decrees =>
          .ok { s with
            decrees
            processed := s.processed ++ [decree]
            egress := s.egress.process room decree }
      | [] => .error ()

/-- A SUBSCRIBE names an event. -/
def Action.NamesEvents : Action → Prop
  | .turn token command => Wish.NamesEvents ⟨token, .broadcast command⟩
  | _ => True

/-- The wish that the temple handles in a step. -/
def Action.wish? : Action → Option Wish
  | .turn token command => some ⟨token, .broadcast command⟩
  | _ => none

/-- The subscriptions that the handled wishes make. -/
def subscriptions (s : PubSub) : Subscriptions := Subscriptions.afterAll ∅ s.handled

/-! ### What a step can do -/

variable {room : ℕ → ℕ} {s s' : PubSub}

/-- A wish for a broadcast is always answered: an answer to the client, or a message for the
clients of the event. -/
theorem turn_broadcast (t : Temple) (token : Token) (command : BroadcastCommand) :
    ∃ decree, (t.turn ⟨token, .broadcast command⟩).2 = .ok decree ∧
      ((∃ response, decree = .deliver ⟨token, response⟩) ∨
        ∃ event message, command = .publish event message ∧
          decree = .broadcast token event message (ClientMap.publish t.clientMap event)) := by
  cases command with
  | subscribe events => exact ⟨_, rfl, Or.inl ⟨_, rfl⟩⟩
  | unsubscribe terms => exact ⟨_, rfl, Or.inl ⟨_, rfl⟩⟩
  | publish event message => exact ⟨_, rfl, Or.inr ⟨event, message, rfl, rfl⟩⟩

/-- **What a step can do.** -/
theorem step_cases {action : Action} (h : s.step room action = .ok s') :
    (action = .welcome ∧
      s' = { s with nextToken := s.nextToken + 1 }.send (.welcome s.nextToken)) ∨
    (∃ token command decree, action = .turn token command ∧ s.Known token ∧
      (s.temple.turn ⟨token, .broadcast command⟩).2 = .ok decree ∧
      s' = (s.handle ⟨token, .broadcast command⟩).send decree) ∨
    (∃ token, action = .goodbye token ∧ s.Known token ∧ s' = s.send (.goodbye token)) ∨
    (∃ decree decrees, action = .process ∧ s.decrees = decree :: decrees ∧ s' = { s with
      decrees
      processed := s.processed ++ [decree]
      egress := s.egress.process room decree }) := by
  cases action with
  | welcome =>
      cases h
      exact Or.inl ⟨rfl, rfl⟩
  | turn token command =>
      obtain ⟨decree, hdecree, -⟩ := turn_broadcast s.temple token command
      simp only [step] at h
      split_ifs at h with hknown
      rw [hdecree] at h
      cases h
      exact Or.inr (Or.inl ⟨token, command, decree, rfl, hknown, hdecree, rfl⟩)
  | goodbye token =>
      simp only [step] at h
      split_ifs at h with hknown
      cases h
      exact Or.inr (Or.inr (Or.inl ⟨token, rfl, hknown, rfl⟩))
  | process =>
      cases hdecrees : s.decrees with
      | nil => simp [step, hdecrees] at h
      | cons decree decrees =>
          simp only [step, hdecrees] at h
          cases h
          exact Or.inr (Or.inr (Or.inr ⟨decree, decrees, rfl, rfl, rfl⟩))

/-- **The handled wishes are those of the turns of the run**, in their order. -/
theorem handled_run {actions : List Action} (hrun : Run (PubSub.step room) s actions s') :
    s'.handled = s.handled ++ actions.filterMap Action.wish? := by
  induction hrun with
  | nil s => exact (List.append_nil _).symm
  | @cons s t s' action actions hstep hrun ih =>
      have hone : t.handled = s.handled ++ action.wish?.toList := by
        rcases step_cases hstep with ⟨rfl, rfl⟩ | ⟨token, command, decree, rfl, -, -, rfl⟩ |
          ⟨token, rfl, -, rfl⟩ | ⟨decree, decrees, rfl, -, rfl⟩
        · exact (List.append_nil _).symm
        · rfl
        · exact (List.append_nil _).symm
        · exact (List.append_nil _).symm
      rw [ih, hone, List.append_assoc, List.filterMap_cons]
      cases action.wish? <;> rfl

/-! ### What holds in every run -/

/-- The invariant. -/
structure Sound (room : ℕ → ℕ) (s : PubSub) : Prop where
  nextToken_pos : 1 ≤ s.nextToken
  egress : s.egress = Egress.received room s.processed
  refines : s.temple.Refines s.subscriptions
  flow : Successive Egress.Greets s.flow
  welcomed : ∀ token, .welcome token ∈ s.flow ↔ s.Known token
  subscribers : ∀ token event, (token, event) ∈ s.subscriptions → s.Known token

theorem sound_start (room : ℕ → ℕ) (soul : Soul) (config : Config) :
    (start soul config).Sound room where
  nextToken_pos := Nat.le_refl 1
  egress := rfl
  refines := Temple.refines_worship soul config
  flow := successive_nil
  welcomed := by
    intro token
    apply iff_of_false
    · exact fun h => nomatch h
    · rintro ⟨hle, hlt⟩
      exact Nat.lt_irrefl _ (Nat.lt_of_le_of_lt hle hlt)
  subscribers := fun _ _ h => nomatch h

theorem flow_send (s : PubSub) (decree : Decree) : (s.send decree).flow = s.flow ++ [decree] :=
  (List.append_assoc _ _ _).symm

theorem mem_subscriptions_after {R : Subscriptions} {wish : Wish} {token : Token} {event : Bytes}
    (h : (token, event) ∈ R.after wish) : (token, event) ∈ R ∨ token = wish.token := by
  obtain ⟨client, _ | command⟩ := wish
  · exact Or.inl h
  · cases command with
    | subscribe events =>
        rcases h with h | ⟨rfl, -⟩
        · exact Or.inl h
        · exact Or.inr rfl
    | publish event message => exact Or.inl h
    | unsubscribe terms => exact Or.inl h.1

theorem subscriptions_handle (s : PubSub) (wish : Wish) :
    (s.handle wish).subscriptions = s.subscriptions.after wish := by
  simp [subscriptions, handle, Subscriptions.afterAll]

/-- The decree of a turn concerns clients that have been welcomed. -/
theorem Sound.greets_turn (h : s.Sound room) {token : Token} (hknown : s.Known token)
    {command : BroadcastCommand} {decree : Decree}
    (hdecree : (s.temple.turn ⟨token, .broadcast command⟩).2 = .ok decree) :
    Egress.Greets s.flow decree := by
  have htoken : .welcome token ∈ s.flow := (h.welcomed token).mpr hknown
  obtain ⟨decree', hdecree', hkind⟩ := turn_broadcast s.temple token command
  obtain rfl : decree = decree' := Except.ok.inj (hdecree.symm.trans hdecree')
  rcases hkind with ⟨response, rfl⟩ | ⟨event, message, -, rfl⟩
  · exact htoken
  · refine ⟨htoken, ?_⟩
    intro client hclient
    have hsubscribed : (client, event) ∈ s.subscriptions :=
      ((ClientMap.publish_indexes event h.refines.clientMap).2 client).mp hclient
    exact (h.welcomed client).mpr (h.subscribers client event hsubscribed)

/-- The decree of a turn welcomes nobody. -/
theorem turn_ne_welcome {t : Temple} {token : Token} {command : BroadcastCommand} {decree : Decree}
    (hdecree : (t.turn ⟨token, .broadcast command⟩).2 = .ok decree) (client : Token) :
    decree ≠ .welcome client := by
  obtain ⟨decree', hdecree', hkind⟩ := turn_broadcast t token command
  obtain rfl : decree = decree' := Except.ok.inj (hdecree.symm.trans hdecree')
  rcases hkind with ⟨response, rfl⟩ | ⟨event, message, -, rfl⟩
  · exact fun h => nomatch h
  · exact fun h => nomatch h

theorem Sound.welcomed_concat (h : s.Sound room) {decree : Decree}
    (hdecree : ∀ client, decree ≠ .welcome client) (token : Token) :
    .welcome token ∈ s.flow ++ [decree] ↔ s.Known token := by
  rw [List.mem_append, List.mem_singleton, h.welcomed]
  exact or_iff_left fun heq => hdecree token heq.symm

theorem Sound.welcome (h : s.Sound room) :
    Sound room ({ s with nextToken := s.nextToken + 1 }.send (.welcome s.nextToken)) where
  nextToken_pos := Nat.le_succ_of_le h.nextToken_pos
  egress := h.egress
  refines := h.refines
  flow := by
    -- the new token is unknown so far
    have hnew : .welcome s.nextToken ∉ s.flow := by
      rw [h.welcomed]
      exact fun hknown => Nat.lt_irrefl _ hknown.2
    rw [flow_send, successive_concat]
    exact ⟨h.flow, hnew⟩
  welcomed := by
    intro token
    rw [flow_send, List.mem_append, List.mem_singleton, Decree.welcome.injEq]
    refine (or_congr_left (h.welcomed token)).trans ?_
    constructor
    · rintro (⟨hle, hlt⟩ | rfl)
      · exact ⟨hle, Nat.lt_succ_of_lt hlt⟩
      · exact ⟨h.nextToken_pos, Nat.lt_succ_self _⟩
    · rintro ⟨hle, hlt⟩
      rcases Nat.lt_succ_iff_lt_or_eq.mp hlt with hlt | rfl
      · exact Or.inl ⟨hle, hlt⟩
      · exact Or.inr rfl
  subscribers := by
    intro token event hmem
    obtain ⟨hle, hlt⟩ := h.subscribers token event hmem
    exact ⟨hle, Nat.lt_succ_of_lt hlt⟩

theorem Sound.turn (h : s.Sound room) {token : Token} (hknown : s.Known token)
    {command : BroadcastCommand} (hwish : Wish.NamesEvents ⟨token, .broadcast command⟩)
    {decree : Decree} (hdecree : (s.temple.turn ⟨token, .broadcast command⟩).2 = .ok decree) :
    Sound room ((s.handle ⟨token, .broadcast command⟩).send decree) where
  nextToken_pos := h.nextToken_pos
  egress := h.egress
  refines := by
    have hrefines := h.refines.turn hwish
    rw [← subscriptions_handle] at hrefines
    exact hrefines
  flow := by
    rw [flow_send, successive_concat]
    exact ⟨h.flow, h.greets_turn hknown hdecree⟩
  welcomed := by
    intro client
    rw [flow_send]
    exact h.welcomed_concat (turn_ne_welcome hdecree) client
  subscribers := by
    intro client event hmem
    change _ ∈ (s.handle ⟨token, .broadcast command⟩).subscriptions at hmem
    rw [subscriptions_handle] at hmem
    rcases mem_subscriptions_after hmem with hold | rfl
    · exact h.subscribers client event hold
    · exact hknown

theorem Sound.goodbye (h : s.Sound room) {token : Token} (hknown : s.Known token) :
    Sound room (s.send (.goodbye token)) where
  nextToken_pos := h.nextToken_pos
  egress := h.egress
  refines := h.refines
  flow := by
    have hgreets : Egress.Greets s.flow (.goodbye token) := (h.welcomed token).mpr hknown
    rw [flow_send, successive_concat]
    exact ⟨h.flow, hgreets⟩
  welcomed := by
    intro client
    rw [flow_send]
    have hne : ∀ client, Decree.goodbye token ≠ .welcome client := by
      intro client heq
      cases heq
    exact h.welcomed_concat hne client
  subscribers := h.subscribers

theorem Sound.process (h : s.Sound room) {decree : Decree} {decrees : List Decree}
    (hdecrees : s.decrees = decree :: decrees) :
    Sound room { s with
      decrees
      processed := s.processed ++ [decree]
      egress := s.egress.process room decree } := by
  have hflow : (s.processed ++ [decree]) ++ decrees = s.flow := by
    rw [PubSub.flow, hdecrees, List.append_assoc]
    rfl
  refine ⟨h.nextToken_pos, ?_, h.refines, ?_, ?_, h.subscribers⟩
  · rw [Egress.received_concat, ← h.egress]
  · show Successive Egress.Greets ((s.processed ++ [decree]) ++ decrees)
    rw [hflow]
    exact h.flow
  · intro token
    show .welcome token ∈ (s.processed ++ [decree]) ++ decrees ↔ _
    rw [hflow]
    exact h.welcomed token

/-- The step lemma. -/
theorem Sound.step (h : s.Sound room) {action : Action} (haction : action.NamesEvents)
    (hstep : s.step room action = .ok s') : s'.Sound room := by
  rcases step_cases hstep with ⟨rfl, rfl⟩ | ⟨token, command, decree, rfl, hknown, hdecree, rfl⟩ |
    ⟨token, rfl, hknown, rfl⟩ | ⟨decree, decrees, rfl, hdecrees, rfl⟩
  · exact h.welcome
  · exact h.turn hknown haction hdecree
  · exact h.goodbye hknown
  · exact h.process hdecrees

/-- What egress has made of the decrees for one client. -/
theorem Sound.tracks (h : s.Sound room) (client : Token) :
    Egress.Tracks room client s.processed :=
  Egress.tracks room client h.flow.of_append

end PubSub

end Heaven
