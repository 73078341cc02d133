import Heaven.PubSub

/-! # Messages on a connection

What a subscriber sees of the events it has subscribed to.  A client is `Listening` to an event
when its output holds a confirmation of the subscription with no confirmation of the opposite
behind it, and `Subscriptions.messages` are the messages it is owed: one for each PUBLISH that is
handled while the client is subscribed to the event.

`Hears` relates the wishes that the temple has handled to the packets that its decrees hold for the
client; a turn of the temple keeps it (`Hears.turn`).  Since the stream of a connected client is
sent precisely these packets, the output of a client whose writes succeed holds the messages it is
owed and no others, each at a point at which the client is listening
(`messages_while_subscribed`). -/

namespace Heaven

open Decimal (ascii)
open Runs

/-! ### What is owed -/

namespace Subscriptions

open Classical in
/-- The messages for a client: one for each PUBLISH to an event it is subscribed to at the time. -/
noncomputable def messages (client : Token) (R : Subscriptions) : List Wish → List (Bytes × Bytes)
  | [] => []
  | wish :: wishes =>
      (match wish.command with
        | .broadcast (.publish event message) =>
            if (client, event) ∈ R then [(event, message)] else []
        | _ => []) ++ messages client (R.after wish) wishes

theorem messages_append (client : Token) (R : Subscriptions) (wishes wishes' : List Wish) :
    messages client R (wishes ++ wishes') =
      messages client R wishes ++ messages client (R.afterAll wishes) wishes' := by
  induction wishes generalizing R with
  | nil => rfl
  | cons wish wishes ih =>
      rw [List.cons_append, messages, messages, ih, List.append_assoc]
      rfl

/-- Only a PUBLISH owes messages. -/
theorem messages_eq_nil {client : Token} {R : Subscriptions} {wish : Wish}
    (hwish : ∀ event message, wish.command ≠ .broadcast (.publish event message)) :
    messages client R [wish] = [] := by
  obtain ⟨token, _ | command⟩ := wish
  · rfl
  · cases command with
    | subscribe events => rfl
    | unsubscribe terms => rfl
    | publish event message => exact absurd rfl (hwish event message)

end Subscriptions

/-! ### What is seen -/

/-- The event and the text of a message. -/
def asMessage : Resp → Option (Bytes × Bytes)
  | .array [.bulk word, .bulk event, .bulk text] =>
      if word = ascii "message" then some (event, text) else none
  | _ => none

/-- The event that a reply confirms under the word. -/
def confirmed (word : Bytes) : Resp → Option Bytes
  | .array [.bulk word', .bulk event, .integer _] => if word' = word then some event else none
  | _ => none

/-- The output confirms the subscription, and confirms no unsubscription behind it. -/
def Listening (event : Bytes) (output : List Resp) : Prop :=
  ∃ before reply after, output = before ++ reply :: after ∧
    confirmed (ascii "subscribe") reply = some event ∧
    ∀ reply' ∈ after, confirmed (ascii "unsubscribe") reply' ≠ some event

@[simp] theorem asMessage_messageReply (event text : Bytes) :
    asMessage (messageReply event text) = some (event, text) := rfl

@[simp] theorem asMessage_channelReply (word : Bytes) (channel : Option Bytes) (count : ℕ) :
    asMessage (channelReply word channel count) = none := by
  cases channel <;> rfl

@[simp] theorem confirmed_messageReply (word event text : Bytes) :
    confirmed word (messageReply event text) = none := rfl

@[simp] theorem confirmed_integer (word : Bytes) (i : ℤ) :
    confirmed word (.integer i) = none := rfl

@[simp] theorem confirmed_channelReply (word word' event : Bytes) (count : ℕ) :
    confirmed word (channelReply word' (some event) count) =
      if word' = word then some event else none := rfl

/-- A client goes on listening as long as no unsubscription is confirmed. -/
theorem Listening.append {event : Bytes} {output : List Resp} (h : Listening event output)
    {replies : List Resp}
    (hreplies : ∀ reply ∈ replies, confirmed (ascii "unsubscribe") reply ≠ some event) :
    Listening event (output ++ replies) := by
  obtain ⟨before, reply, after, rfl, hreply, hafter⟩ := h
  refine ⟨before, reply, after ++ replies, ?_, hreply, ?_⟩
  · rw [List.append_assoc, List.cons_append]
  · rw [List.forall_mem_append]
    exact ⟨hafter, hreplies⟩

/-- A client listens from the confirmation on. -/
theorem listening_of_confirmed {event : Bytes} {replies : List Resp} (output : List Resp)
    (h : ∃ reply ∈ replies, confirmed (ascii "subscribe") reply = some event)
    (hreplies : ∀ reply ∈ replies, confirmed (ascii "unsubscribe") reply ≠ some event) :
    Listening event (output ++ replies) := by
  obtain ⟨reply, hmem, hreply⟩ := h
  obtain ⟨before, after, rfl⟩ := List.append_of_mem hmem
  refine ⟨output ++ before, reply, after, ?_, hreply, ?_⟩
  · rw [List.append_assoc]
  · intro reply' hreply'
    exact hreplies reply' (List.mem_append_right _ (List.mem_cons_of_mem _ hreply'))

/-- Every message comes while the client is listening to its event. -/
def Timely (output : List Resp) : Prop :=
  Successive (fun before reply =>
    ∀ event text, asMessage reply = some (event, text) → Listening event before) output

theorem timely_concat {output : List Resp} {reply : Resp} :
    Timely (output ++ [reply]) ↔ Timely output ∧
      ∀ event text, asMessage reply = some (event, text) → Listening event output :=
  successive_concat

/-! ### The confirmations of a turn -/

namespace EventMap

/-- The events that are confirmed are those that were not in the set. -/
theorem mem_subscribeLoop_names {event : Bytes} (set : HashSet Bytes) (count : ℕ)
    (result : List (Bytes × ℕ)) (events : List Bytes) :
    event ∈ (subscribeLoop set count result events).2.map Prod.fst ↔
      event ∈ result.map Prod.fst ∨ event ∉ set ∧ event ∈ events := by
  induction events generalizing set count result with
  | nil => simp [subscribeLoop]
  | cons e events ih =>
      rw [subscribeLoop]
      split_ifs with he
      · rw [HashSet.contains_iff] at he
        rw [ih, List.mem_cons]
        constructor
        · rintro (h | ⟨hset, h⟩)
          · exact Or.inl h
          · exact Or.inr ⟨hset, Or.inr h⟩
        · rintro (h | ⟨hset, rfl | h⟩)
          · exact Or.inl h
          · exact absurd he hset
          · exact Or.inr ⟨hset, h⟩
      · rw [HashSet.contains_iff] at he
        rw [ih, List.map_append, List.mem_append, HashSet.mem_insert, List.mem_cons,
          List.map_singleton, List.mem_singleton, not_or]
        constructor
        · rintro ((h | rfl) | ⟨⟨-, hset⟩, h⟩)
          · exact Or.inl h
          · exact Or.inr ⟨he, Or.inl rfl⟩
          · exact Or.inr ⟨hset, Or.inr h⟩
        · rintro (h | ⟨hset, h⟩)
          · exact Or.inl (Or.inl h)
          · by_cases heq : event = e
            · exact Or.inl (Or.inr heq)
            · exact Or.inr ⟨⟨heq, hset⟩, h.resolve_left heq⟩

theorem mem_subscribe_names (m : EventMap) (token : Token) (events : List Bytes) (event : Bytes) :
    event ∈ (m.subscribe token events).2.map Prod.fst ↔
      event ∉ (m.get? token).getD HashSet.empty ∧ event ∈ events := by
  have hloop : (m.subscribe token events).2 =
      (subscribeLoop ((m.get? token).getD HashSet.empty)
        ((m.get? token).getD HashSet.empty).len [] events).2 := by
    unfold subscribe
    cases m.get? token <;> rfl
  rw [hloop, mem_subscribeLoop_names]
  simp

end EventMap

/-! ### What a turn sends to a client -/

namespace Egress

theorem packetsFor_deliver (client token : Token) (response : Response) :
    packetsFor client [.deliver ⟨token, response⟩] =
      if token = client then [.reply response] else [] := by
  simp only [packetsFor, List.flatMap_singleton, Decree.packets, List.filterMap_cons,
    List.filterMap_nil]
  split_ifs <;> rfl

theorem packetsFor_broadcast (client token : Token) (event message : Bytes)
    {clients : List Token} (hclients : clients.Nodup) :
    packetsFor client [.broadcast token event message clients] =
      (if client ∈ clients then [.message event message] else []) ++
        if token = client then [.receivers clients.length] else [] := by
  have hmessages : ∀ clients : List Token, clients.Nodup →
      (clients.map fun c => (c, Packet.message event message)).filterMap
        (fun p => if p.1 = client then some p.2 else none) =
      if client ∈ clients then [.message event message] else [] := by
    intro clients hclients
    induction clients with
    | nil => rfl
    | cons c clients ih =>
        rw [List.nodup_cons] at hclients
        rw [List.map_cons, List.filterMap_cons, ih hclients.2]
        by_cases hc : c = client
        · subst hc
          simp [hclients.1]
        · have hc' : ¬ client = c := fun h => hc h.symm
          simp [hc, hc']
  simp only [packetsFor, List.flatMap_singleton, Decree.packets, List.filterMap_append]
  rw [hmessages clients hclients, List.filterMap_cons, List.filterMap_nil]
  split_ifs <;> rfl

end Egress

/-- The replies in packets. -/
def repliesIn (packets : List Packet) : List Resp := packets.flatMap Packet.replies

theorem repliesIn_append (packets packets' : List Packet) :
    repliesIn (packets ++ packets') = repliesIn packets ++ repliesIn packets' :=
  List.flatMap_append

/-- What the packets for a client have to do with the wishes that have been handled. -/
structure Hears (client : Token) (wishes : List Wish) (packets : List Packet) : Prop where
  listening : ∀ event, (client, event) ∈ Subscriptions.afterAll ∅ wishes →
    Listening event (repliesIn packets)
  timely : Timely (repliesIn packets)
  messages : (repliesIn packets).filterMap asMessage = Subscriptions.messages client ∅ wishes
  plain : ∀ p ∈ packets, ¬ p.IsTable

namespace Hears

variable {client : Token} {wishes : List Wish} {packets : List Packet}

theorem nil (client : Token) : Hears client [] [] where
  listening := fun _ h => nomatch h
  timely := successive_nil
  messages := rfl
  plain := fun _ h => nomatch h

theorem afterAll_concat (wishes : List Wish) (wish : Wish) :
    Subscriptions.afterAll ∅ (wishes ++ [wish]) =
      (Subscriptions.afterAll ∅ wishes).after wish := by
  simp [Subscriptions.afterAll]

/-- Packets without messages, for a wish that owes none. -/
theorem confirm (h : Hears client wishes packets) {wish : Wish} {more : List Packet}
    (hwish : ∀ event message, wish.command ≠ .broadcast (.publish event message))
    (hmore : ∀ reply ∈ repliesIn more, asMessage reply = none)
    (hplain : ∀ p ∈ more, ¬ p.IsTable)
    (hlistening : ∀ event, (client, event) ∈ (Subscriptions.afterAll ∅ wishes).after wish →
      Listening event (repliesIn packets ++ repliesIn more)) :
    Hears client (wishes ++ [wish]) (packets ++ more) where
  listening := by
    rw [afterAll_concat, repliesIn_append]
    exact hlistening
  timely := by
    rw [repliesIn_append]
    refine h.timely.append ?_
    intro pre reply post hsplit event text hmessage
    have hmem : reply ∈ repliesIn more := by
      rw [hsplit]
      exact List.mem_append_right _ List.mem_cons_self
    rw [hmore reply hmem] at hmessage
    cases hmessage
  messages := by
    have hnone : (repliesIn more).filterMap asMessage = [] := List.filterMap_eq_nil_iff.mpr hmore
    rw [repliesIn_append, List.filterMap_append, hnone, h.messages,
      Subscriptions.messages_append, Subscriptions.messages_eq_nil hwish]
  plain := List.forall_mem_append.mpr ⟨h.plain, hplain⟩

/-- Nothing for the client, and no new subscription of it. -/
theorem silent (h : Hears client wishes packets) {wish : Wish}
    (howed : Subscriptions.messages client (Subscriptions.afterAll ∅ wishes) [wish] = [])
    (hkept : ∀ event, (client, event) ∈ (Subscriptions.afterAll ∅ wishes).after wish →
      (client, event) ∈ Subscriptions.afterAll ∅ wishes) :
    Hears client (wishes ++ [wish]) packets where
  listening := by
    intro event hevent
    rw [afterAll_concat] at hevent
    exact h.listening event (hkept event hevent)
  timely := h.timely
  messages := by
    rw [h.messages, Subscriptions.messages_append, howed, List.append_nil]
  plain := h.plain

/-- A reply without messages goes to the client whose wish it answers; the others hear nothing. -/
theorem answer (h : Hears client wishes packets) {wish : Wish} {response : Response}
    (hwish : ∀ event message, wish.command ≠ .broadcast (.publish event message))
    (hmore : ∀ reply ∈ repliesIn [.reply response], asMessage reply = none)
    (hplain : ¬ (Packet.reply response).IsTable)
    (hown : wish.token = client → ∀ event,
      (client, event) ∈ (Subscriptions.afterAll ∅ wishes).after wish →
        Listening event (repliesIn packets ++ repliesIn [.reply response]))
    (hother : wish.token ≠ client → ∀ event,
      (client, event) ∈ (Subscriptions.afterAll ∅ wishes).after wish →
        (client, event) ∈ Subscriptions.afterAll ∅ wishes) :
    Hears client (wishes ++ [wish])
      (packets ++ Egress.packetsFor client [.deliver ⟨wish.token, response⟩]) := by
  rw [Egress.packetsFor_deliver]
  split_ifs with htoken
  · have hplain' : ∀ p ∈ [Packet.reply response], ¬ p.IsTable :=
      List.forall_mem_singleton.mpr hplain
    exact h.confirm hwish hmore hplain' (hown htoken)
  · rw [List.append_nil]
    exact h.silent (Subscriptions.messages_eq_nil hwish) (hother htoken)

/-- A PUBLISH to an event that the client is subscribed to. -/
theorem hear (h : Hears client wishes packets) {token : Token} {event message : Bytes}
    (hmem : (client, event) ∈ Subscriptions.afterAll ∅ wishes) :
    Hears client (wishes ++ [⟨token, .broadcast (.publish event message)⟩])
      (packets ++ [.message event message]) where
  listening := by
    intro event' hevent'
    rw [afterAll_concat] at hevent'
    rw [repliesIn_append]
    apply (h.listening event' hevent').append
    intro reply hreply
    rw [List.mem_singleton.mp hreply, confirmed_messageReply]
    intro heq
    cases heq
  timely := by
    rw [repliesIn_append]
    apply timely_concat.mpr
    refine ⟨h.timely, ?_⟩
    intro event' text hmessage
    rw [asMessage_messageReply] at hmessage
    cases hmessage
    exact h.listening event hmem
  messages := by
    rw [repliesIn_append, List.filterMap_append, h.messages, Subscriptions.messages_append]
    simp [repliesIn, Packet.replies, Subscriptions.messages, hmem]
  plain := by
    rw [List.forall_mem_append, List.forall_mem_singleton]
    refine ⟨h.plain, ?_⟩
    intro htable
    cases htable

/-- A PUBLISH to another event. -/
theorem miss (h : Hears client wishes packets) {token : Token} {event message : Bytes}
    (hmem : (client, event) ∉ Subscriptions.afterAll ∅ wishes) :
    Hears client (wishes ++ [⟨token, .broadcast (.publish event message)⟩]) packets := by
  apply h.silent
  · simp [Subscriptions.messages, hmem]
  · intro event' hevent'
    exact hevent'

/-- The client itself has published. -/
theorem count (h : Hears client wishes packets) (n : ℕ) :
    Hears client wishes (packets ++ [.receivers n]) where
  listening := by
    intro event hevent
    rw [repliesIn_append]
    apply (h.listening event hevent).append
    intro reply hreply
    rw [List.mem_singleton.mp hreply, confirmed_integer]
    exact fun heq => nomatch heq
  timely := by
    rw [repliesIn_append]
    apply timely_concat.mpr
    refine ⟨h.timely, ?_⟩
    intro event text hmessage
    cases hmessage
  messages := by
    rw [repliesIn_append, List.filterMap_append, h.messages]
    exact List.append_nil _
  plain := by
    rw [List.forall_mem_append, List.forall_mem_singleton]
    exact ⟨h.plain, fun htable => nomatch htable⟩

theorem publish (h : Hears client wishes packets) {token : Token} {event message : Bytes}
    {clients : List Token} (hnodup : clients.Nodup)
    (hclients : ∀ c, c ∈ clients ↔ (c, event) ∈ Subscriptions.afterAll ∅ wishes) :
    Hears client (wishes ++ [⟨token, .broadcast (.publish event message)⟩])
      (packets ++ Egress.packetsFor client [.broadcast token event message clients]) := by
  have hmessage : Hears client (wishes ++ [⟨token, .broadcast (.publish event message)⟩])
      (packets ++ if client ∈ clients then [.message event message] else []) := by
    split_ifs with hmem
    · exact h.hear ((hclients client).mp hmem)
    · rw [List.append_nil]
      exact h.miss (mt (hclients client).mpr hmem)
  rw [Egress.packetsFor_broadcast client token event message hnodup, ← List.append_assoc]
  by_cases htoken : token = client
  · rw [if_pos htoken]
    exact hmessage.count clients.length
  · rw [if_neg htoken, List.append_nil]
    exact hmessage

theorem subscribe (h : Hears client wishes packets) {t : Temple}
    (ht : t.Refines (Subscriptions.afterAll ∅ wishes)) (token : Token) (events : List Bytes) :
    Hears client (wishes ++ [⟨token, .broadcast (.subscribe events)⟩])
      (packets ++ Egress.packetsFor client
        [.deliver ⟨token, .subscribedChannels (t.eventMap.subscribe token events).2⟩]) := by
  have hreplies : ∀ reply ∈ repliesIn
      [.reply (.subscribedChannels (t.eventMap.subscribe token events).2)],
      ∃ c ∈ (t.eventMap.subscribe token events).2,
        channelReply (ascii "subscribe") (some c.1) c.2 = reply := by
    intro reply hreply
    rw [repliesIn, List.flatMap_singleton] at hreply
    exact List.mem_map.mp hreply
  have hquiet : ∀ reply ∈ repliesIn
      [.reply (.subscribedChannels (t.eventMap.subscribe token events).2)],
      ∀ event, confirmed (ascii "unsubscribe") reply ≠ some event := by
    intro reply hreply event
    obtain ⟨c, -, rfl⟩ := hreplies reply hreply
    rw [confirmed_channelReply, if_neg (by decide)]
    intro heq
    cases heq
  refine h.answer ?_ ?_ ?_ ?_ ?_
  · intro event message heq
    cases heq
  · intro reply hreply
    obtain ⟨c, -, rfl⟩ := hreplies reply hreply
    exact asMessage_channelReply _ _ _
  · intro htable
    cases htable
  · rintro rfl event hevent
    by_cases hold : (token, event) ∈ Subscriptions.afterAll ∅ wishes
    · exact (h.listening event hold).append fun reply hreply => hquiet reply hreply event
    · -- the event is new, so it is confirmed
      have hnew : event ∈ (t.eventMap.subscribe token events).2.map Prod.fst := by
        rw [EventMap.mem_subscribe_names, (ht.eventMap token).mem_getD]
        rcases hevent with hevent | ⟨-, hevent⟩
        · exact absurd hevent hold
        · exact ⟨hold, hevent⟩
      obtain ⟨c, hc, rfl⟩ := List.mem_map.mp hnew
      apply listening_of_confirmed
      · refine ⟨channelReply (ascii "subscribe") (some c.1) c.2, ?_, ?_⟩
        · rw [repliesIn, List.flatMap_singleton]
          exact List.mem_map_of_mem hc
        · rw [confirmed_channelReply, if_pos rfl]
      · exact fun reply hreply => hquiet reply hreply c.1
  · rintro htoken event (hevent | ⟨heq, -⟩)
    · exact hevent
    · exact absurd heq.symm htoken

/-- The confirmations of an UNSUBSCRIBE. -/
theorem mem_repliesIn_unsubscribed {channels : Option (List (Bytes × ℕ))} {reply : Resp}
    (h : reply ∈ repliesIn [.reply (.unsubscribedChannels channels)]) :
    ∃ channel count, reply = channelReply (ascii "unsubscribe") channel count ∧
      ∀ event, channel = some event → ∃ list, channels = some list ∧ (event, count) ∈ list := by
  rw [repliesIn, List.flatMap_singleton] at h
  cases channels with
  | none =>
      refine ⟨none, 0, List.mem_singleton.mp h, ?_⟩
      intro event heq
      cases heq
  | some list =>
      obtain ⟨c, hc, rfl⟩ := List.mem_map.mp h
      refine ⟨some c.1, c.2, rfl, ?_⟩
      rintro _ ⟨⟩
      exact ⟨list, rfl, hc⟩

theorem unsubscribe (h : Hears client wishes packets) (t : Temple) (token : Token)
    (terms : List Bytes) :
    Hears client (wishes ++ [⟨token, .broadcast (.unsubscribe terms)⟩])
      (packets ++ Egress.packetsFor client [.deliver ⟨token, .unsubscribedChannels
        (t.eventMap.unsubscribe terms token t.subscribedClients).2.2⟩]) := by
  refine h.answer ?_ ?_ ?_ ?_ ?_
  · intro event message heq
    cases heq
  · intro reply hreply
    obtain ⟨channel, count, rfl, -⟩ := mem_repliesIn_unsubscribed hreply
    exact asMessage_channelReply _ _ _
  · intro htable
    cases htable
  · rintro rfl event hevent
    apply (h.listening event hevent.1).append
    intro reply hreply hconfirmed
    obtain ⟨channel, count, rfl, hlisted⟩ := mem_repliesIn_unsubscribed hreply
    cases channel with
    | none => cases hconfirmed
    | some event' =>
        rw [confirmed_channelReply, if_pos rfl, Option.some.injEq] at hconfirmed
        subst hconfirmed
        -- what stays subscribed is not among the events that are confirmed
        obtain ⟨list, hlist, hmem⟩ := hlisted event' rfl
        exact hevent.2 ⟨rfl, EventMap.named_of_unsubscribed hlist hmem⟩
  · intro htoken event hevent
    exact hevent.1

/-- **A turn of the temple.** -/
theorem turn (h : Hears client wishes packets) {t : Temple}
    (ht : t.Refines (Subscriptions.afterAll ∅ wishes)) {token : Token} {command : BroadcastCommand}
    {decree : Decree} (hdecree : (t.turn ⟨token, .broadcast command⟩).2 = .ok decree) :
    Hears client (wishes ++ [⟨token, .broadcast command⟩])
      (packets ++ Egress.packetsFor client [decree]) := by
  cases command with
  | subscribe events =>
      cases hdecree
      exact h.subscribe ht token events
  | unsubscribe terms =>
      cases hdecree
      exact h.unsubscribe t token terms
  | publish event message =>
      cases hdecree
      obtain ⟨hnodup, hclients⟩ := ClientMap.publish_indexes event ht.clientMap
      exact h.publish hnodup hclients

end Hears

/-! ### Runs -/

namespace PubSub

variable {room : ℕ → ℕ} {s s' : PubSub} {client : Token}

/-- The step lemma. -/
theorem hears_step (hs : s.Sound room)
    (h : Hears client s.handled (Egress.packetsFor client s.flow)) {action : Action}
    (hstep : s.step room action = .ok s') :
    Hears client s'.handled (Egress.packetsFor client s'.flow) := by
  rcases step_cases hstep with ⟨rfl, rfl⟩ | ⟨token, command, decree, rfl, -, hdecree, rfl⟩ |
    ⟨token, rfl, -, rfl⟩ | ⟨decree, decrees, rfl, hdecrees, rfl⟩
  · rw [flow_send, Egress.packetsFor_append]
    have hnone : Egress.packetsFor client [.welcome s.nextToken] = [] := rfl
    rw [hnone, List.append_nil]
    exact h
  · rw [flow_send, Egress.packetsFor_append]
    exact h.turn hs.refines hdecree
  · rw [flow_send, Egress.packetsFor_append]
    have hnone : Egress.packetsFor client [.goodbye token] = [] := rfl
    rw [hnone, List.append_nil]
    exact h
  · have hflow : (s.processed ++ [decree]) ++ decrees = s.flow := by
      rw [PubSub.flow, hdecrees, List.append_assoc]
      rfl
    show Hears client s.handled (Egress.packetsFor client ((s.processed ++ [decree]) ++ decrees))
    rw [hflow]
    exact h

/-- The run lemma. -/
theorem hears_run {actions : List Action} (hrun : Run (PubSub.step room) s actions s')
    (hactions : ∀ action ∈ actions, action.NamesEvents) (hs : s.Sound room)
    (h : Hears client s.handled (Egress.packetsFor client s.flow)) :
    s'.Sound room ∧ Hears client s'.handled (Egress.packetsFor client s'.flow) := by
  apply hrun.invariant (P := Action.NamesEvents) _ hactions ⟨hs, h⟩
  rintro s action s' haction ⟨hs, h⟩ hstep
  exact ⟨hs.step haction hstep, hears_step hs h hstep⟩

end PubSub

/-- **A subscriber sees messages exactly while it is subscribed.**  What is on the wire of a
connected client whose writes succeed are whole replies.  Every message among them comes while the
client is listening to its event, and the messages, with those still in the channel behind them,
are the ones the client is owed for the turns of the run, in the order in which the temple has
handled the PUBLISHes. -/
theorem messages_while_subscribed (room : ℕ → ℕ) (soul : Soul) (config : Config)
    (actions : List PubSub.Action) (hactions : ∀ action ∈ actions, action.NamesEvents)
    (s : PubSub) (hrun : Run (PubSub.step room) (PubSub.start soul config) actions s)
    (client : Token) (stream : Stream)
    (hconnected : s.egress.egressMap.get? client = some stream)
    (hwrites : ∀ w ∈ s.egress.on stream, ¬ w.Failed) :
    ∃ output, Resp.readAll (s.egress.sentOn stream) = some output ∧
      (∀ before reply after event text, output = before ++ reply :: after →
        asMessage reply = some (event, text) → Listening event before) ∧
      output.filterMap asMessage ++
          (repliesIn (Egress.packetsFor client s.decrees)).filterMap asMessage =
        Subscriptions.messages client ∅ (actions.filterMap PubSub.Action.wish?) := by
  have hhandled : s.handled = actions.filterMap PubSub.Action.wish? := PubSub.handled_run hrun
  obtain ⟨hs, h⟩ := PubSub.hears_run hrun hactions (PubSub.sound_start room soul config)
    (Hears.nil client)
  have hpackets : (s.egress.on stream).map Write.packet =
      Egress.packetsFor client s.processed := by
    rw [hs.egress] at hconnected ⊢
    exact (hs.tracks client).packets stream hconnected
  have hsplit : Egress.packetsFor client s.flow =
      Egress.packetsFor client s.processed ++ Egress.packetsFor client s.decrees :=
    Egress.packetsFor_append client s.processed s.decrees
  have hplain := h.plain
  have htimely := h.timely
  have hmessages := h.messages
  rw [hsplit] at hplain htimely hmessages
  have hbytes : s.egress.sentOn stream =
      (Egress.packetsFor client s.processed).flatMap Packet.bytes := by
    rw [← hpackets, Egress.sentOn, List.flatMap_map]
    apply List.flatMap_congr
    intro w hw
    exact List.take_of_length_le (not_lt.mp (hwrites w hw))
  refine ⟨repliesIn (Egress.packetsFor client s.processed), ?_, ?_, ?_⟩
  · rw [hbytes]
    exact readAll_flatMap (List.forall_mem_append.mp hplain).1
  · intro before reply after event text houtput
    rw [repliesIn_append] at htimely
    exact htimely.of_append before reply after houtput event text
  · rw [← List.filterMap_append, ← repliesIn_append, ← hhandled]
    exact hmessages

/-- Client 2 publishes to a while client 1 is subscribed, and once more when it no longer is. -/
def publishTwice : List PubSub.Action :=
  [.welcome, .welcome, .turn 1 (.subscribe [ascii "a"]), .turn 2 (.publish (ascii "a") (ascii "m")),
    .turn 1 (.unsubscribe []), .turn 2 (.publish (ascii "a") (ascii "n")), .process, .process,
    .process, .process, .process, .process]

/-- The first message reaches client 1, between its confirmations. -/
theorem messages_while_subscribed_publishTwice :
    ∃ s, Run (PubSub.step fun _ => 100) (PubSub.start Soul.new ∅) publishTwice s ∧
      s.egress.sentOn 0 = ascii "*3\r\n$9\r\nsubscribe\r\n$1\r\na\r\n:1\r\n" ++
        messageFrame (ascii "a") (ascii "m") ++
          ascii "*3\r\n$11\r\nunsubscribe\r\n$1\r\na\r\n:0\r\n" ∧
      ∃ output, Resp.readAll (s.egress.sentOn 0) = some output ∧
        (∀ before reply after event text, output = before ++ reply :: after →
          asMessage reply = some (event, text) → Listening event before) ∧
        output.filterMap asMessage ++
            (repliesIn (Egress.packetsFor 1 s.decrees)).filterMap asMessage =
          Subscriptions.messages 1 ∅ (publishTwice.filterMap PubSub.Action.wish?) := by
  have hactions : ∀ action ∈ publishTwice, action.NamesEvents := by
    simp [publishTwice, PubSub.Action.NamesEvents, Wish.NamesEvents]
  have hrun : Run (PubSub.step fun _ => 100) (PubSub.start Soul.new ∅) publishTwice _ :=
    .cons rfl (.cons rfl (.cons rfl (.cons rfl (.cons rfl (.cons rfl (.cons rfl (.cons rfl
      (.cons rfl (.cons rfl (.cons rfl (.cons rfl (.nil _))))))))))))
  exact ⟨_, hrun, by decide, messages_while_subscribed (fun _ => 100) Soul.new ∅ publishTwice
    hactions _ hrun 1 0 rfl (by decide)⟩

end Heaven
