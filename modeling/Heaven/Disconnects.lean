import Heaven.PubSub

/-! # Disconnected subscribers

A Goodbye goes to egress, which drops the stream, and to the server loop; the temple is not told.
So the subscriptions of a client outlive its connection, and a PUBLISH counts the client among its
receivers although no frame is written for it.

`Kept` is what should hold of a step: a PUBLISH meets no client that has said goodbye, and the
publisher is told the number of connections that have been sent the frame, without a failure.
`kept_iff` says in which runs it does. -/

namespace Heaven

open Decimal (ascii)
open Runs

def Packet.isMessage : Packet → Bool
  | .message _ _ => true
  | _ => false

/-- A message for a client, and its write has been successful. -/
def Write.reaches (w : Write) : Bool := w.packet.isMessage && decide (¬ w.Failed)

namespace Egress

variable {room : ℕ → ℕ} {e : Egress}

/-- The writes for a decree. -/
def added (room : ℕ → ℕ) (e : Egress) (decree : Decree) : List Write :=
  (e.process room decree).log.drop e.log.length

/-- The number that a publisher has been sent is the number of streams the message has been sent
to. -/
def CountsReached (room : ℕ → ℕ) (e : Egress) (decree : Decree) : Prop :=
  ∀ w ∈ e.added room decree, ¬ w.Failed → ∀ count, w.packet = .receivers count →
    count = ((e.added room decree).filter Write.reaches).length

theorem added_eq (room : ℕ → ℕ) (e : Egress) (decree : Decree) :
    e.added room decree = writes room e.log.length (attempts e.egressMap decree.packets) := by
  rw [added, process_log, List.drop_left]

/-- Only a broadcast sends such a number. -/
theorem countsReached_of_packets (room : ℕ → ℕ) (e : Egress) {decree : Decree}
    (h : ∀ p ∈ decree.packets, ∀ count, p.2 ≠ .receivers count) :
    CountsReached room e decree := by
  intro w hw _ count hcount
  rw [added_eq] at hw
  obtain ⟨p, hp, -, hpacket⟩ := mem_attempts (mem_writes hw)
  exact absurd (hpacket.trans hcount) (h p hp count)

/-- The attempts of one packet for several clients. -/
theorem attempts_map (m : Dict Token Stream) (clients : List Token) (packet : Packet) :
    (attempts m (clients.map (·, packet))).length =
        (clients.filter fun client => (m.get? client).isSome).length ∧
      ∀ a ∈ attempts m (clients.map (·, packet)), a.2 = packet := by
  constructor
  · induction clients with
    | nil => rfl
    | cons client clients ih =>
        rw [List.map_cons, attempts_cons, List.length_append, ih, List.filter_cons]
        cases m.get? client <;> simp [Nat.add_comm]
  · intro a ha
    obtain ⟨p, hp, -, hpacket⟩ := mem_attempts ha
    obtain ⟨client, -, rfl⟩ := List.mem_map.mp hp
    exact hpacket.symm

theorem mem_writes_iff {n : ℕ} {attempts : List (Stream × Packet)} {w : Write} :
    w ∈ writes room n attempts ↔
      ∃ (i : ℕ) (h : i < attempts.length),
        w = write room (n + i) attempts[i].1 attempts[i].2 := by
  rw [writes, List.mem_map]
  constructor
  · rintro ⟨a, ha, rfl⟩
    obtain ⟨i, hi, rfl⟩ := List.mem_iff_getElem.mp ha
    rw [List.length_zipIdx] at hi
    exact ⟨i, hi, by rw [List.getElem_zipIdx]⟩
  · rintro ⟨i, hi, rfl⟩
    have hi' : i < (attempts.zipIdx n).length := by rwa [List.length_zipIdx]
    exact ⟨(attempts.zipIdx n)[i], List.getElem_mem hi', by rw [List.getElem_zipIdx]⟩

/-- All writes of a message reach their clients precisely if the sockets take all of it. -/
theorem length_reaches {n : ℕ} {attempts : List (Stream × Packet)} {packet : Packet}
    (hpacket : ∀ a ∈ attempts, a.2 = packet) (hmessage : packet.isMessage = true) :
    ((writes room n attempts).filter Write.reaches).length = attempts.length ↔
      ∀ i < attempts.length, packet.bytes.length ≤ room (n + i) := by
  have hreaches : ∀ (i : ℕ) (h : i < attempts.length),
      (write room (n + i) attempts[i].1 attempts[i].2).reaches = true ↔
        packet.bytes.length ≤ room (n + i) := by
    intro i hi
    have hi' : attempts[i].2 = packet := hpacket _ (List.getElem_mem hi)
    rw [Write.reaches, Bool.and_eq_true, decide_eq_true_iff, write_failed, hi', not_lt]
    exact and_iff_right hmessage
  rw [← length_writes room n attempts, List.length_filter_eq_length_iff, length_writes]
  constructor
  · intro hall i hi
    exact (hreaches i hi).mp (hall _ (mem_writes_iff.mpr ⟨i, hi, rfl⟩))
  · intro hall w hw
    obtain ⟨i, hi, rfl⟩ := mem_writes_iff.mp hw
    exact (hreaches i hi).mpr (hall i hi)

/-- **A connected publisher whose socket takes the number is told the right one precisely if all
receivers are connected and their sockets take the message.** -/
theorem countsReached_broadcast (room : ℕ → ℕ) (e : Egress) (token : Token) (event message : Bytes)
    (clients : List Token) :
    CountsReached room e (.broadcast token event message clients) ↔
      ((e.egressMap.get? token).isSome = true →
        (Packet.receivers clients.length).bytes.length ≤ room (e.log.length +
          (clients.filter fun client => (e.egressMap.get? client).isSome).length) →
        (∀ client ∈ clients, (e.egressMap.get? client).isSome = true) ∧
          ∀ i < clients.length,
            (Packet.message event message).bytes.length ≤ room (e.log.length + i)) := by
  obtain ⟨hlength, hpacket⟩ := attempts_map e.egressMap clients (.message event message)
  have hle := List.length_filter_le (fun client => (e.egressMap.get? client).isSome) clients
  have hreaches := @length_reaches room e.log.length _ _ hpacket rfl
  generalize hmessages : attempts e.egressMap (clients.map (·, .message event message)) = messages
    at hlength hpacket hreaches
  have hreached := List.length_filter_le Write.reaches (writes room e.log.length messages)
  rw [length_writes] at hreached
  -- how many are reached, against how many there are
  have hall : clients.length =
      ((writes room e.log.length messages).filter Write.reaches).length ↔
      (∀ client ∈ clients, (e.egressMap.get? client).isSome = true) ∧
        ∀ i < clients.length,
          (Packet.message event message).bytes.length ≤ room (e.log.length + i) := by
    rw [← List.length_filter_eq_length_iff, ← hlength]
    constructor
    · intro heq
      have hsome : messages.length = clients.length := by omega
      refine ⟨hsome, ?_⟩
      rw [← hsome]
      exact hreaches.mp (by omega)
    · rintro ⟨hsome, hroom⟩
      rw [← hsome] at hroom
      have hwritten := hreaches.mpr hroom
      omega
  have hadded : e.added room (.broadcast token event message clients) =
      writes room e.log.length messages ++
        writes room (e.log.length + messages.length)
          (attempts e.egressMap [(token, .receivers clients.length)]) := by
    rw [added_eq, Decree.packets, attempts_append, hmessages, writes_append]
  -- a message is not the number
  have hnone : ∀ w ∈ writes room e.log.length messages, ∀ count, w.packet ≠ .receivers count := by
    intro w hw count hcount
    have hmessage := hpacket _ (mem_writes hw)
    rw [hcount] at hmessage
    cases hmessage
  rw [CountsReached, hadded, ← hlength, ← hall, attempts_cons]
  cases e.egressMap.get? token with
  | none =>
      apply iff_of_true
      · intro w hw _ count hcount
        obtain hmem | hmem := List.mem_append.mp hw
        · exact absurd hcount (hnone w hmem count)
        · exact absurd hmem List.not_mem_nil
      · intro hsome
        cases hsome
  | some stream =>
      have hlast : writes room (e.log.length + messages.length)
          ((some stream).elim [] (fun stream => [(stream, Packet.receivers clients.length)]) ++
            attempts e.egressMap []) =
          [write room (e.log.length + messages.length) stream (.receivers clients.length)] := rfl
      rw [hlast, List.filter_append, List.filter_singleton]
      have hnot : (write room (e.log.length + messages.length) stream
          (.receivers clients.length)).reaches = false := rfl
      rw [hnot, cond_false, List.append_nil]
      constructor
      · intro hcounts _ hroom
        refine hcounts _ (List.mem_append_right _ List.mem_cons_self) ?_ clients.length rfl
        rw [write_failed, not_lt]
        exact hroom
      · intro hcounts w hw hfailed count hcount
        obtain hmem | hmem := List.mem_append.mp hw
        · exact absurd hcount (hnone w hmem count)
        · rw [List.mem_singleton.mp hmem] at hfailed hcount
          rw [write_failed, not_lt] at hfailed
          cases hcount
          exact hcounts rfl hfailed

end Egress

namespace Temple

/-- The token is nowhere in the tables. -/
structure Forgotten (t : Temple) (token : Token) : Prop where
  clientMap : ∀ event set, t.clientMap.get? event = some set → token ∉ set
  eventMap : t.eventMap.get? token = none
  subscribedClients : token ∉ t.subscribedClients

theorem forgotten_iff {t : Temple} {R : Subscriptions} (h : t.Refines R) (token : Token) :
    t.Forgotten token ↔ ∀ event, (token, event) ∉ R := by
  constructor
  · intro hforgotten event hmem
    exact hforgotten.subscribedClients ((h.subscribedClients token).mpr ⟨event, hmem⟩)
  · intro hnone
    have hempty : R.eventsOf token = ∅ := Set.eq_empty_iff_forall_notMem.mpr hnone
    refine ⟨?_, ?_, ?_⟩
    · intro event set hset hmem
      exact hnone event (((h.clientMap event).mem set hset token).mp hmem)
    · cases hset : t.eventMap.get? token with
      | none => rfl
      | some set =>
          obtain ⟨event, hevent⟩ := (h.eventMap token).present.mp ⟨set, hset⟩
          exact absurd hevent (hnone event)
    · rw [h.subscribedClients, hempty]
      exact Set.not_nonempty_empty

end Temple

namespace PubSub

/-- What should hold of a step: no client that has said goodbye is in the tables when a PUBLISH
comes, and a publisher is told how many connections have been sent the message. -/
def Kept (room : ℕ → ℕ) (s : PubSub) : Action → Prop
  | .turn _ (.publish _ _) => ∀ token, .goodbye token ∈ s.processed → s.temple.Forgotten token
  | .process => ∀ decree, s.decrees.head? = some decree → Egress.CountsReached room s.egress decree
  | _ => True

/-- The clients of the list that have not said goodbye. -/
def present (s : PubSub) (clients : List Token) : List Token :=
  clients.filter fun client => !s.processed.contains (.goodbye client)

/-- A client that has said goodbye before a PUBLISH has given up its subscriptions.  No receiver of
a message says goodbye before the message, and the sockets of all of them take all of it, as long as
the publisher does not say goodbye either and its socket takes the number. -/
def Undisturbed (room : ℕ → ℕ) (s : PubSub) : Action → Prop
  | .turn _ (.publish _ _) =>
      ∀ token, .goodbye token ∈ s.processed → ∀ event, (token, event) ∉ s.subscriptions
  | .process => ∀ token event message clients,
      s.decrees.head? = some (.broadcast token event message clients) →
      .goodbye token ∉ s.processed →
      (Packet.receivers clients.length).bytes.length ≤
        room (s.egress.log.length + (s.present clients).length) →
      (∀ client ∈ clients, .goodbye client ∉ s.processed) ∧
        ∀ i < clients.length,
          (Packet.message event message).bytes.length ≤ room (s.egress.log.length + i)
  | _ => True

variable {room : ℕ → ℕ} {s : PubSub}

/-- A client that has been welcomed is connected unless it has said goodbye. -/
theorem Sound.connected_iff (h : s.Sound room) {client : Token}
    (hwelcome : .welcome client ∈ s.processed) :
    (s.egress.egressMap.get? client).isSome = true ↔ .goodbye client ∉ s.processed := by
  rw [h.egress, (h.tracks client).isSome]
  exact and_iff_right hwelcome

theorem Sound.present_eq (h : s.Sound room) {clients : List Token}
    (hwelcomed : ∀ client ∈ clients, .welcome client ∈ s.processed) :
    s.present clients = clients.filter fun client => (s.egress.egressMap.get? client).isSome := by
  apply List.filter_congr
  intro client hclient
  rw [Bool.eq_iff_iff, h.connected_iff (hwelcomed client hclient)]
  simp

theorem Sound.kept_process (h : s.Sound room) :
    s.Kept room .process ↔ s.Undisturbed room .process := by
  unfold Kept Undisturbed
  cases hdecrees : s.decrees with
  | nil => simp
  | cons decree decrees =>
      have hgreets : Egress.Greets s.processed decree := by
        apply h.flow s.processed decree decrees
        rw [PubSub.flow, hdecrees]
      simp only [List.head?_cons, Option.some.injEq, forall_eq']
      cases decree with
      | welcome token | goodbye token =>
          refine iff_of_true (Egress.countsReached_of_packets room s.egress ?_) ?_
          · intro p hp
            cases hp
          · intro token event message clients heq
            cases heq
      | deliver gift =>
          refine iff_of_true (Egress.countsReached_of_packets room s.egress ?_) ?_
          · rw [Decree.packets, List.forall_mem_singleton]
            intro token heq
            cases heq
          · intro token event message clients heq
            cases heq
      | broadcast token event message clients =>
          have hclients : (∀ client ∈ clients, (s.egress.egressMap.get? client).isSome = true) ↔
              ∀ client ∈ clients, .goodbye client ∉ s.processed :=
            forall₂_congr fun client hclient => h.connected_iff (hgreets.2 client hclient)
          rw [Egress.countsReached_broadcast, h.connected_iff hgreets.1,
            ← h.present_eq hgreets.2, hclients]
          constructor
          · intro hall token' event' message' clients' heq
            cases heq
            exact hall
          · intro hall
            exact hall token event message clients rfl

theorem Sound.kept_step_iff (h : s.Sound room) (action : Action) :
    s.Kept room action ↔ s.Undisturbed room action := by
  cases action with
  | welcome => exact Iff.rfl
  | turn token command =>
      cases command with
      | subscribe events => exact Iff.rfl
      | unsubscribe terms => exact Iff.rfl
      | publish event message =>
          apply forall₂_congr
          intro client _
          exact Temple.forgotten_iff h.refines client
  | goodbye token => exact Iff.rfl
  | process => exact h.kept_process

end PubSub

/-- **A PUBLISH meets no disconnected client and counts the clients that are reached, in precisely
the runs in which disconnected clients have unsubscribed before a later PUBLISH, no receiver says
goodbye before a message to it has gone out, and the sockets of the receivers take all of it**,
unless the publisher is not told a number, as it has said goodbye or its socket does not take it. -/
theorem kept_iff (room : ℕ → ℕ) (soul : Soul) (config : Config) (actions : List PubSub.Action)
    (hactions : ∀ action ∈ actions, action.NamesEvents) :
    Always (PubSub.step room) (PubSub.Kept room) (PubSub.start soul config) actions ↔
      Always (PubSub.step room) (PubSub.Undisturbed room) (PubSub.start soul config) actions := by
  refine always_congr (P := PubSub.Action.NamesEvents) (I := PubSub.Sound room) ?_ ?_ hactions
    (PubSub.sound_start room soul config)
  · intro s action s' haction hs hstep
    exact hs.step haction hstep
  · intro s action _ hs
    exact hs.kept_step_iff action

/-- Client 1 subscribes to a, and client 2 publishes to a. -/
def publishToTheLiving : List PubSub.Action :=
  [.welcome, .welcome, .turn 1 (.subscribe [ascii "a"]),
    .turn 2 (.publish (ascii "a") (ascii "m")), .process, .process, .process, .process]

theorem publishToTheLiving_undisturbed :
    Always (PubSub.step fun _ => 100) (PubSub.Undisturbed fun _ => 100)
      (PubSub.start Soul.new ∅) publishToTheLiving := by
  iterate 3
    refine always_cons.mpr ⟨trivial, ?_⟩
    rintro _ ⟨⟩
  refine always_cons.mpr ⟨?_, ?_⟩
  · intro token hgoodbye
    exact absurd hgoodbye List.not_mem_nil
  rintro _ ⟨⟩
  iterate 3
    refine always_cons.mpr ⟨?_, ?_⟩
    · rintro token event message clients ⟨⟩
    rintro _ ⟨⟩
  refine always_cons.mpr ⟨?_, ?_⟩
  · rintro token event message clients ⟨⟩ - -
    exact ⟨by decide, by decide⟩
  rintro _ ⟨⟩
  exact always_nil

/-- Client 2 is told that one client has been reached, and client 1 has been sent the message. -/
theorem kept_iff_publishToTheLiving :
    Always (PubSub.step fun _ => 100) (PubSub.Kept fun _ => 100) (PubSub.start Soul.new ∅)
        publishToTheLiving ∧
      ∃ s, Run (PubSub.step fun _ => 100) (PubSub.start Soul.new ∅) publishToTheLiving s ∧
        messageFrame (ascii "a") (ascii "m") <:+ s.egress.sentOn 0 ∧
          s.egress.sentOn 1 = countFrame 1 := by
  have hnames : ∀ action ∈ publishToTheLiving, action.NamesEvents := by
    simp [publishToTheLiving, PubSub.Action.NamesEvents, Wish.NamesEvents]
  refine ⟨(kept_iff (fun _ => 100) Soul.new ∅ _ hnames).mpr publishToTheLiving_undisturbed, _,
    .cons rfl (.cons rfl (.cons rfl (.cons rfl (.cons rfl (.cons rfl (.cons rfl (.cons rfl
      (.nil _)))))))), ?_, ?_⟩
  · decide
  · decide

/-- Client 1 subscribes to a and disconnects, and client 2 publishes to a. -/
def publishToTheDead : List PubSub.Action :=
  [.welcome, .welcome, .turn 1 (.subscribe [ascii "a"]), .process, .process, .process, .goodbye 1,
    .process, .turn 2 (.publish (ascii "a") (ascii "m"))]

theorem publishToTheDead_namesEvents :
    ∀ action ∈ publishToTheDead ++ [.process], action.NamesEvents := by
  simp [publishToTheDead, PubSub.Action.NamesEvents, Wish.NamesEvents]

/-- Client 2 is told that one client has been reached. -/
theorem counts_the_dead :
    ¬ ∀ (room : ℕ → ℕ) (soul : Soul) (config : Config) (actions : List PubSub.Action),
      (∀ action ∈ actions, action.NamesEvents) →
      Always (PubSub.step room) (PubSub.Kept room) (PubSub.start soul config) actions := by
  intro h
  have hrun : Run (PubSub.step fun _ => 100) (PubSub.start Soul.new ∅) publishToTheDead _ :=
    .cons rfl (.cons rfl (.cons rfl (.cons rfl (.cons rfl (.cons rfl (.cons rfl (.cons rfl
      (.cons rfl (.nil _)))))))))
  have hkept := h (fun _ => 100) Soul.new ∅ _ publishToTheDead_namesEvents publishToTheDead
    .process [] _ rfl hrun
  have hcounts := hkept _ rfl
  have htold : ¬ (Egress.write (fun _ => 100) 1 1 (.receivers 1)).Failed := by decide
  have hcount := hcounts _ List.mem_cons_self htold 1 rfl
  exact absurd hcount (by decide)

end Heaven
