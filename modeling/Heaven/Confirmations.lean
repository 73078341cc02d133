import Mathlib.Data.Finset.Dedup
import Mathlib.Data.Set.Card
import Heaven.Replies
import Heaven.Send
import Heaven.SubscriberMode
import Heaven.Subscriptions

/-! # Confirmations

SUBSCRIBE and UNSUBSCRIBE are answered with frames, one for each channel, which carry the number of
channels the client is subscribed to from then on (`confirmations`).  The two loops of the event map
keep that number by hand.

SUBSCRIBE confirms only what is new: `subscribe_confirms_iff` says that the frames are those that
were asked for exactly when no channel is repeated or already subscribed to.  UNSUBSCRIBE confirms
every channel, except to a client that has none (`unsubscribe_confirms_iff`). -/

namespace Heaven

open Decimal (ascii)
open Grant

/-! ### The loops -/

namespace EventMap

theorem length_subscribeLoop_le (set : HashSet Bytes) (count : ℕ) (result : List (Bytes × ℕ))
    (events : List Bytes) :
    (subscribeLoop set count result events).2.length ≤ result.length + events.length := by
  induction events generalizing set count result with
  | nil => exact le_rfl
  | cons event events ih =>
      rw [subscribeLoop, List.length_cons]
      split_ifs
      · have hrest := ih set count result
        omega
      · have hrest := ih (set.insert event) (count + 1) (result ++ [(event, count + 1)])
        rw [List.length_append, List.length_singleton] at hrest
        omega

/-- A channel for each event: every one of them was new. -/
theorem new_of_length {set : HashSet Bytes} {count : ℕ} {result : List (Bytes × ℕ)}
    {events : List Bytes}
    (h : (subscribeLoop set count result events).2.length = result.length + events.length) :
    events.Nodup ∧ ∀ event ∈ events, event ∉ set := by
  induction events generalizing set count result with
  | nil => exact ⟨List.nodup_nil, fun _ hmem => absurd hmem List.not_mem_nil⟩
  | cons event events ih =>
      rw [subscribeLoop, List.length_cons] at h
      split_ifs at h with hcontains
      · have hle := length_subscribeLoop_le set count result events
        omega
      · rw [HashSet.contains_iff] at hcontains
        have hlength : (subscribeLoop (set.insert event) (count + 1)
            (result ++ [(event, count + 1)]) events).2.length =
              (result ++ [(event, count + 1)]).length + events.length := by
          rw [h, List.length_append, List.length_singleton]
          omega
        obtain ⟨hnodup, hnew⟩ := ih hlength
        have hne : ∀ e ∈ events, e ≠ event ∧ e ∉ set := by
          intro e he
          have hinsert := hnew e he
          rw [HashSet.mem_insert, not_or] at hinsert
          exact hinsert
        constructor
        · rw [List.nodup_cons]
          exact ⟨fun hmem => (hne event hmem).1 rfl, hnodup⟩
        · rw [List.forall_mem_cons]
          exact ⟨hcontains, fun e he => (hne e he).2⟩

/-- New channels are confirmed one by one, and counted. -/
theorem subscribeLoop_of_new {set : HashSet Bytes} (count : ℕ) (result : List (Bytes × ℕ))
    {events : List Bytes} (hnodup : events.Nodup) (hnew : ∀ event ∈ events, event ∉ set) :
    (subscribeLoop set count result events).2 =
      result ++ events.mapIdx fun i event => (event, count + (i + 1)) := by
  induction events generalizing set count result with
  | nil => exact (List.append_nil result).symm
  | cons event events ih =>
      rw [List.nodup_cons] at hnodup
      rw [List.forall_mem_cons] at hnew
      have hcontains : ¬ set.contains event = true := HashSet.contains_iff.not.mpr hnew.1
      have hrest : ∀ e ∈ events, e ∉ set.insert event := by
        intro e he
        rw [HashSet.mem_insert, not_or]
        refine ⟨?_, hnew.2 e he⟩
        rintro rfl
        exact hnodup.1 he
      have hcount : (fun (i : ℕ) (e : Bytes) => (e, count + 1 + (i + 1))) =
          fun i e => (e, count + (i + 1 + 1)) := by
        funext i e
        rw [add_right_comm, add_assoc]
      rw [subscribeLoop, if_neg hcontains, ih (count + 1) _ hnodup.2 hrest, hcount,
        List.mapIdx_cons, List.append_assoc, List.singleton_append]

theorem len_remove (set : HashSet Bytes) (event : Bytes) :
    (set.remove event).len = if set.contains event = true then set.len - 1 else set.len := by
  rw [← HashSet.card_toFinset, ← HashSet.card_toFinset, HashSet.toFinset_remove]
  split_ifs with h
  · rw [HashSet.contains_iff, ← HashSet.mem_toFinset] at h
    exact Finset.card_erase_of_mem h
  · rw [HashSet.contains_iff, ← HashSet.mem_toFinset] at h
    rw [Finset.erase_eq_of_notMem h]

/-- Each event is confirmed with the number of those that are left. -/
theorem unsubscribeLoop_snd (existing : HashSet Bytes) (result : List (Bytes × ℕ))
    (events : List Bytes) :
    (unsubscribeLoop existing existing.len result events).2 =
      result ++ events.mapIdx fun i event =>
        (event, (existing.toFinset \ (events.take (i + 1)).toFinset).card) := by
  induction events generalizing existing result with
  | nil => exact (List.append_nil result).symm
  | cons event events ih =>
      have hcount : (if existing.contains event = true then existing.len - 1 else existing.len) =
          (existing.remove event).len := (len_remove existing event).symm
      have hfirst : (existing.remove event).len =
          (existing.toFinset \ ([event] : List Bytes).toFinset).card := by
        rw [← HashSet.card_toFinset, HashSet.toFinset_remove, List.toFinset_cons,
          List.toFinset_nil, insert_empty_eq, Finset.sdiff_singleton_eq_erase]
      have hrest : (fun (i : ℕ) (e : Bytes) =>
          (e, ((existing.remove event).toFinset \ (events.take (i + 1)).toFinset).card)) =
          fun i e =>
            (e, (existing.toFinset \ ((event :: events).take (i + 1 + 1)).toFinset).card) := by
        funext i e
        rw [HashSet.toFinset_remove, List.take_succ_cons, List.toFinset_cons,
          Finset.sdiff_insert, Finset.erase_sdiff_comm]
      rw [unsubscribeLoop, hcount, ih (existing.remove event), hrest, List.mapIdx_cons,
        List.append_assoc, List.singleton_append, hfirst]
      rfl

/-- The channels of the client are counted down. -/
theorem unsubscribeAllLoop_eq (count : ℕ) (result : List (Bytes × ℕ)) (events : List Bytes) :
    unsubscribeAllLoop count result events =
      result ++ events.mapIdx fun i event => (event, count - (i + 1)) := by
  induction events generalizing count result with
  | nil => exact (List.append_nil result).symm
  | cons event events ih =>
      have hcount : (fun (i : ℕ) (e : Bytes) => (e, count - 1 - (i + 1))) =
          fun i e => (e, count - (i + 1 + 1)) := by
        funext i e
        rw [Nat.sub_sub, Nat.add_comm 1]
      rw [unsubscribeAllLoop, ih, hcount, List.mapIdx_cons, List.append_assoc,
        List.singleton_append]

theorem unsubscribe_of_named {m : EventMap} {token : Token} {existing : HashSet Bytes}
    (h : m.get? token = some existing) {events : List Bytes} (hne : events ≠ [])
    (subscribedClients : HashSet Token) :
    (m.unsubscribe events token subscribedClients).2.2 =
      some (unsubscribeLoop existing existing.len [] events).2 := by
  unfold unsubscribe
  obtain ⟨event, events, rfl⟩ := List.exists_cons_of_ne_nil hne
  rw [h]
  simp only [List.isEmpty_cons, Bool.not_false, if_true]
  split_ifs <;> rfl

theorem subscribe_snd (m : EventMap) (token : Token) (events : List Bytes) :
    (m.subscribe token events).2 =
      (subscribeLoop ((m.get? token).getD HashSet.empty)
        ((m.get? token).getD HashSet.empty).len [] events).2 := by
  unfold subscribe
  cases m.get? token <;> rfl

end EventMap

/-! ### Frames -/

/-- The frames for a list of channels: each names its channel, and the number of the channels that
the client is subscribed to once the list has been processed so far. -/
noncomputable def confirmations (word : Bytes) (events : List Bytes)
    (processed : List Bytes → Set Bytes) : List Resp :=
  events.mapIdx fun i event =>
    channelReply word (some event) (processed (events.take (i + 1))).ncard

/-- The frames that SUBSCRIBE should be answered with. -/
def SubscribeConfirmed (R : Subscriptions) (token : Token) (events : List Bytes)
    (replies : Option (List Resp)) : Prop :=
  replies = some (confirmations (ascii "subscribe") events fun es =>
    (R.subscribe token es).eventsOf token)

/-- The frames that UNSUBSCRIBE with channels should be answered with. -/
def UnsubscribeConfirmed (R : Subscriptions) (token : Token) (events : List Bytes)
    (replies : Option (List Resp)) : Prop :=
  replies = some (confirmations (ascii "unsubscribe") events fun es =>
    (R.unsubscribe token es).eventsOf token)

/-- A frame for each channel of the client, with the number of those behind it. -/
def AllConfirmed (R : Subscriptions) (token : Token) (replies : Option (List Resp)) : Prop :=
  ∃ channels : List Bytes, channels.Nodup ∧ (∀ event, event ∈ channels ↔ (token, event) ∈ R) ∧
    replies = some (channels.mapIdx fun i event =>
      channelReply (ascii "unsubscribe") (some event) (channels.length - (i + 1) : ℕ))

/-- The bytes that are written to the client for a decree that delivers. -/
def Decree.written (token : Token) : Decree → Bytes
  | .deliver gift => if gift.token = token then send gift.response else []
  | _ => []

/-- The replies that the client reads when the messages of its command have been handled. -/
def Temple.repliesTo (t : Temple) (token : Token) (emissions : List Emission) :
    Option (List Resp) :=
  match (t.handle emissions).2 with
  | .ok decrees => Resp.readAll (decrees.flatMap (Decree.written token))
  | .error _ => none

theorem Temple.repliesTo_broadcast {t : Temple} {token : Token} {cmd : BroadcastCommand}
    {response : Response}
    (hturn : (t.turn ⟨token, .broadcast cmd⟩).2 = .ok (deliver token response))
    (hresponse : response ≠ .info .command) :
    t.repliesTo token (pray token (.broadcast cmd)) = some response.replies := by
  unfold repliesTo
  rw [handle_pray, hturn]
  show Resp.readAll ([deliver token response].flatMap (Decree.written token)) = _
  have hwritten : [deliver token response].flatMap (Decree.written token) = send response := by
    rw [List.flatMap_singleton]
    exact if_pos rfl
  rw [hwritten, send_eq hresponse]
  exact Resp.readAll_encodeAll response.replies_wellFormed

theorem map_channelReply_mapIdx (word : Bytes) (events : List Bytes) (count : ℕ → ℕ) :
    (events.mapIdx fun i event => (event, count i)).map
        (fun c => channelReply word (some c.1) c.2) =
      events.mapIdx fun i event => channelReply word (some event) (count i) := by
  rw [List.mapIdx_eq_zipIdx_map, List.mapIdx_eq_zipIdx_map, List.map_map]
  rfl

theorem length_confirmations (word : Bytes) (events : List Bytes)
    (processed : List Bytes → Set Bytes) :
    (confirmations word events processed).length = events.length :=
  List.length_mapIdx

theorem confirmations_congr {word : Bytes} {events : List Bytes}
    {processed : List Bytes → Set Bytes} {count : ℕ → ℕ}
    (h : ∀ i < events.length, (processed (events.take (i + 1))).ncard = count i) :
    confirmations word events processed =
      events.mapIdx fun i event => channelReply word (some event) (count i) := by
  apply List.mapIdx_eq_mapIdx_iff.mpr
  intro i hi
  rw [h i hi]

/-! ### SUBSCRIBE -/

namespace Temple.Refines

variable {t : Temple} {R : Subscriptions}

/-- The events of a client as a finite set. -/
theorem eventsOf_eq (h : t.Refines R) (token : Token) :
    R.eventsOf token = ↑((t.eventMap.get? token).getD HashSet.empty).toFinset := by
  ext event
  rw [Finset.mem_coe, HashSet.mem_toFinset]
  exact ((h.eventMap token).mem_getD event).symm

theorem ncard_subscribe (h : t.Refines R) (token : Token) {events : List Bytes}
    (hnodup : events.Nodup) (hnew : ∀ event ∈ events, (token, event) ∉ R) :
    ((R.subscribe token events).eventsOf token).ncard =
      ((t.eventMap.get? token).getD HashSet.empty).len + events.length := by
  have hset : (R.subscribe token events).eventsOf token =
      ↑(((t.eventMap.get? token).getD HashSet.empty).toFinset ∪ events.toFinset) := by
    ext event
    rw [Finset.coe_union, ← h.eventsOf_eq token]
    simp [Subscriptions.eventsOf, Subscriptions.subscribe]
  have hdisjoint : Disjoint ((t.eventMap.get? token).getD HashSet.empty).toFinset
      events.toFinset := by
    rw [Finset.disjoint_right]
    intro event hevent hmem
    rw [HashSet.mem_toFinset, (h.eventMap token).mem_getD] at hmem
    exact hnew event (List.mem_toFinset.mp hevent) hmem
  rw [hset, Set.ncard_coe_finset, Finset.card_union_of_disjoint hdisjoint,
    HashSet.card_toFinset, List.toFinset_card_of_nodup hnodup]

theorem ncard_unsubscribe (h : t.Refines R) (token : Token) {events : List Bytes}
    (hne : events ≠ []) :
    ((R.unsubscribe token events).eventsOf token).ncard =
      (((t.eventMap.get? token).getD HashSet.empty).toFinset \ events.toFinset).card := by
  have hset : (R.unsubscribe token events).eventsOf token =
      ↑(((t.eventMap.get? token).getD HashSet.empty).toFinset \ events.toFinset) := by
    ext event
    rw [Finset.coe_sdiff, ← h.eventsOf_eq token, Subscriptions.mem_eventsOf_unsubscribe]
    simp [Subscriptions.eventsOf, hne]
  rw [hset, Set.ncard_coe_finset]

/-- The frames of SUBSCRIBE are those asked for if and only if every channel is new. -/
theorem confirms_subscribe (h : t.Refines R) (token : Token) (events : List Bytes) :
    SubscribeConfirmed R token events
        (t.repliesTo token (pray token (.broadcast (.subscribe events)))) ↔
      events.Nodup ∧ ∀ event ∈ events, (token, event) ∉ R := by
  have hturn : (t.turn ⟨token, .broadcast (.subscribe events)⟩).2 =
      .ok (deliver token (.subscribedChannels (t.eventMap.subscribe token events).2)) := rfl
  unfold SubscribeConfirmed
  rw [repliesTo_broadcast hturn (fun h => by cases h), Option.some.injEq, Response.replies,
    EventMap.subscribe_snd]
  constructor
  · intro hframes
    have hlength := congrArg List.length hframes
    rw [List.length_map, length_confirmations] at hlength
    obtain ⟨hnodup, hnew⟩ := EventMap.new_of_length
      (hlength.trans (Nat.zero_add events.length).symm)
    refine ⟨hnodup, ?_⟩
    intro event hevent hmem
    exact hnew event hevent (((h.eventMap token).mem_getD event).mpr hmem)
  · rintro ⟨hnodup, hnew⟩
    have hnew' : ∀ event ∈ events, event ∉ (t.eventMap.get? token).getD HashSet.empty := by
      intro event hevent hmem
      exact hnew event hevent (((h.eventMap token).mem_getD event).mp hmem)
    rw [EventMap.subscribeLoop_of_new _ _ hnodup hnew', List.nil_append, map_channelReply_mapIdx]
    symm
    apply confirmations_congr
    intro i hi
    have hsub : (events.take (i + 1)).Sublist events := List.take_sublist _ _
    rw [h.ncard_subscribe token (hnodup.sublist hsub) fun event hevent =>
      hnew event (hsub.subset hevent), List.length_take, Nat.min_eq_left hi]

/-- The frames of UNSUBSCRIBE with channels are those asked for if and only if the client has
subscribed to something. -/
theorem confirms_unsubscribe (h : t.Refines R) (token : Token) {events : List Bytes}
    (hne : events ≠ []) :
    UnsubscribeConfirmed R token events
        (t.repliesTo token (pray token (.broadcast (.unsubscribe events)))) ↔
      (R.eventsOf token).Nonempty := by
  unfold UnsubscribeConfirmed
  cases hset : t.eventMap.get? token with
  | none =>
      have hturn : (t.turn ⟨token, .broadcast (.unsubscribe events)⟩).2 =
          .ok (deliver token (.unsubscribedChannels none)) := by
        simp only [Temple.turn, EventMap.unsubscribe_of_none hset]
      have hnothing : R.eventsOf token = ∅ := h.eventMap.eq_empty hset
      rw [repliesTo_broadcast hturn (fun h => by cases h), Option.some.injEq, hnothing]
      apply iff_of_false _ Set.not_nonempty_empty
      intro hframes
      obtain ⟨event, events, rfl⟩ := List.exists_cons_of_ne_nil hne
      -- the one frame names no channel
      rw [confirmations, List.mapIdx_cons] at hframes
      cases hframes
  | some existing =>
      have hturn : (t.turn ⟨token, .broadcast (.unsubscribe events)⟩).2 =
          .ok (deliver token (.unsubscribedChannels
            (some (EventMap.unsubscribeLoop existing existing.len [] events).2))) := by
        simp only [Temple.turn, EventMap.unsubscribe_of_named hset hne]
      have hsome : (R.eventsOf token).Nonempty := (h.eventMap token).present.mp ⟨existing, hset⟩
      rw [repliesTo_broadcast hturn (fun h => by cases h), Option.some.injEq, Response.replies,
        EventMap.unsubscribeLoop_snd, List.nil_append, map_channelReply_mapIdx]
      apply iff_of_true _ hsome
      symm
      apply confirmations_congr
      intro i hi
      have htake : events.take (i + 1) ≠ [] := by
        rw [Ne, List.take_eq_nil_iff, not_or]
        exact ⟨Nat.succ_ne_zero i, hne⟩
      rw [h.ncard_unsubscribe token htake, hset, Option.getD_some]

/-- UNSUBSCRIBE without channels confirms each channel of the client once, and counts down. -/
theorem confirms_unsubscribe_all (h : t.Refines R) {token : Token}
    (hsome : (R.eventsOf token).Nonempty) :
    AllConfirmed R token (t.repliesTo token (pray token (.broadcast (.unsubscribe [])))) := by
  obtain ⟨existing, hset⟩ := (h.eventMap token).present.mpr hsome
  have hturn : (t.turn ⟨token, .broadcast (.unsubscribe [])⟩).2 =
      .ok (deliver token (.unsubscribedChannels
        (some (EventMap.unsubscribeAllLoop existing.len [] existing.elems)))) := by
    simp only [Temple.turn, EventMap.unsubscribe, hset, List.isEmpty_nil, Bool.not_true,
      Bool.false_eq_true, if_false]
  refine ⟨existing.elems, existing.nodup, (h.eventMap token).mem existing hset, ?_⟩
  rw [repliesTo_broadcast hturn (fun h => by cases h), Response.replies,
    EventMap.unsubscribeAllLoop_eq, List.nil_append, map_channelReply_mapIdx]
  rfl

end Temple.Refines

/-! ### Every reachable state -/

theorem grant_subscribe {word : Bytes} (hword : eqIgnoreAsciiCase word (ascii "SUBSCRIBE") = true)
    {events : List Bytes} (hne : events ≠ []) (clock : SystemTime) (token : Token) :
    grant (word :: events) (List.cons_ne_nil _ _) clock token =
      pray token (.broadcast (.subscribe events)) := by
  have hcommand : IsCommand (ascii "SUBSCRIBE") (word :: events) (List.cons_ne_nil _ _) := hword
  have hlen : ¬ (word :: events).length < 2 := by
    have hpos := List.length_pos_of_ne_nil hne
    rw [List.length_cons]
    omega
  rw [grant_of_isCommand hcommand rfl, Grant.subscribe, keysHandler, if_neg hlen]
  rfl

theorem grant_unsubscribe {word : Bytes}
    (hword : eqIgnoreAsciiCase word (ascii "UNSUBSCRIBE") = true) (events : List Bytes)
    (clock : SystemTime) (token : Token) :
    grant (word :: events) (List.cons_ne_nil _ _) clock token =
      pray token (.broadcast (.unsubscribe events)) := by
  have hcommand : IsCommand (ascii "UNSUBSCRIBE") (word :: events) (List.cons_ne_nil _ _) := hword
  rw [grant_of_isCommand hcommand rfl]
  rfl

section reachable

variable (soul : Soul) (config : Config) {wishes : List Wish} (clock : SystemTime) (token : Token)
  {word : Bytes}

/-- **SUBSCRIBE confirms every channel it names if and only if** none of them is named twice or
already subscribed to. -/
theorem subscribe_confirms_iff (hwishes : ∀ wish ∈ wishes, wish.NamesEvents)
    (hword : eqIgnoreAsciiCase word (ascii "SUBSCRIBE") = true) {events : List Bytes}
    (hne : events ≠ []) :
    let t := Temple.turns { Temple.worship config with soul } wishes
    let R := Subscriptions.afterAll ∅ wishes
    SubscribeConfirmed R token events
        (t.repliesTo token (grant (word :: events) (List.cons_ne_nil _ _) clock token)) ↔
      events.Nodup ∧ ∀ event ∈ events, (token, event) ∉ R := by
  intro t R
  have h : t.Refines R := (Temple.refines_worship soul config).turns hwishes
  rw [grant_subscribe hword hne]
  exact h.confirms_subscribe token events

/-- **UNSUBSCRIBE confirms every channel it names if and only if** the client has subscribed to
something; without channels it confirms all channels of such a client. -/
theorem unsubscribe_confirms_iff (hwishes : ∀ wish ∈ wishes, wish.NamesEvents)
    (hword : eqIgnoreAsciiCase word (ascii "UNSUBSCRIBE") = true) (events : List Bytes) :
    let t := Temple.turns { Temple.worship config with soul } wishes
    let R := Subscriptions.afterAll ∅ wishes
    let replies := t.repliesTo token (grant (word :: events) (List.cons_ne_nil _ _) clock token)
    (events ≠ [] → (UnsubscribeConfirmed R token events replies ↔ (R.eventsOf token).Nonempty)) ∧
      (events = [] → (R.eventsOf token).Nonempty → AllConfirmed R token replies) := by
  intro t R
  have h : t.Refines R := (Temple.refines_worship soul config).turns hwishes
  rw [grant_unsubscribe hword]
  constructor
  · exact h.confirms_unsubscribe token
  · rintro rfl hsome
    exact h.confirms_unsubscribe_all hsome

end reachable

/-- Client 1 has subscribed to a and subscribes to b. -/
theorem subscribe_confirms_iff_b :
    let wishes := [Wish.mk 1 (.broadcast (.subscribe [ascii "a"]))]
    let t := Temple.turns (Temple.worship ∅) wishes
    let R := Subscriptions.afterAll ∅ wishes
    SubscribeConfirmed R 1 [ascii "b"] (t.repliesTo 1
        (grant [ascii "subscribe", ascii "b"] (List.cons_ne_nil _ _) .unixEpoch 1)) ↔
      [ascii "b"].Nodup ∧ ∀ event ∈ [ascii "b"], (1, event) ∉ R := by
  apply subscribe_confirms_iff Soul.new ∅ .unixEpoch 1 _ (by decide) (List.cons_ne_nil _ _)
  rw [List.forall_mem_singleton]
  exact Wish.namesEvents_subscribe 1 (List.cons_ne_nil _ _)

/-- SUBSCRIBE a a is confirmed once. -/
theorem subscribe_confirms_once :
    ¬ ∀ (soul : Soul) (config : Config) (wishes : List Wish) (clock : SystemTime) (token : Token)
      (word : Bytes) (events : List Bytes), (∀ wish ∈ wishes, wish.NamesEvents) →
      eqIgnoreAsciiCase word (ascii "SUBSCRIBE") = true → events ≠ [] →
      SubscribeConfirmed (Subscriptions.afterAll ∅ wishes) token events
        (Temple.repliesTo (Temple.turns { Temple.worship config with soul } wishes) token
          (grant (word :: events) (List.cons_ne_nil _ _) clock token)) := by
  intro hall
  have htwice := hall Soul.new ∅ [] .unixEpoch 1 (ascii "SUBSCRIBE") [ascii "a", ascii "a"]
    (fun _ hmem => absurd hmem List.not_mem_nil) (by decide) (List.cons_ne_nil _ _)
  rw [grant_subscribe (by decide) (List.cons_ne_nil _ _)] at htwice
  have hnodup := (((Temple.refines_worship Soul.new ∅).confirms_subscribe 1 _).mp htwice).1
  exact absurd hnodup (by decide)

/-- Client 1 has subscribed to a and unsubscribes from b. -/
theorem unsubscribe_confirms_iff_b :
    let wishes := [Wish.mk 1 (.broadcast (.subscribe [ascii "a"]))]
    let t := Temple.turns (Temple.worship ∅) wishes
    let R := Subscriptions.afterAll ∅ wishes
    UnsubscribeConfirmed R 1 [ascii "b"] (t.repliesTo 1
        (grant [ascii "unsubscribe", ascii "b"] (List.cons_ne_nil _ _) .unixEpoch 1)) ↔
      (R.eventsOf 1).Nonempty := by
  apply (unsubscribe_confirms_iff Soul.new ∅ .unixEpoch 1 _ (by decide) [ascii "b"]).1
    (List.cons_ne_nil _ _)
  rw [List.forall_mem_singleton]
  exact Wish.namesEvents_subscribe 1 (List.cons_ne_nil _ _)

/-- UNSUBSCRIBE a of a client without subscriptions is answered with a frame that names nothing. -/
theorem unsubscribe_names_nothing :
    ¬ ∀ (soul : Soul) (config : Config) (wishes : List Wish) (clock : SystemTime) (token : Token)
      (word : Bytes) (events : List Bytes), (∀ wish ∈ wishes, wish.NamesEvents) →
      eqIgnoreAsciiCase word (ascii "UNSUBSCRIBE") = true →
      let R := Subscriptions.afterAll ∅ wishes
      let replies := Temple.repliesTo (Temple.turns { Temple.worship config with soul } wishes)
        token (grant (word :: events) (List.cons_ne_nil _ _) clock token)
      (events ≠ [] → UnsubscribeConfirmed R token events replies) ∧
        (events = [] → (R.eventsOf token).Nonempty → AllConfirmed R token replies) := by
  intro hall
  have hnone := (hall Soul.new ∅ [] .unixEpoch 1 (ascii "UNSUBSCRIBE") [ascii "a"]
    (fun _ hmem => absurd hmem List.not_mem_nil) (by decide)).1 (List.cons_ne_nil _ _)
  rw [grant_unsubscribe (by decide)] at hnone
  obtain ⟨event, hevent⟩ := ((Temple.refines_worship Soul.new ∅).confirms_unsubscribe 1
    (List.cons_ne_nil _ _)).mp hnone
  exact hevent

end Heaven
