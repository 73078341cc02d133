import Heaven.Lib.Index
import Heaven.Temple

/-! # Subscriptions

What the three structures of the temple are for: a relation between clients and events.  A
SUBSCRIBE adds pairs to the relation, an UNSUBSCRIBE takes pairs away, and nothing else changes it
(`Subscriptions.after`).  The client map indexes the relation by events, the event map by clients,
and the subscribed clients are those that are related to something (`Temple.Refines`); a turn of
the temple keeps this (`Temple.Refines.turn`). -/

namespace Heaven

open Decimal (ascii)

/-- Who has subscribed to what. -/
abbrev Subscriptions := Set (Token × Bytes)

namespace Subscriptions

/-- The events of a client. -/
def eventsOf (R : Subscriptions) (token : Token) : Set Bytes := {event | (token, event) ∈ R}

/-- The clients of an event. -/
def clientsOf (R : Subscriptions) (event : Bytes) : Set Token := {token | (token, event) ∈ R}

def subscribe (R : Subscriptions) (token : Token) (events : List Bytes) : Subscriptions :=
  R ∪ {p | p.1 = token ∧ p.2 ∈ events}

/-- UNSUBSCRIBE without events means all. -/
def unsubscribe (R : Subscriptions) (token : Token) (events : List Bytes) : Subscriptions :=
  R \ {p | p.1 = token ∧ (events = [] ∨ p.2 ∈ events)}

/-- The subscriptions after a wish. -/
def after (R : Subscriptions) (wish : Wish) : Subscriptions :=
  match wish.command with
  | .broadcast (.subscribe events) => R.subscribe wish.token events
  | .broadcast (.unsubscribe terms) => R.unsubscribe wish.token terms
  | .broadcast (.publish _ _) => R
  | .database _ => R

/-- The subscriptions after a sequence of wishes. -/
def afterAll (R : Subscriptions) (wishes : List Wish) : Subscriptions := wishes.foldl after R

variable {R : Subscriptions} {token : Token} {event : Bytes}

theorem mem_eventsOf_unsubscribe (events : List Bytes) :
    event ∈ (R.unsubscribe token events).eventsOf token ↔
      (token, event) ∈ R ∧ ¬ (events = [] ∨ event ∈ events) := by
  simp [eventsOf, unsubscribe]

theorem eventsOf_unsubscribe_of_ne {c : Token} (hc : c ≠ token) (events : List Bytes) :
    (R.unsubscribe token events).eventsOf c = R.eventsOf c := by
  ext event
  simp [eventsOf, unsubscribe, hc]

/-- A client without subscriptions has none to give up. -/
theorem unsubscribe_of_eventsOf_empty (h : R.eventsOf token = ∅) (events : List Bytes) :
    R.unsubscribe token events = R := by
  apply sdiff_eq_left.mpr
  rw [Set.disjoint_left]
  rintro ⟨c, event⟩ hmem ⟨rfl, -⟩
  have hevent : event ∈ R.eventsOf c := hmem
  rw [h] at hevent
  exact hevent

/-- The pairs that are taken away are those of the client with the events it is confirmed. -/
theorem clientsOf_unsubscribe (events : List Bytes) {result : List Bytes}
    (hresult : ∀ event, event ∈ result ↔
      (events = [] ∧ (token, event) ∈ R) ∨ event ∈ events) (event : Bytes) :
    (R.unsubscribe token events).clientsOf event =
      {c | c ∈ R.clientsOf event ∧ ¬ (c = token ∧ event ∈ result)} := by
  ext c
  simp only [clientsOf, unsubscribe, Set.mem_ofPred_eq, Set.mem_sdiff, hresult]
  constructor
  · rintro ⟨hc, hnot⟩
    refine ⟨hc, ?_⟩
    rintro ⟨rfl, ⟨hnil, -⟩ | hevent⟩
    · exact hnot ⟨rfl, Or.inl hnil⟩
    · exact hnot ⟨rfl, Or.inr hevent⟩
  · rintro ⟨hc, hnot⟩
    refine ⟨hc, ?_⟩
    rintro ⟨rfl, hnil | hevent⟩
    · exact hnot ⟨rfl, Or.inl ⟨hnil, hc⟩⟩
    · exact hnot ⟨rfl, Or.inr hevent⟩

end Subscriptions

/-- A SUBSCRIBE names an event. -/
def Wish.NamesEvents (wish : Wish) : Prop :=
  ∀ events, wish.command = .broadcast (.subscribe events) → events ≠ []

theorem Wish.namesEvents_subscribe (token : Token) {events : List Bytes} (h : events ≠ []) :
    (Wish.mk token (.broadcast (.subscribe events))).NamesEvents := by
  intro named hnamed
  cases hnamed
  exact h

/-! ### The client map -/

namespace ClientMap

variable {m : ClientMap} {f : Bytes → Set Token}

theorem subscribe_cons (m : ClientMap) (token : Token) (event : Bytes) (events : List Bytes) :
    m.subscribe token (event :: events) =
      ClientMap.subscribe (m.put event (some (((m.get? event).getD HashSet.empty).insert token)))
        token events := by
  unfold subscribe
  rw [List.foldl_cons]
  cases m.get? event <;> rfl

theorem subscribe_indexes (token : Token) (events : List Bytes) (h : Indexes m f) :
    Indexes (m.subscribe token events)
      fun event => {c | c ∈ f event ∨ c = token ∧ event ∈ events} := by
  induction events generalizing m f with
  | nil => simpa [subscribe] using h
  | cons event events ih =>
      rw [subscribe_cons]
      have hnew : Represents (some (((m.get? event).getD HashSet.empty).insert token))
          (insert token (f event)) := represents_insert (h event) token
      have hput : Indexes
          (m.put event (some (((m.get? event).getD HashSet.empty).insert token)))
          fun e => {c | c ∈ f e ∨ c = token ∧ e = event} := by
        apply h.put
        · convert hnew using 1
          ext c
          simp [or_comm]
        · intro e he
          simp [he]
      convert ih hput using 2
      ext c
      simp only [Set.mem_ofPred_eq, List.mem_cons]
      tauto

theorem unsubscribe_cons (m : ClientMap) (token : Token) (e : Bytes × ℕ)
    (events : List (Bytes × ℕ)) :
    m.unsubscribe token (some (e :: events)) =
      ClientMap.unsubscribe (m.put e.1 ((m.get? e.1).bind fun set =>
        if (set.remove token).isEmpty then none else some (set.remove token)))
        token (some events) := by
  simp only [unsubscribe, List.foldl_cons]
  cases hset : m.get? e.1 with
  | none =>
      rw [Option.bind_none, Dict.put_eq_self hset]
  | some set =>
      dsimp only [Option.bind_some]
      split_ifs <;> rfl

theorem unsubscribe_indexes (token : Token) (events : List (Bytes × ℕ)) (h : Indexes m f) :
    Indexes (m.unsubscribe token (some events))
      fun event => {c | c ∈ f event ∧ ¬ (c = token ∧ event ∈ events.map Prod.fst)} := by
  induction events generalizing m f with
  | nil => simpa [unsubscribe] using h
  | cons e events ih =>
      rw [unsubscribe_cons]
      have hcell : Represents ((m.get? e.1).bind fun set =>
          if (set.remove token).isEmpty then none else some (set.remove token))
          {c | c ∈ f e.1 ∧ c ≠ token} := by
        cases hset : m.get? e.1 with
        | none =>
            rw [Option.bind_none, represents_none, h.eq_empty hset]
            simp
        | some set =>
            apply represents_unlessEmpty
            intro c
            rw [HashSet.mem_remove, (h e.1).mem set hset c]
            exact and_comm
      have hput : Indexes
          (m.put e.1 ((m.get? e.1).bind fun set =>
            if (set.remove token).isEmpty then none else some (set.remove token)))
          fun event => {c | c ∈ f event ∧ ¬ (c = token ∧ event = e.1)} := by
        apply h.put
        · simpa using hcell
        · intro event hevent
          simp [hevent]
      convert ih hput using 2
      ext c
      simp only [Set.mem_ofPred_eq, List.map_cons, List.mem_cons]
      tauto

/-- PUBLISH goes to each subscriber once, and to nobody else. -/
theorem publish_indexes (event : Bytes) (h : Indexes m f) :
    (m.publish event).Nodup ∧ ∀ c, c ∈ m.publish event ↔ c ∈ f event := by
  have helems : m.publish event = (m.get? event).elim [] HashSet.elems := by
    unfold publish
    cases m.get? event <;> rfl
  rw [helems]
  exact (h event).elems

end ClientMap

/-! ### The event map -/

namespace EventMap

variable {m : EventMap} {f : Token → Set Bytes}

theorem mem_subscribeLoop {event : Bytes} (set : HashSet Bytes) (count : ℕ)
    (result : List (Bytes × ℕ)) (events : List Bytes) :
    event ∈ (subscribeLoop set count result events).1 ↔ event ∈ set ∨ event ∈ events := by
  induction events generalizing set count result with
  | nil => simp [subscribeLoop]
  | cons e events ih =>
      rw [subscribeLoop]
      split_ifs with he
      · rw [ih, List.mem_cons]
        rw [HashSet.contains_iff] at he
        constructor
        · tauto
        · rintro (h | rfl | h)
          · exact Or.inl h
          · exact Or.inl he
          · exact Or.inr h
      · rw [ih, HashSet.mem_insert, List.mem_cons]
        tauto

theorem mem_unsubscribeLoop {event : Bytes} (existing : HashSet Bytes) (count : ℕ)
    (result : List (Bytes × ℕ)) (events : List Bytes) :
    event ∈ (unsubscribeLoop existing count result events).1 ↔
      event ∈ existing ∧ event ∉ events := by
  induction events generalizing existing count result with
  | nil => simp [unsubscribeLoop]
  | cons e events ih =>
      rw [unsubscribeLoop, ih, HashSet.mem_remove, List.mem_cons]
      tauto

theorem unsubscribeLoop_names (existing : HashSet Bytes) (count : ℕ)
    (result : List (Bytes × ℕ)) (events : List Bytes) :
    (unsubscribeLoop existing count result events).2.map Prod.fst =
      result.map Prod.fst ++ events := by
  induction events generalizing existing count result with
  | nil => simp [unsubscribeLoop]
  | cons e events ih => simp [unsubscribeLoop, ih]

theorem unsubscribeAllLoop_names (count : ℕ) (result : List (Bytes × ℕ)) (events : List Bytes) :
    (unsubscribeAllLoop count result events).map Prod.fst = result.map Prod.fst ++ events := by
  induction events generalizing count result with
  | nil => simp [unsubscribeAllLoop]
  | cons e events ih => simp [unsubscribeAllLoop, ih]

theorem subscribe_fst (m : EventMap) (token : Token) (events : List Bytes) :
    (m.subscribe token events).1 = m.put token
      (some (subscribeLoop ((m.get? token).getD HashSet.empty)
        ((m.get? token).getD HashSet.empty).len [] events).1) := by
  unfold subscribe
  cases m.get? token <;> rfl

theorem subscribe_indexes (token : Token) {events : List Bytes} (hne : events ≠ [])
    (h : Indexes m f) :
    Indexes (m.subscribe token events).1
      fun c => {event | event ∈ f c ∨ c = token ∧ event ∈ events} := by
  rw [subscribe_fst]
  apply h.put
  · rw [represents_some]
    constructor
    · obtain ⟨event, hevent⟩ := List.exists_mem_of_ne_nil events hne
      exact ⟨event, Or.inr ⟨rfl, hevent⟩⟩
    · intro event
      rw [mem_subscribeLoop, (h token).mem_getD]
      simp
  · intro c hc
    simp [hc]

/-- What UNSUBSCRIBE makes of the events of a subscriber: `rest` stays, `result` is confirmed. -/
theorem unsubscribe_of_some {token : Token} {existing : HashSet Bytes}
    (h : m.get? token = some existing) (events : List Bytes) (subscribedClients : HashSet Token) :
    ∃ rest result,
      m.unsubscribe events token subscribedClients =
        (m.put token (if rest.isEmpty then none else some rest),
          if rest.isEmpty then subscribedClients.remove token else subscribedClients,
          some result) ∧
      (∀ event, event ∈ rest ↔ event ∈ existing ∧ ¬ (events = [] ∨ event ∈ events)) ∧
      ∀ event, event ∈ result.map Prod.fst ↔
        (events = [] ∧ event ∈ existing) ∨ event ∈ events := by
  unfold unsubscribe
  rw [h]
  cases events with
  | nil =>
      refine ⟨HashSet.empty, unsubscribeAllLoop existing.len [] existing.elems, rfl, ?_, ?_⟩
      · intro event
        simp
      · intro event
        rw [unsubscribeAllLoop_names]
        simp [HashSet.mem_def]
  | cons e events =>
      refine ⟨(unsubscribeLoop existing existing.len [] (e :: events)).1,
        (unsubscribeLoop existing existing.len [] (e :: events)).2, ?_, ?_, ?_⟩
      · simp only [List.isEmpty_cons, Bool.not_false, if_true]
        split_ifs <;> rfl
      · intro event
        rw [mem_unsubscribeLoop]
        simp
      · intro event
        rw [unsubscribeLoop_names]
        simp

/-- UNSUBSCRIBE of a client without subscriptions changes nothing. -/
theorem unsubscribe_of_none {token : Token} (h : m.get? token = none) (events : List Bytes)
    (subscribedClients : HashSet Token) :
    m.unsubscribe events token subscribedClients = (m, subscribedClients, none) := by
  unfold unsubscribe
  rw [h]

/-- A channel that is confirmed to a subscriber is one of those it has named, if it has named any.
-/
theorem named_of_unsubscribed {token : Token} {events : List Bytes}
    {subscribedClients : HashSet Token} {channels : List (Bytes × ℕ)}
    (h : (m.unsubscribe events token subscribedClients).2.2 = some channels) {c : Bytes × ℕ}
    (hc : c ∈ channels) : events = [] ∨ c.1 ∈ events := by
  cases hset : m.get? token with
  | none =>
      rw [unsubscribe_of_none hset] at h
      cases h
  | some existing =>
      obtain ⟨rest, result, heq, -, hnames⟩ := unsubscribe_of_some hset events subscribedClients
      rw [heq] at h
      cases h
      obtain ⟨hnil, -⟩ | hevent := (hnames c.1).mp (List.mem_map_of_mem hc)
      · exact Or.inl hnil
      · exact Or.inr hevent

end EventMap

/-! ### The temple -/

namespace Temple

/-- The maps hold the relation. -/
structure Refines (t : Temple) (R : Subscriptions) : Prop where
  clientMap : Indexes t.clientMap R.clientsOf
  eventMap : Indexes t.eventMap R.eventsOf
  subscribedClients : ∀ token, token ∈ t.subscribedClients ↔ (R.eventsOf token).Nonempty

/-- The temple after a sequence of turns. -/
def turns (t : Temple) (wishes : List Wish) : Temple :=
  wishes.foldl (fun t wish => (t.turn wish).1) t

variable {t : Temple} {R : Subscriptions}

theorem refines_worship (soul : Soul) (config : Config) :
    Refines { worship config with soul } ∅ where
  clientMap := indexes_empty
  eventMap := indexes_empty
  subscribedClients := fun token => iff_of_false (HashSet.not_mem_empty token) (by
    rintro ⟨event, hevent⟩
    exact hevent)

theorem Refines.subscribe (h : t.Refines R) (token : Token) {events : List Bytes}
    (hne : events ≠ []) :
    (t.turn ⟨token, .broadcast (.subscribe events)⟩).1.Refines (R.subscribe token events) where
  clientMap := ClientMap.subscribe_indexes token events h.clientMap
  eventMap := EventMap.subscribe_indexes token hne h.eventMap
  subscribedClients := by
    intro c
    show c ∈ t.subscribedClients.insert token ↔ _
    rw [HashSet.mem_insert, h.subscribedClients]
    constructor
    · rintro (rfl | ⟨event, hevent⟩)
      · obtain ⟨event, hevent⟩ := List.exists_mem_of_ne_nil events hne
        exact ⟨event, Or.inr ⟨rfl, hevent⟩⟩
      · exact ⟨event, Or.inl hevent⟩
    · rintro ⟨event, hevent | ⟨rfl, -⟩⟩
      · exact Or.inr ⟨event, hevent⟩
      · exact Or.inl rfl

theorem Refines.unsubscribe (h : t.Refines R) (token : Token) (events : List Bytes) :
    (t.turn ⟨token, .broadcast (.unsubscribe events)⟩).1.Refines
      (R.unsubscribe token events) := by
  cases hset : t.eventMap.get? token with
  | none =>
      have hnothing : R.eventsOf token = ∅ := h.eventMap.eq_empty hset
      have hturn : (t.turn ⟨token, .broadcast (.unsubscribe events)⟩).1 = t := by
        simp only [turn, EventMap.unsubscribe_of_none hset, ClientMap.unsubscribe]
      rw [Subscriptions.unsubscribe_of_eventsOf_empty hnothing, hturn]
      exact h
  | some existing =>
      obtain ⟨rest, result, heq, hrest, hnames⟩ :=
        EventMap.unsubscribe_of_some hset events t.subscribedClients
      have hturn : (t.turn ⟨token, .broadcast (.unsubscribe events)⟩).1 =
          { t with
            clientMap := ClientMap.unsubscribe t.clientMap token (some result)
            eventMap := t.eventMap.put token (if rest.isEmpty then none else some rest)
            subscribedClients :=
              if rest.isEmpty then t.subscribedClients.remove token else t.subscribedClients } := by
        simp only [turn, heq]
      have hexisting : ∀ event, event ∈ existing ↔ (token, event) ∈ R :=
        (h.eventMap token).mem existing hset
      have hself : ∀ event, event ∈ rest ↔
          event ∈ Subscriptions.eventsOf (R.unsubscribe token events) token := by
        intro event
        rw [hrest, hexisting, Subscriptions.mem_eventsOf_unsubscribe]
      have hother : ∀ c, c ≠ token →
          Subscriptions.eventsOf (R.unsubscribe token events) c = R.eventsOf c := by
        intro c hc
        exact Subscriptions.eventsOf_unsubscribe_of_ne hc events
      rw [hturn]
      refine ⟨?_, ?_, ?_⟩
      · convert ClientMap.unsubscribe_indexes token result h.clientMap using 2 with event
        apply Subscriptions.clientsOf_unsubscribe events
        intro event
        rw [hnames, hexisting]
      · exact h.eventMap.put (represents_unlessEmpty hself) hother
      · intro c
        have hempty := HashSet.isEmpty_iff_not_nonempty hself
        by_cases hc : c = token
        · subst hc
          dsimp only
          split_ifs with hrest
          · exact iff_of_false (fun hmem => (HashSet.mem_remove.mp hmem).1 rfl) (hempty.mp hrest)
          · refine iff_of_true ?_ (not_not.mp (hempty.not.mp hrest))
            rw [h.subscribedClients]
            exact (h.eventMap c).present.mp ⟨existing, hset⟩
        · rw [hother c hc, ← h.subscribedClients]
          dsimp only
          split_ifs
          · rw [HashSet.mem_remove]
            exact and_iff_right hc
          · exact Iff.rfl

/-- **A turn of the temple keeps the maps in step with the relation.** -/
theorem Refines.turn (h : t.Refines R) {wish : Wish} (hwish : wish.NamesEvents) :
    (t.turn wish).1.Refines (R.after wish) := by
  obtain ⟨token, _ | cmd⟩ := wish
  case database cmd =>
    unfold Temple.turn Subscriptions.after
    dsimp only
    split_ifs
    · exact h
    · exact ⟨h.clientMap, h.eventMap, h.subscribedClients⟩
  case broadcast =>
    cases cmd with
    | subscribe events => exact h.subscribe token (hwish events rfl)
    | publish event message => exact h
    | unsubscribe events => exact h.unsubscribe token events

theorem Refines.turns (h : t.Refines R) {wishes : List Wish}
    (hwishes : ∀ wish ∈ wishes, wish.NamesEvents) :
    (t.turns wishes).Refines (R.afterAll wishes) := by
  induction wishes generalizing t R with
  | nil => exact h
  | cons wish wishes ih =>
      rw [List.forall_mem_cons] at hwishes
      exact ih (h.turn hwishes.1) hwishes.2

end Temple

/-- **The maps hold one relation, at every point of every sequence of wishes.**  The first three
parts say what the structures hold, the fourth whom PUBLISH reaches; the last two are that the
maps are inverse to each other, and when a client leaves subscriber mode. -/
theorem pubsub_refines (soul : Soul) (config : Config) (wishes : List Wish)
    (hwishes : ∀ wish ∈ wishes, wish.NamesEvents) :
    let t := Temple.turns { Temple.worship config with soul } wishes
    let R := Subscriptions.afterAll ∅ wishes
    (∀ event, Represents (t.clientMap.get? event) {token | (token, event) ∈ R}) ∧
      (∀ token, Represents (t.eventMap.get? token) {event | (token, event) ∈ R}) ∧
      (∀ token, token ∈ t.subscribedClients ↔ ∃ event, (token, event) ∈ R) ∧
      (∀ event, (ClientMap.publish t.clientMap event).Nodup ∧
        ∀ token, token ∈ ClientMap.publish t.clientMap event ↔ (token, event) ∈ R) ∧
      (∀ token event, (∃ set, t.clientMap.get? event = some set ∧ token ∈ set) ↔
        ∃ set, t.eventMap.get? token = some set ∧ event ∈ set) ∧
      ∀ wish, wish.NamesEvents → ∀ token, token ∈ t.subscribedClients →
        (token ∉ (t.turn wish).1.subscribedClients ↔ ∀ event, (token, event) ∉ R.after wish) := by
  intro t R
  have h : t.Refines R := (Temple.refines_worship soul config).turns hwishes
  refine ⟨h.clientMap, h.eventMap, h.subscribedClients, ?_, ?_, ?_⟩
  · intro event
    exact ClientMap.publish_indexes event h.clientMap
  · intro token event
    rw [(h.clientMap event).exists_mem, (h.eventMap token).exists_mem]
    exact Iff.rfl
  · intro wish hwish token _
    rw [(h.turn hwish).subscribedClients, Set.not_nonempty_iff_eq_empty,
      Set.eq_empty_iff_forall_notMem]
    exact Iff.rfl

/-- Client 1 subscribes to a twice and to b, and unsubscribes from a. -/
theorem pubsub_refines_ab :
    let clientMap := (Temple.turns (Temple.worship ∅)
      [⟨1, .broadcast (.subscribe [ascii "a", ascii "b", ascii "a"])⟩,
        ⟨1, .broadcast (.unsubscribe [ascii "a"])⟩]).clientMap
    1 ∈ ClientMap.publish clientMap (ascii "b") ∧ 1 ∉ ClientMap.publish clientMap (ascii "a") := by
  have hnames : ∀ wish ∈ [Wish.mk 1 (.broadcast (.subscribe [ascii "a", ascii "b", ascii "a"])),
      ⟨1, .broadcast (.unsubscribe [ascii "a"])⟩], wish.NamesEvents := by
    rw [List.forall_mem_cons, List.forall_mem_singleton]
    constructor
    · exact Wish.namesEvents_subscribe 1 (List.cons_ne_nil _ _)
    · intro events hevents
      cases hevents
  have hpublish := (pubsub_refines Soul.new ∅ _ hnames).2.2.2.1
  constructor
  · apply ((hpublish (ascii "b")).2 1).mpr
    refine ⟨.inr ⟨rfl, by decide⟩, ?_⟩
    rintro ⟨-, hnil | hmem⟩
    · cases hnil
    · exact absurd hmem (by decide)
  · intro hmem
    exact (((hpublish (ascii "a")).2 1).mp hmem).2 ⟨rfl, .inr List.mem_cons_self⟩

end Heaven
