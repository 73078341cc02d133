import Heaven.Accepted
import Heaven.Subscriptions

/-! # Subscriber mode

A client with a subscription may send SUBSCRIBE, UNSUBSCRIBE, PING and QUIT; everything else
should be refused with an error.  The gate of the temple stands in front of the store commands.
COMMAND is answered before it, by the worker, and PUBLISH passes beside it, on the branch of the
subscription commands (`PassesGate`); `refused_iff` says that all other commands are refused.

A handler is `Gated` if it sends nothing but errors and wishes to the store: what such a handler
sends for a subscriber is refused (`handle_gated`). -/

namespace Heaven

open Decimal (ascii)
open Grant

/-! ### Handlers in front of the gate -/

/-- An error for the client, or a wish that stops at the gate. -/
def StopsAtGate (token : Token) (emission : Emission) : Prop :=
  (∃ sacrilege, emission = .toEgress (.deliver ⟨token, .error sacrilege⟩)) ∨
    ∃ cmd, emission = .toTemple ⟨token, .database cmd⟩

/-- A handler all of whose messages stop at the gate. -/
def Gated (handler : Handler) : Prop :=
  ∀ clock token terms, ∀ emission ∈ handler clock token terms, StopsAtGate token emission

variable {token : Token}

theorem stops_error (sacrilege : Sacrilege) :
    ∀ emission ∈ reply token (.error sacrilege), StopsAtGate token emission := by
  intro emission h
  rw [List.mem_singleton.mp h]
  exact Or.inl ⟨sacrilege, rfl⟩

theorem stops_database (cmd : DatabaseCommand) :
    ∀ emission ∈ pray token (.database cmd), StopsAtGate token emission := by
  intro emission h
  rw [List.mem_singleton.mp h]
  exact Or.inr ⟨cmd, rfl⟩

theorem stops_nil : ∀ emission ∈ ([] : List Emission), StopsAtGate token emission := by
  intro emission h
  cases h

theorem gated_keyHandler (cmd : Command) (make : SystemTime → Bytes → DatabaseCommand) :
    Gated (keyHandler cmd make) := by
  intro clock token terms
  unfold keyHandler
  split_ifs
  · exact stops_error _
  · split
    · exact stops_database _
    · exact stops_error _

theorem gated_keyArgumentHandler (cmd : Command)
    (make : SystemTime → Bytes → Bytes → DatabaseCommand) :
    Gated (keyArgumentHandler cmd fun clock key argument =>
      .database (make clock key argument)) := by
  intro clock token terms
  unfold keyArgumentHandler
  split_ifs
  · exact stops_error _
  · split
    · exact stops_database _
    · exact stops_error _

theorem gated_keyListHandler (cmd : Command)
    (make : SystemTime → Bytes → List Bytes → DatabaseCommand) :
    Gated (keyListHandler cmd make) := by
  intro clock token terms
  unfold keyListHandler
  split_ifs
  · exact stops_error _
  · split
    · exact stops_database _
    · exact stops_nil

theorem gated_keysHandler (cmd : Command) (make : SystemTime → List Bytes → DatabaseCommand) :
    Gated (keysHandler cmd fun clock keys => .database (make clock keys)) := by
  intro clock token terms
  unfold keysHandler
  split_ifs
  · exact stops_error _
  · exact stops_database _

theorem gated_indexHandler (cmd : Command)
    (make : SystemTime → Bytes → ℤ → Bytes → DatabaseCommand) : Gated (indexHandler cmd make) := by
  intro clock token terms
  unfold indexHandler
  split_ifs
  · exact stops_error _
  · split
    · split
      · exact stops_database _
      · exact stops_error _
    · exact stops_error _

theorem gated_popHandler (cmd : Command) (one : SystemTime → Bytes → DatabaseCommand)
    (many : SystemTime → Bytes → ℕ → DatabaseCommand) : Gated (popHandler cmd one many) := by
  intro clock token terms
  unfold popHandler
  split_ifs
  · exact stops_error _
  · split
    · split
      · exact stops_database _
      · exact stops_error _
    · exact stops_database _
    · exact stops_error _

theorem gated_set : Gated Grant.set := by
  intro clock token terms
  unfold Grant.set
  split_ifs
  · exact stops_error _
  · split
    · exact stops_database _
    · split_ifs
      · split
        · exact stops_error _
        · split
          · exact stops_error _
          · exact stops_database _
      · exact stops_error _
    · exact stops_error _

theorem gated_incrby : Gated incrby := by
  intro clock token terms
  unfold incrby
  split_ifs
  · exact stops_error _
  · split
    · split
      · exact stops_error _
      · exact stops_database _
    · exact stops_nil

theorem gated_expire : Gated expire := by
  intro clock token terms
  unfold expire
  split_ifs
  · exact stops_error _
  · split
    · split
      · exact stops_error _
      · exact stops_database _
    · exact stops_error _

theorem gated_mset : Gated mset := by
  intro clock token terms
  unfold mset
  split_ifs
  · exact stops_error _
  · exact stops_database _

theorem gated_hset : Gated hset := by
  intro clock token terms
  unfold hset
  split_ifs
  · exact stops_error _
  · split
    · exact stops_database _
    · exact stops_nil

theorem gated_lrange : Gated lrange := by
  intro clock token terms
  unfold lrange
  split_ifs
  · exact stops_error _
  · split
    · split
      · exact stops_database _
      · exact stops_error _
    · exact stops_error _

/-- LINDEX with a wrong number of terms goes on after its error, and stops at the gate then. -/
theorem gated_lindex : Gated lindex := by
  intro clock token terms
  unfold lindex
  rw [List.forall_mem_append]
  constructor
  · split_ifs
    · exact stops_error _
    · exact stops_nil
  · split
    · split
      · exact stops_database _
      · exact stops_error _
    · exact stops_error _

theorem gated_config : Gated config := by
  intro clock token terms
  unfold config
  split_ifs
  · exact stops_error _
  · split
    · split_ifs
      · exact stops_error _
      · exact stops_database _
    · exact stops_error _

/-! ### The words of the dispatch -/

/-- The commands that the refusal names. -/
def allowed : List Bytes :=
  [ascii "SUBSCRIBE", ascii "UNSUBSCRIBE", ascii "PING", ascii "QUIT"]

theorem gated_of_mem : ∀ e ∈ handlers, e.1 ∉ allowed → e.1 ≠ ascii "COMMAND" →
    e.1 ≠ ascii "PUBLISH" → Gated e.2 := by
  have hallowed : ∀ {word : Bytes} {handler : Handler}, word ∈ allowed →
      word ∉ allowed → word ≠ ascii "COMMAND" → word ≠ ascii "PUBLISH" → Gated handler :=
    fun hmem hnot => absurd hmem hnot
  have hgated : ∀ {word : Bytes} {handler : Handler}, Gated handler →
      word ∉ allowed → word ≠ ascii "COMMAND" → word ≠ ascii "PUBLISH" → Gated handler :=
    fun h _ _ _ => h
  simp only [handlers, List.forall_mem_cons, List.not_mem_nil, false_implies, implies_true,
    and_true]
  -- in the order of the table
  exact ⟨hgated gated_set, hgated (gated_keyHandler _ _), hallowed (by decide),
    hgated (gated_keysHandler _ _), hgated (gated_keysHandler _ _), hgated gated_incrby,
    hgated (gated_keyHandler _ _), hgated (gated_keyHandler _ _),
    hgated (gated_keyArgumentHandler _ _), hgated gated_hset,
    hgated (gated_keyArgumentHandler _ _), hgated (gated_keyListHandler _ _),
    hgated (gated_keyHandler _ _), hgated (gated_keyListHandler _ _),
    hgated (gated_keyArgumentHandler _ _), hgated (gated_keyHandler _ _),
    hgated (gated_keyListHandler _ _), hgated (gated_popHandler _ _ _),
    hgated (gated_keyListHandler _ _), hgated (gated_popHandler _ _ _),
    hgated (gated_keyHandler _ _), hgated gated_lrange, hgated gated_lindex,
    hgated (gated_indexHandler _ _), hgated (gated_indexHandler _ _), hgated gated_expire,
    hgated (gated_keyHandler _ _), hallowed (by decide), fun _ _ h => absurd rfl h,
    hgated gated_mset, hgated (gated_keysHandler _ _), hgated (gated_keyListHandler _ _),
    hgated (gated_keyListHandler _ _), hgated (gated_keyArgumentHandler _ _),
    hgated (gated_keyHandler _ _), hgated (gated_keyHandler _ _), hallowed (by decide),
    hgated gated_config, hallowed (by decide), fun _ h _ => absurd rfl h⟩

/-- The first term is the command `word`, in any case. -/
def IsCommand (word : Bytes) (terms : List Bytes) (h : terms ≠ []) : Prop :=
  eqIgnoreAsciiCase (terms.head h) word = true

instance (word : Bytes) (terms : List Bytes) (h : terms ≠ []) :
    Decidable (IsCommand word terms h) := inferInstanceAs (Decidable (_ = true))

/-- COMMAND alone, and PUBLISH with an event and a message. -/
def PassesGate (terms : List Bytes) (h : terms ≠ []) : Prop :=
  (IsCommand (ascii "COMMAND") terms h ∧ terms.length = 1) ∨
    (IsCommand (ascii "PUBLISH") terms h ∧ terms.length = 3)

instance (terms : List Bytes) (h : terms ≠ []) : Decidable (PassesGate terms h) :=
  inferInstanceAs (Decidable (_ ∨ _))

/-- The dispatch sees the words up to case. -/
theorem handlerOf_congr {word word' : Bytes} (h : eqIgnoreAsciiCase word word' = true) :
    handlerOf word = handlerOf word' := by
  have hlower : word.map toAsciiLower = word'.map toAsciiLower := of_decide_eq_true h
  unfold handlerOf eqIgnoreAsciiCase
  rw [hlower]

theorem grant_of_isCommand {word : Bytes} {handler : Handler} {terms : List Bytes} {h : terms ≠ []}
    (hword : IsCommand word terms h) (hhandler : handlerOf word = some (word, handler))
    (clock : SystemTime) (token : Token) :
    grant terms h clock token = handler clock token terms := by
  unfold grant
  rw [handlerOf_congr hword, hhandler]

theorem grant_command {terms : List Bytes} {h : terms ≠ []}
    (hword : IsCommand (ascii "COMMAND") terms h) (clock : SystemTime) (token : Token) :
    grant terms h clock token = command clock token terms :=
  grant_of_isCommand hword rfl clock token

theorem grant_publish {terms : List Bytes} {h : terms ≠ []}
    (hword : IsCommand (ascii "PUBLISH") terms h) (clock : SystemTime) (token : Token) :
    grant terms h clock token = publish clock token terms :=
  grant_of_isCommand hword rfl clock token

/-- Every message of another command stops at the gate. -/
theorem grant_stops {terms : List Bytes} {h : terms ≠ []}
    (hword : ∀ word ∈ allowed, ¬ IsCommand word terms h) (hpass : ¬ PassesGate terms h)
    (clock : SystemTime) (token : Token) :
    ∀ emission ∈ grant terms h clock token, StopsAtGate token emission := by
  by_cases hcommand : IsCommand (ascii "COMMAND") terms h
  · have hlength : terms.length ≠ 1 := fun hlength => hpass (Or.inl ⟨hcommand, hlength⟩)
    rw [grant_command hcommand]
    unfold command constantHandler
    rw [if_pos hlength]
    exact stops_error _
  by_cases hpublish : IsCommand (ascii "PUBLISH") terms h
  · have hlength : terms.length ≠ 3 := fun hlength => hpass (Or.inr ⟨hpublish, hlength⟩)
    rw [grant_publish hpublish]
    unfold publish keyArgumentHandler
    rw [if_pos hlength]
    exact stops_error _
  unfold grant
  cases hfind : handlerOf (terms.head h) with
  | none => exact stops_error _
  | some entry =>
      have hmem : entry ∈ handlers := List.mem_of_find?_eq_some hfind
      have hmatch := List.find?_some hfind
      apply gated_of_mem entry hmem
      · intro hallowed
        exact hword entry.1 hallowed hmatch
      · intro hentry
        rw [hentry] at hmatch
        exact hcommand hmatch
      · intro hentry
        rw [hentry] at hmatch
        exact hpublish hmatch

/-! ### The gate -/

namespace Temple

/-- The client has been sent errors and nothing else, nobody else has been sent anything, and the
store is as it was. -/
structure Refused (t : Temple) (token : Token) (result : Temple × Except Panic (List Decree)) :
    Prop where
  soul : result.1.soul = t.soul
  errors : ∃ decrees, result.2 = .ok decrees ∧ decrees ≠ [] ∧
    ∀ decree ∈ decrees, ∃ sacrilege, decree = .deliver ⟨token, .error sacrilege⟩

variable {t : Temple}

theorem turn_gated (h : token ∈ t.subscribedClients) (cmd : DatabaseCommand) :
    t.turn ⟨token, .database cmd⟩ = (t, .ok (deliver token (.error .subscriberOnlyMode))) := by
  unfold turn
  exact if_pos (HashSet.contains_iff.mpr h)

theorem turn_executes (h : token ∉ t.subscribedClients) (cmd : DatabaseCommand) :
    t.turn ⟨token, .database cmd⟩ =
      ({ t with soul := (database t.soul t.config cmd).1 },
        (database t.soul t.config cmd).2.map (deliver token)) := by
  unfold turn
  exact if_neg (HashSet.contains_iff.not.mpr h)

/-- What stops at the gate becomes errors, one for each message. -/
theorem handle_gated (h : token ∈ t.subscribedClients) {emissions : List Emission}
    (hstops : ∀ emission ∈ emissions, StopsAtGate token emission) :
    ∃ decrees, t.handle emissions = (t, .ok decrees) ∧ decrees.length = emissions.length ∧
      ∀ decree ∈ decrees, ∃ sacrilege, decree = .deliver ⟨token, .error sacrilege⟩ := by
  induction emissions with
  | nil => exact ⟨[], rfl, rfl, fun _ hd => nomatch hd⟩
  | cons emission emissions ih =>
      rw [List.forall_mem_cons] at hstops
      obtain ⟨hfirst, hrest⟩ := hstops
      obtain ⟨decrees, hdecrees, hlength, herrors⟩ := ih hrest
      obtain ⟨sacrilege, rfl⟩ | ⟨cmd, rfl⟩ := hfirst
      · refine ⟨.deliver ⟨token, .error sacrilege⟩ :: decrees, ?_, by simp [hlength], ?_⟩
        · simp only [handle, hdecrees, Except.map]
        · rw [List.forall_mem_cons]
          exact ⟨⟨sacrilege, rfl⟩, herrors⟩
      · refine ⟨deliver token (.error .subscriberOnlyMode) :: decrees, ?_, by simp [hlength], ?_⟩
        · simp only [handle, turn_gated h, hdecrees, Except.map]
        · rw [List.forall_mem_cons]
          exact ⟨⟨_, rfl⟩, herrors⟩

theorem refused_of_stops (h : token ∈ t.subscribedClients) {emissions : List Emission}
    (hne : emissions ≠ []) (hstops : ∀ emission ∈ emissions, StopsAtGate token emission) :
    t.Refused token (t.handle emissions) := by
  obtain ⟨decrees, hdecrees, hlength, herrors⟩ := handle_gated h hstops
  rw [hdecrees]
  refine ⟨rfl, decrees, rfl, ?_, herrors⟩
  rw [← List.length_pos_iff, hlength, List.length_pos_iff]
  exact hne

theorem not_refused_command (clock : SystemTime) (terms : List Bytes) (hlength : terms.length = 1) :
    ¬ t.Refused token (t.handle (command clock token terms)) := by
  rintro ⟨-, decrees, hdecrees, -, herrors⟩
  have hcommand : command clock token terms = reply token (.info .command) := by
    simp [command, constantHandler, hlength]
  rw [hcommand] at hdecrees
  cases hdecrees
  obtain ⟨sacrilege, hsacrilege⟩ := herrors _ List.mem_cons_self
  cases hsacrilege

theorem not_refused_publish (clock : SystemTime) (terms : List Bytes) (hlength : terms.length = 3) :
    ¬ t.Refused token (t.handle (publish clock token terms)) := by
  rintro ⟨-, decrees, hdecrees, -, herrors⟩
  obtain ⟨word, event, message, rfl⟩ := List.length_eq_three.mp hlength
  have hpublish : publish clock token [word, event, message] =
      pray token (.broadcast (.publish event message)) := rfl
  rw [hpublish] at hdecrees
  cases hdecrees
  obtain ⟨sacrilege, hsacrilege⟩ := herrors _ List.mem_cons_self
  cases hsacrilege

end Temple

theorem grant_ne_nil (terms : List Bytes) (h : terms ≠ []) (clock : SystemTime) (token : Token) :
    grant terms h clock token ≠ [] := by
  obtain ⟨rest, hrest, hgrant⟩ := grant_answers terms h clock token
  rw [hgrant]
  apply List.append_ne_nil_of_right_ne_nil
  obtain ⟨response, rfl⟩ | ⟨command, -, rfl⟩ := hrest
  · exact List.cons_ne_nil _ _
  · exact List.cons_ne_nil _ _

/-- **What a subscriber sends is refused, apart from the commands that the refusal names, COMMAND
and PUBLISH.**  After the UNSUBSCRIBE that takes its last subscription its commands are executed
again. -/
theorem refused_iff (config : Config) (wishes : List Wish)
    (hwishes : ∀ wish ∈ wishes, wish.NamesEvents) (soul : Soul) (token : Token)
    (hsubscribed : ∃ event, (token, event) ∈ Subscriptions.afterAll ∅ wishes)
    (clock : SystemTime) :
    let t : Temple := { (Temple.worship config).turns wishes with soul }
    (∀ (terms : List Bytes) (h : terms ≠ []), (∀ word ∈ allowed, ¬ IsCommand word terms h) →
      (t.Refused token (t.handle (grant terms h clock token)) ↔ ¬ PassesGate terms h)) ∧
    ∀ events, (∀ event,
        (token, event) ∉ (Subscriptions.afterAll ∅ wishes).unsubscribe token events) →
      let t' := (t.turn ⟨token, .broadcast (.unsubscribe events)⟩).1
      t'.soul = soul ∧ ∀ cmd, t'.turn ⟨token, .database cmd⟩ =
        ({ t' with soul := (database soul t'.config cmd).1 },
          (database soul t'.config cmd).2.map (Temple.deliver token)) := by
  intro t
  have hrefines := (Temple.refines_worship Soul.new config).turns hwishes
  have hmaps : t.Refines (Subscriptions.afterAll ∅ wishes) :=
    ⟨hrefines.clientMap, hrefines.eventMap, hrefines.subscribedClients⟩
  have hmem : token ∈ t.subscribedClients := (hmaps.subscribedClients token).mpr hsubscribed
  constructor
  · intro terms h hword
    constructor
    · rintro hrefused (⟨hcommand, hlength⟩ | ⟨hpublish, hlength⟩)
      · rw [grant_command hcommand] at hrefused
        exact Temple.not_refused_command clock terms hlength hrefused
      · rw [grant_publish hpublish] at hrefused
        exact Temple.not_refused_publish clock terms hlength hrefused
    · intro hpass
      exact Temple.refused_of_stops hmem (grant_ne_nil terms h clock token)
        (grant_stops hword hpass clock token)
  · intro events hlast t'
    have hmaps' := hmaps.unsubscribe token events
    have hleft : token ∉ t'.subscribedClients := by
      rw [hmaps'.subscribedClients]
      rintro ⟨event, hevent⟩
      exact hlast event hevent
    have hsoul : t'.soul = soul := rfl
    refine ⟨hsoul, ?_⟩
    intro cmd
    rw [Temple.turn_executes hleft, hsoul]

/-- Client 1 listens to a and sends GET and, after UNSUBSCRIBE, again. -/
theorem refused_get :
    let t := (Temple.worship ∅).turns [⟨1, .broadcast (.subscribe [ascii "a"])⟩]
    t.Refused 1 (t.handle (grant [ascii "get", ascii "k"] (by decide) .unixEpoch 1)) := by
  have hwishes : ∀ wish ∈ [(⟨1, .broadcast (.subscribe [ascii "a"])⟩ : Wish)],
      wish.NamesEvents := by
    rw [List.forall_mem_singleton]
    exact Wish.namesEvents_subscribe 1 (List.cons_ne_nil _ _)
  have hsubscribed : ∃ event, (1, event) ∈ Subscriptions.afterAll ∅
      [⟨1, .broadcast (.subscribe [ascii "a"])⟩] :=
    ⟨ascii "a", Or.inr ⟨rfl, List.mem_cons_self⟩⟩
  exact ((refused_iff ∅ _ hwishes Soul.new 1 hsubscribed .unixEpoch).1 _ _ (by decide)).mpr
    (by decide)

/-- Client 1 listens to a, client 2 to b, and client 1 publishes to b: the message goes out. -/
theorem publish_passes_gate :
    ¬ ∀ (config : Config) (wishes : List Wish), (∀ wish ∈ wishes, wish.NamesEvents) →
      ∀ (soul : Soul) (token : Token),
      (∃ event, (token, event) ∈ Subscriptions.afterAll ∅ wishes) →
      ∀ (clock : SystemTime) (terms : List Bytes) (h : terms ≠ []),
      (∀ word ∈ allowed, ¬ IsCommand word terms h) →
      let t : Temple := { (Temple.worship config).turns wishes with soul }
      t.Refused token (t.handle (grant terms h clock token)) := by
  intro hrefused
  have hwishes : ∀ wish ∈ [(⟨1, .broadcast (.subscribe [ascii "a"])⟩ : Wish),
      ⟨2, .broadcast (.subscribe [ascii "b"])⟩], wish.NamesEvents := by
    rw [List.forall_mem_cons, List.forall_mem_singleton]
    constructor
    · exact Wish.namesEvents_subscribe 1 (List.cons_ne_nil _ _)
    · exact Wish.namesEvents_subscribe 2 (List.cons_ne_nil _ _)
  have hsubscribed : ∃ event, (1, event) ∈ Subscriptions.afterAll ∅
      [⟨1, .broadcast (.subscribe [ascii "a"])⟩, ⟨2, .broadcast (.subscribe [ascii "b"])⟩] :=
    ⟨ascii "a", Or.inl (Or.inr ⟨rfl, List.mem_cons_self⟩)⟩
  have hrun := hrefused ∅ _ hwishes Soul.new 1 hsubscribed .unixEpoch
    [ascii "PUBLISH", ascii "b", ascii "m"] (by decide) (by decide)
  obtain ⟨-, decrees, hdecrees, -, herrors⟩ := hrun
  have hsent : decrees = [.broadcast 1 (ascii "b") (ascii "m") [2]] := by
    cases hdecrees
    rfl
  rw [hsent] at herrors
  obtain ⟨sacrilege, hsacrilege⟩ := herrors _ List.mem_cons_self
  cases hsacrilege

end Heaven
