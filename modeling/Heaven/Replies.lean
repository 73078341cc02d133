import Heaven.Lists

/-! # Replies

A turn of the temple sends one decree, addressed to the client of the wish (`turn_isReplyTo`).
With `grant_answers` a command gets one reply, unless it is a LINDEX with a wrong number of terms,
which gets two (`oneReply_iff`).

A reply that is an error has changed nothing: `DropsExpired` is what an erring method may do to
the store, and `error_changes_nothing` is the statement for a command from end to end. -/

namespace Heaven

open Decimal (ascii)
open Grant

/-- The decree answers the client: it is delivered to it, or it publishes for it. -/
def Decree.IsReplyTo (token : Token) : Decree → Prop
  | .deliver gift => gift.token = token
  | .broadcast publisher _ _ _ => publisher = token
  | .welcome _ | .goodbye _ => False

/-- The decree delivers an error. -/
def Decree.isError : Decree → Bool
  | .deliver gift => gift.response.isError
  | _ => false

/-! ### One command, one reply -/

namespace Temple

theorem turn_isReplyTo {t : Temple} {wish : Wish} {decree : Decree}
    (h : (t.turn wish).2 = .ok decree) : decree.IsReplyTo wish.token := by
  obtain ⟨token, _ | _⟩ := wish
  case database cmd =>
    simp only [turn] at h
    split_ifs at h
    · cases h
      rfl
    · cases hr : (database t.soul t.config cmd).2 with
      | error panic => simp [hr, Except.map] at h
      | ok response =>
          simp only [hr, Except.map, Except.ok.injEq] at h
          rw [← h]
          rfl
  case broadcast cmd =>
    cases cmd <;> (cases h; rfl)

theorem handle_toEgress {t : Temple} {decree : Decree} {emissions : List Emission}
    {decrees : List Decree} (h : (t.handle (.toEgress decree :: emissions)).2 = .ok decrees) :
    ∃ rest, decrees = decree :: rest ∧ (t.handle emissions).2 = .ok rest := by
  simp only [handle] at h
  cases hr : (t.handle emissions).2 with
  | error panic => simp [hr, Except.map] at h
  | ok rest =>
      simp only [hr, Except.map, Except.ok.injEq] at h
      exact ⟨rest, h.symm, rfl⟩

theorem handle_pray (t : Temple) (token : Token) (command : ClientCommandType) :
    t.handle (pray token command) = ((t.turn ⟨token, command⟩).1,
      (t.turn ⟨token, command⟩).2.map fun decree => [decree]) := by
  simp only [pray, handle]
  rcases t.turn ⟨token, command⟩ with ⟨t', _ | _⟩ <;> rfl

/-- Handling an answer or a wish. -/
theorem handle_answers {t : Temple} {clock : SystemTime} {token : Token}
    {emissions : List Emission} {decrees : List Decree} (ha : Answers clock token emissions)
    (h : (t.handle emissions).2 = .ok decrees) :
    ∃ decree, decrees = [decree] ∧ decree.IsReplyTo token := by
  obtain ⟨response, rfl⟩ | ⟨command, -, rfl⟩ := ha
  · obtain ⟨rest, rfl, hrest⟩ := handle_toEgress h
    cases hrest
    exact ⟨_, rfl, rfl⟩
  · rw [handle_pray] at h
    cases hturn : (t.turn ⟨token, command⟩).2 with
    | error panic => simp [hturn, Except.map] at h
    | ok decree =>
        simp only [hturn, Except.map, Except.ok.injEq] at h
        exact ⟨decree, h.symm, turn_isReplyTo hturn⟩

end Temple

/-- **A command gets exactly one reply, unless it is LINDEX with a wrong number of terms.** -/
theorem oneReply_iff (t : Temple) (terms : List Bytes) (h : terms ≠ []) (clock : SystemTime)
    (token : Token) {decrees : List Decree}
    (hd : (t.handle (grant terms h clock token)).2 = .ok decrees) :
    (∃ decree, decrees = [decree] ∧ decree.IsReplyTo token) ↔ ¬ MisusesLindex terms h := by
  obtain ⟨rest, hrest, hgrant⟩ := grant_answers terms h clock token
  rw [hgrant] at hd
  by_cases hmisuse : MisusesLindex terms h
  · rw [if_pos hmisuse] at hd
    obtain ⟨decrees', rfl, hd'⟩ := Temple.handle_toEgress hd
    obtain ⟨decree, rfl, -⟩ := Temple.handle_answers hrest hd'
    apply iff_of_false _ (not_not.mpr hmisuse)
    rintro ⟨_, hone, -⟩
    cases hone
  · rw [if_neg hmisuse, List.nil_append] at hd
    exact iff_of_true (Temple.handle_answers hrest hd) hmisuse

/-- LINDEX a, without an index, in a fresh temple: two errors. -/
theorem lindex_replies_twice :
    ¬ ∀ (t : Temple) (terms : List Bytes) (h : terms ≠ []) (clock : SystemTime) (token : Token)
      (decrees : List Decree), (t.handle (grant terms h clock token)).2 = .ok decrees →
      ∃ decree, decrees = [decree] ∧ decree.IsReplyTo token := by
  intro hone
  obtain ⟨_, htwo, -⟩ := hone (Temple.worship ∅) [ascii "LINDEX", ascii "a"] (by decide)
    .unixEpoch 1
    [Temple.deliver 1 (.error (.incorrectNumberOfArguments .lindex)),
      Temple.deliver 1 (.error (.incorrectNumberOfArguments .lindex))] rfl
  cases htwo

/-- PING in a fresh temple. -/
theorem oneReply_ping : ∃ decree,
    [Temple.deliver 1 (.info .pong)] = [decree] ∧ decree.IsReplyTo 1 := by
  apply (oneReply_iff (Temple.worship ∅) [ascii "ping"] (by decide) .unixEpoch 1 rfl).mpr
  decide

/-! ### What an error leaves behind -/

namespace Soul

variable {α ρ : Type} {s s' : Soul} {key : Bytes} {now : ℕ}

/-- `s'` is `s` without some of its expired entries. -/
def DropsExpired (now : ℕ) (s s' : Soul) : Prop :=
  ∀ key, s'.get? key = s.get? key ∨ s'.get? key = (s.get? key).filter (live now)

theorem DropsExpired.refl (now : ℕ) (s : Soul) : DropsExpired now s s := by
  intro key
  exact Or.inl rfl

theorem DropsExpired.purge_eq (h : DropsExpired now s s') : s'.purge now = s.purge now := by
  apply Dict.ext
  intro key
  rw [get?_purge, get?_purge]
  obtain hkey | hkey := h key
  · rw [hkey]
  · rw [hkey, Dict.option_filter_filter]

/-- What is physically gone had expired. -/
theorem DropsExpired.gone (h : DropsExpired now s s') (key : Bytes) :
    s'.get? key = s.get? key ∨ s'.get? key = none ∧
      ∃ value expiry, s.get? key = some (value, expiry) ∧ isExpired expiry now = true := by
  rcases hs : s.get? key with _ | ⟨value, expiry⟩
  · exact Or.inl (by simpa [hs] using h key)
  · have hkey := h key
    rw [hs, filter_live_some] at hkey
    by_cases he : isExpired expiry now = true
    · rw [if_pos he] at hkey
      exact hkey.imp_right fun hnone => ⟨hnone, value, expiry, rfl, he⟩
    · rw [if_neg he, or_self] at hkey
      exact Or.inl hkey

/-- A cell operation that leaves a live cell alone. -/
theorem dropsExpired_onLive {g : Option Entry → Option Entry × ρ}
    (h : (g ((s.get? key).filter (live now))).1 = (s.get? key).filter (live now)) :
    DropsExpired now s (s.onLive key now g).1 := by
  intro key'
  by_cases hkey : key' = key
  · right
    have hself := Dict.onCell_get?_self s key fun o => g (o.filter (live now))
    rw [h] at hself
    rw [hkey]
    exact hself
  · left
    exact Dict.onCell_get?_ne s _ hkey

theorem dropsExpired_query (s : Soul) (key : Bytes) (now : ℕ) (view : Value → Option α)
    (wrongType absent : ρ) (found : α → ρ) :
    DropsExpired now s (s.query key now view wrongType absent found).1 := by
  rw [query_eq_onLive]
  exact dropsExpired_onLive (queryCell_fst _ _ _ _ _)

/-- A writing method that refuses has not written, if its branches do not. -/
theorem updateCell_refused {view : Value → Option α} {wrap : α → Value} {wrongType : ρ}
    {absent : Option Entry × ρ} {found : α → α × ρ} {refusal : ρ}
    (hview : ∀ v x, view v = some x ↔ v = wrap x)
    (ha : absent.2 = refusal → absent.1 = none) (hf : ∀ x, (found x).2 = refusal → (found x).1 = x)
    {o : Option Entry} (h : (updateCell view wrap wrongType absent found o).2 = refusal) :
    (updateCell view wrap wrongType absent found o).1 = o := by
  rcases o with _ | ⟨value, expiry⟩
  · exact ha h
  · simp only [updateCell] at h ⊢
    cases hx : view value with
    | none => rfl
    | some x =>
        rw [hx] at h
        simp only [hf x h, (hview value x).mp hx]

/-- The counters refuse before they write. -/
theorem addToText_refused {cmd : Command} {delta : ℤ} {text : Bytes} {sacrilege : Sacrilege}
    (h : (addToText cmd delta text).2 = .error sacrilege) :
    (addToText cmd delta text).1 = text := by
  unfold addToText at h ⊢
  cases hnumber : bytesToI64 text with
  | error sin => rfl
  | ok number =>
      rw [hnumber] at h
      cases hsum : checkedAddI64 number delta with
      | none => simp only [hsum]
      | some sum =>
          simp only [hsum] at h
          cases h

theorem lsetList_refused {index : ℤ} {element : Bytes} {list : List Bytes} {sacrilege : Sacrilege}
    (h : (lsetList index element list).2 = .ok (.error sacrilege)) :
    (lsetList index element list).1 = list := by
  unfold lsetList at h ⊢
  dsimp only at h ⊢
  split_ifs at h ⊢
  · rfl
  · cases h

theorem popCell_refused {cmd : Command} {absent : ρ} {pop : List Bytes → List Bytes × ρ}
    {o : Option Entry} {sacrilege : Sacrilege}
    (h : (popCell now cmd absent pop o).2 = .error sacrilege) :
    (popCell now cmd absent pop o).1 = o := by
  rcases o with _ | ⟨_ | list | _ | _, expiry⟩
  · cases h
  · rfl
  · simp only [popCell] at h
    split_ifs at h
  · rfl
  · rfl

theorem popWith_refused (cmd : Command) (absent : ρ) (pop : List Bytes → List Bytes × ρ)
    {sacrilege : Sacrilege} (h : (s.popWith key now cmd absent pop).2 = .error sacrilege) :
    (s.popWith key now cmd absent pop).1 = s := by
  rw [popWith_eq_onCell] at h ⊢
  simp only [Dict.onCell, popCell_refused h, Dict.put_get?]

theorem sremCell_refused {values : List Bytes} {o : Option Entry} {sacrilege : Sacrilege}
    (h : (sremCell values o).2 = .error sacrilege) : (sremCell values o).1 = o := by
  rcases o with _ | ⟨_ | _ | _ | set, expiry⟩
  · cases h
  · rfl
  · rfl
  · rfl
  · cases h

theorem respond_error {answer : α → Response} (hanswer : ∀ x, (answer x).isError = false)
    {called : Soul × Except Sacrilege α} {response : Response}
    (h : (respond answer called).2 = .ok response) (herr : response.isError = true) :
    ∃ sacrilege, called.2 = .error sacrilege := by
  cases hcalled : called.2 with
  | error sacrilege => exact ⟨sacrilege, rfl⟩
  | ok x =>
      simp only [respond, hcalled, replyTo, Except.ok.injEq] at h
      rw [← h, hanswer x] at herr
      cases herr

theorem respondOrPanic_error {answer : α → Response} (hanswer : ∀ x, (answer x).isError = false)
    {called : Soul × Except Panic (Except Sacrilege α)} {response : Response}
    (h : (respondOrPanic answer called).2 = .ok response) (herr : response.isError = true) :
    ∃ sacrilege, called.2 = .ok (.error sacrilege) := by
  rcases hcalled : called.2 with panic | sacrilege | x
  · simp [respondOrPanic, hcalled, Except.map] at h
  · exact ⟨sacrilege, rfl⟩
  · simp only [respondOrPanic, hcalled, replyTo, Except.map, Except.ok.injEq] at h
    rw [← h, hanswer x] at herr
    cases herr

theorem dropsExpired_update {view : Value → Option α} {wrap : α → Value} {wrongType : ρ}
    {absent : Option Entry × ρ} {found : α → α × ρ} {refusal : ρ}
    (h : (s.onLive key now (updateCell view wrap wrongType absent found)).2 = refusal)
    (hview : ∀ v x, view v = some x ↔ v = wrap x) (ha : absent.2 = refusal → absent.1 = none)
    (hf : ∀ x, (found x).2 = refusal → (found x).1 = x) :
    DropsExpired now s (s.onLive key now (updateCell view wrap wrongType absent found)).1 :=
  dropsExpired_onLive (updateCell_refused hview ha hf h)

theorem dropsExpired_addCell {cmd : Command} {delta : ℤ} {sacrilege : Sacrilege}
    (h : (s.onLive key now (addCell cmd delta)).2 = .error sacrilege) :
    DropsExpired now s (s.onLive key now (addCell cmd delta)).1 := by
  apply dropsExpired_update h (fun _ _ => string?_eq_some)
  · intro hok
    cases hok
  · intro _
    exact addToText_refused

/-- A method that drops expired entries at most when it refuses does so when it is answered with
an error. -/
theorem respond_dropsExpired {answer : α → Response} (hanswer : ∀ x, (answer x).isError = false)
    {called : Soul × Except Sacrilege α} {response : Response}
    (h : (respond answer called).2 = .ok response) (herr : response.isError = true)
    (hrefused : ∀ sacrilege, called.2 = .error sacrilege → DropsExpired now s called.1) :
    DropsExpired now s (respond answer called).1 := by
  obtain ⟨sacrilege, hcalled⟩ := respond_error hanswer h herr
  exact hrefused sacrilege hcalled

theorem respondOrPanic_dropsExpired {answer : α → Response}
    (hanswer : ∀ x, (answer x).isError = false)
    {called : Soul × Except Panic (Except Sacrilege α)} {response : Response}
    (h : (respondOrPanic answer called).2 = .ok response) (herr : response.isError = true)
    (hrefused : ∀ sacrilege, called.2 = .ok (.error sacrilege) → DropsExpired now s called.1) :
    DropsExpired now s (respondOrPanic answer called).1 := by
  obtain ⟨sacrilege, hcalled⟩ := respondOrPanic_error hanswer h herr
  exact hrefused sacrilege hcalled

/-- A method that refuses only what is of the wrong type. -/
theorem respond_wrongType {answer : α → Response} (hanswer : ∀ x, (answer x).isError = false)
    {called : Soul × Except Sacrilege α} {view : Value → Option β} {wrap : β → Value}
    {wrongType : Except Sacrilege α} {absent : Option Entry × Except Sacrilege α}
    {found : β → β × Except Sacrilege α}
    (hcalled : called = s.onLive key now (updateCell view wrap wrongType absent found))
    (hview : ∀ v x, view v = some x ↔ v = wrap x) (habsent : absent.2.isOk = true)
    (hfound : ∀ x, (found x).2.isOk = true) {response : Response}
    (h : (respond answer called).2 = .ok response) (herr : response.isError = true) :
    DropsExpired now s (respond answer called).1 := by
  apply respond_dropsExpired hanswer h herr
  intro sacrilege hrefused
  rw [hcalled] at hrefused ⊢
  apply dropsExpired_update hrefused hview
  · intro hnone
    rw [hnone] at habsent
    cases habsent
  · intro x hx
    have hok := hfound x
    rw [hx] at hok
    cases hok

/-- **A store command answered with an error has dropped expired entries at most.** -/
theorem database_error (s : Soul) (config : Config) {cmd : DatabaseCommand} {time : ℕ}
    (ht : ∀ time', cmd.time? = some time' → time' = time) {response : Response}
    (h : (database s config cmd).2 = .ok response) (herr : response.isError = true) :
    DropsExpired time s (database s config cmd).1 := by
  cases cmd
  case set | del | «exists» | expire | mset | mget | configGet => cases h; cases herr
  case ttl key now =>
    simp only [database] at h
    cases hn : (s.ttl key now).2 with
    | error panic => simp [hn, Except.map] at h
    | ok n =>
        simp only [hn, Except.map, Except.ok.injEq] at h
        rw [← h] at herr
        cases herr
  all_goals obtain rfl := ht _ rfl
  case get | strlen | hget | hmget | hexists | hlen | llen | lrange | lindex | sismember
      | hgetall | smembers =>
    exact dropsExpired_query s _ _ _ _ _ _
  case lpop key _ | lpopM key _ _ | rpop key _ | rpopM key _ _ =>
    apply respond_dropsExpired (fun _ => rfl) h herr
    intro sacrilege hrefused
    have hsame := popWith_refused _ _ _ hrefused
    exact hsame.symm ▸ DropsExpired.refl _ s
  case append key value time =>
    have hcell := append_eq_onLive s key value time
    exact respond_wrongType (fun _ => rfl) hcell (fun _ _ => string?_eq_some) rfl (fun _ => rfl)
      h herr
  case incr key _ | incrby key _ _ | decr key _ =>
    apply respond_dropsExpired (fun _ => rfl) h herr
    intro sacrilege hrefused
    simp only [incr_eq_onLive, incrby_eq_onLive, decr_eq_onLive] at hrefused ⊢
    exact dropsExpired_addCell hrefused
  case hset key pairs time =>
    have hcell := hset_eq_onLive s key pairs time
    exact respond_wrongType (fun _ => rfl) hcell (fun _ _ => hash?_eq_some) rfl (fun _ => rfl)
      h herr
  case hdel key fields time =>
    have hcell := hdel_eq_onLive s key fields time
    exact respond_wrongType (fun _ => rfl) hcell (fun _ _ => hash?_eq_some) rfl (fun _ => rfl)
      h herr
  case lpush key elements time =>
    have hcell := lpush_eq_onLive s key elements time
    exact respond_wrongType (fun _ => rfl) hcell (fun _ _ => list?_eq_some) rfl (fun _ => rfl)
      h herr
  case rpush key elements time =>
    have hcell := rpush_eq_onLive s key elements time
    exact respond_wrongType (fun _ => rfl) hcell (fun _ _ => list?_eq_some) rfl (fun _ => rfl)
      h herr
  case sadd key values time =>
    have hcell := sadd_eq_onLive s key values time
    exact respond_wrongType (fun _ => rfl) hcell (fun _ _ => set?_eq_some) rfl (fun _ => rfl)
      h herr
  case lset key index element time =>
    apply respondOrPanic_dropsExpired (fun _ => rfl) h herr
    intro sacrilege hrefused
    rw [lset_eq_onLive] at hrefused ⊢
    apply dropsExpired_update hrefused (fun _ _ => list?_eq_some)
    · intro _
      rfl
    · intro _
      exact lsetList_refused
  case lrem key count element time =>
    apply respondOrPanic_dropsExpired (fun _ => rfl) h herr
    intro sacrilege hrefused
    rw [lrem_eq_onLive] at hrefused ⊢
    apply dropsExpired_update hrefused (fun _ _ => list?_eq_some)
    · intro _
      rfl
    · intro list hlist
      obtain ⟨-, removed, hremoved⟩ := lremList_ok count element list
      cases hremoved.symm.trans hlist
  case srem key values time =>
    apply respond_dropsExpired (fun _ => rfl) h herr
    intro sacrilege hrefused
    rw [srem_eq_onLive] at hrefused ⊢
    exact dropsExpired_onLive (sremCell_refused hrefused)

end Soul

/-! ### From end to end -/

/-- `t'` is `t`, but for entries of the store that had expired at `now`: the live store and the
subscriptions are the same. -/
structure Untouched (now : ℕ) (t t' : Temple) : Prop where
  live_eq : t'.soul.purge now = t.soul.purge now
  gone : ∀ key, t'.soul.get? key = t.soul.get? key ∨ t'.soul.get? key = none ∧
    ∃ value expiry, t.soul.get? key = some (value, expiry) ∧ Soul.isExpired expiry now = true
  clientMap_eq : t'.clientMap = t.clientMap
  eventMap_eq : t'.eventMap = t.eventMap
  subscribedClients_eq : t'.subscribedClients = t.subscribedClients

theorem untouched_of_dropsExpired {t : Temple} {now : ℕ} {soul : Soul}
    (h : Soul.DropsExpired now t.soul soul) : Untouched now t { t with soul } :=
  ⟨h.purge_eq, h.gone, rfl, rfl, rfl⟩

theorem Untouched.refl (now : ℕ) (t : Temple) : Untouched now t t :=
  untouched_of_dropsExpired (Soul.DropsExpired.refl now t.soul)

namespace Temple

variable {t : Temple} {clock : SystemTime} {token : Token}

/-- A turn that ends in an error. -/
theorem turn_error {wish : Wish} {decree : Decree} (ha : Accepts clock wish.command)
    (h : (t.turn wish).2 = .ok decree) (herr : decree.isError = true) :
    Untouched clock.unixSecs t (t.turn wish).1 := by
  obtain ⟨token, _ | _⟩ := wish
  case database cmd =>
    simp only [turn] at h ⊢
    split_ifs at h ⊢
    · exact Untouched.refl _ t
    · cases hr : (database t.soul t.config cmd).2 with
      | error panic => simp [hr, Except.map] at h
      | ok response =>
          simp only [hr, Except.map, Except.ok.injEq] at h
          rw [← h] at herr
          exact untouched_of_dropsExpired (Soul.database_error t.soul t.config ha.2.1 hr herr)
  case broadcast cmd =>
    cases cmd <;> (cases h; cases herr)

/-- A turn that reads an element, whatever it answers. -/
theorem turn_lindex (t : Temple) (token : Token) (key : Bytes) (index : ℤ) (time : ℕ) :
    Untouched time t (t.turn ⟨token, .database (.lindex key index time)⟩).1 := by
  simp only [turn]
  split_ifs
  · exact Untouched.refl _ t
  · exact untouched_of_dropsExpired (Soul.dropsExpired_query t.soul key time _ _ _ _)

theorem handle_asksElement {emissions : List Emission} (ha : AsksElement clock token emissions) :
    Untouched clock.unixSecs t (t.handle emissions).1 := by
  obtain ⟨response, rfl⟩ | ⟨key, index, -, rfl⟩ := ha
  · exact Untouched.refl _ t
  · rw [handle_pray]
    exact turn_lindex t token key index _

theorem handle_error {emissions : List Emission} {decrees : List Decree}
    (ha : Answers clock token emissions) (h : (t.handle emissions).2 = .ok decrees)
    (herr : ∃ decree ∈ decrees, decree.isError = true) :
    Untouched clock.unixSecs t (t.handle emissions).1 := by
  obtain ⟨response, rfl⟩ | ⟨command, haccepts, rfl⟩ := ha
  · exact Untouched.refl _ t
  · rw [handle_pray] at h ⊢
    cases hturn : (t.turn ⟨token, command⟩).2 with
    | error panic => simp [hturn, Except.map] at h
    | ok decree =>
        simp only [hturn, Except.map, Except.ok.injEq] at h
        obtain ⟨_, hmem, herr⟩ := herr
        rw [← h, List.mem_singleton] at hmem
        rw [hmem] at herr
        exact turn_error haccepts hturn herr

end Temple

/-- **A command answered with an error changes nothing: the live store, the subscriptions and the
set of subscribers stay, and only entries that had expired may go.** -/
theorem error_changes_nothing (t : Temple) (terms : List Bytes) (h : terms ≠ [])
    (clock : SystemTime) (token : Token) {decrees : List Decree}
    (hd : (t.handle (grant terms h clock token)).2 = .ok decrees)
    (herr : ∃ decree ∈ decrees, decree.isError = true) :
    Untouched clock.unixSecs t (t.handle (grant terms h clock token)).1 := by
  by_cases hmisuse : MisusesLindex terms h
  · -- the arity error of LINDEX is followed by a wish that only reads
    obtain ⟨rest, hrest, hgrant⟩ := grant_misused hmisuse clock token
    rw [hgrant]
    show Untouched _ t (t.handle rest).1
    exact Temple.handle_asksElement hrest
  · exact Temple.handle_error (grant_used hmisuse clock token) hd herr

/-- INCR of a text that is no number. -/
theorem error_changes_nothing_incr :
    Untouched 0 { Temple.worship ∅ with soul := Soul.new.set (ascii "k") (.string [], none) }
      (Temple.handle { Temple.worship ∅ with soul := Soul.new.set (ascii "k") (.string [], none) }
        (grant [ascii "INCR", ascii "k"] (by decide)
          .unixEpoch 1)).1 := by
  have hd : (Temple.handle
      { Temple.worship ∅ with soul := Soul.new.set (ascii "k") (.string [], none) }
      (grant [ascii "INCR", ascii "k"] (by decide)
        .unixEpoch 1)).2 =
      .ok [Temple.deliver 1 (.error (.incorrectUsage .incr))] := rfl
  exact error_changes_nothing _ _ _ .unixEpoch 1 hd
    ⟨_, List.mem_singleton_self _, rfl⟩

end Heaven
