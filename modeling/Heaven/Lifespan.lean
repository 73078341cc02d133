import Heaven.Expiry
import Heaven.Lib.Cellwise
import Heaven.Replies
import Heaven.Safety
import Heaven.SubscriberMode

/-! # How long a key lives

SET with EX and EXPIRE store the clock plus the requested seconds.  The sum is formed in the
handler (`Writer.message`) and compared with the clock by every method of the store.  `Honours` says
what a method at the second `t` should make of the key, with any reads between the writer and the
method: until the deadline the key holds its value, and the method cannot tell the store from one in
which the key lives forever; after it the method cannot tell the store from one without the key.

`honours_iff` says exactly when it is so: the sum has to fit in 64 bits, no TTL may come inside the
second of the deadline and take the key away before that second is over, no TTL may panic, and the
method must not be a pop that meets the expired value of another kind. -/

namespace Heaven

open Decimal (ascii)

namespace Soul

open Dict (Respects Cellwise)

variable {α β ρ : Type} {t : ℕ}

/-! ### Values without their deadlines -/

/-- The cells hold the same live value, or none; the deadlines may differ. -/
def SameValue (t : ℕ) (o o' : Option Entry) : Prop :=
  (o.filter (live t)).map Prod.fst = (o'.filter (live t)).map Prod.fst

theorem SameValue.refl (o : Option Entry) : SameValue t o o := rfl

theorem sameValue_of_live {value : Value} {expiry expiry' : Option ℕ}
    (h : isExpired expiry t = false) (h' : isExpired expiry' t = false) :
    SameValue t (some (value, expiry)) (some (value, expiry')) := by
  unfold SameValue
  rw [filter_live_some, filter_live_some, h, h']
  rfl

/-- A function on live cells cannot tell deadlines apart if it cannot on live entries. -/
theorem respects_live {g : Option Entry → Option Entry × ρ}
    (h : ∀ value expiry expiry', isExpired expiry t = false → isExpired expiry' t = false →
      (g (some (value, expiry))).2 = (g (some (value, expiry'))).2 ∧
        SameValue t (g (some (value, expiry))).1 (g (some (value, expiry'))).1) :
    Respects (SameValue t) fun o => g (o.filter (live t)) := by
  intro o o' hsame
  dsimp only
  unfold SameValue at hsame
  cases ho : o.filter (live t) with
  | none =>
      rw [ho, Option.map_none, eq_comm, Option.map_eq_none_iff] at hsame
      rw [hsame]
      exact ⟨rfl, rfl⟩
  | some entry =>
      obtain ⟨value, expiry⟩ := entry
      rw [ho, Option.map_some, eq_comm, Option.map_eq_some_iff] at hsame
      obtain ⟨⟨value', expiry'⟩, ho', rfl⟩ := hsame
      have hlive := (Option.filter_eq_some_iff.mp ho).2
      have hlive' := (Option.filter_eq_some_iff.mp ho').2
      rw [live, Bool.not_eq_true'] at hlive hlive'
      rw [ho']
      exact h _ expiry expiry' hlive hlive'

theorem respects_onLive {op : Soul → Soul × ρ} {key : Bytes} {g : Option Entry → Option Entry × ρ}
    (hop : ∀ s : Soul, op s = s.onLive key t g)
    (h : ∀ value expiry expiry', isExpired expiry t = false → isExpired expiry' t = false →
      (g (some (value, expiry))).2 = (g (some (value, expiry'))).2 ∧
        SameValue t (g (some (value, expiry))).1 (g (some (value, expiry'))).1) :
    Respects (Cellwise (SameValue t)) op := by
  rw [funext hop]
  exact Dict.onCell_respects (respects_live h) key

theorem respects_query (key : Bytes) (view : Value → Option α) (wrongType absent : ρ)
    (found : α → ρ) :
    Respects (Cellwise (SameValue t)) fun s : Soul =>
      s.query key t view wrongType absent found := by
  apply respects_onLive fun s => query_eq_onLive s _ _ _ _ _ _
  intro value expiry expiry' h h'
  exact ⟨rfl, sameValue_of_live h h'⟩

theorem respects_updateCell {op : Soul → Soul × ρ} {key : Bytes} {view : Value → Option α}
    {wrap : α → Value} {wrongType : ρ} {absent : Option Entry × ρ} {found : α → α × ρ}
    (hop : ∀ s : Soul, op s = s.onLive key t (updateCell view wrap wrongType absent found)) :
    Respects (Cellwise (SameValue t)) op := by
  apply respects_onLive hop
  intro value expiry expiry' h h'
  simp only [updateCell]
  cases view value with
  | none => exact ⟨rfl, sameValue_of_live h h'⟩
  | some x => exact ⟨rfl, sameValue_of_live h h'⟩

theorem respects_srem (key : Bytes) (values : List Bytes) :
    Respects (Cellwise (SameValue t)) fun s : Soul => s.srem key values t := by
  apply respects_onLive fun s => srem_eq_onLive s _ _ _
  intro value expiry expiry' h h'
  cases value with
  | set set =>
      unfold sremCell
      dsimp only
      split_ifs
      · exact ⟨rfl, rfl⟩
      · exact ⟨rfl, sameValue_of_live h h'⟩
  | string _ | list _ | hash _ => exact ⟨rfl, sameValue_of_live h h'⟩

theorem respects_expire (key : Bytes) (deadline : ℕ) :
    Respects (Cellwise (SameValue t)) fun s : Soul => s.expire key deadline t := by
  apply respects_onLive fun s => expire_eq_onLive s _ _ _
  intro value expiry expiry' _ _
  exact ⟨rfl, rfl⟩

theorem respects_getValidValue (key : Bytes) :
    Respects (Cellwise (SameValue t)) fun s : Soul => s.getValidValue key t := by
  apply respects_onLive fun s => getValidValue_eq_onLive s _ _
  intro value expiry expiry' h h'
  exact ⟨rfl, sameValue_of_live h h'⟩

theorem respects_removeValidValue (key : Bytes) :
    Respects (Cellwise (SameValue t)) fun s : Soul => s.removeValidValue key t := by
  apply respects_onLive fun s => removeValidValue_eq_onLive s _ _
  intro value expiry expiry' _ _
  exact ⟨rfl, rfl⟩

theorem respects_forKeys {R : Soul → Soul → Prop} {access : Soul → Bytes → Soul × Option Value}
    (h : ∀ key, Respects R fun s => access s key) (visit : β → Option Value → β)
    (keys : List Bytes) (acc : β) : Respects R fun s => forKeys access visit s acc keys := by
  induction keys generalizing acc with
  | nil =>
      intro s s' hs
      exact ⟨rfl, hs⟩
  | cons key keys ih => exact Dict.respects_bind (h key) fun value => ih (visit acc value)

theorem respects_mget (terms : List Bytes) :
    Respects (Cellwise (SameValue t)) fun s : Soul => s.mget terms t := by
  intro s s' hs
  have hloop := respects_forKeys respects_getValidValue
    (fun result value => result ++ [value.bind Value.string?]) terms [] s s' hs
  exact ⟨congrArg some hloop.1, hloop.2⟩

/-- **A method that is no pop cannot tell deadlines apart that have not passed.** -/
theorem Method.respects (m : Method ρ) (hnow : m.now? = some t) (hpop : m.popKey? = none) :
    Respects (Cellwise (SameValue t)) m.run := by
  cases m <;> cases hnow
  case get | strlen | hget | hmget | hexists | hlen | hgetall | llen | lrange | lindex
      | sismember | smembers =>
    exact respects_query _ _ _ _ _
  case append => exact respects_updateCell fun s => append_eq_onLive s _ _ _
  case incr => exact respects_updateCell fun s => incr_eq_onLive s _ _
  case incrby => exact respects_updateCell fun s => incrby_eq_onLive s _ _ _
  case decr => exact respects_updateCell fun s => decr_eq_onLive s _ _
  case del => exact respects_forKeys respects_removeValidValue _ _ _
  case «exists» => exact respects_forKeys respects_getValidValue _ _ _
  case hset => exact respects_updateCell fun s => hset_eq_onLive s _ _ _
  case hdel => exact respects_updateCell fun s => hdel_eq_onLive s _ _ _
  case lpush => exact respects_updateCell fun s => lpush_eq_onLive s _ _ _
  case rpush => exact respects_updateCell fun s => rpush_eq_onLive s _ _ _
  case lset => exact respects_updateCell fun s => lset_eq_onLive s _ _ _ _
  case lrem => exact respects_updateCell fun s => lrem_eq_onLive s _ _ _ _
  case expire => exact respects_expire _ _
  case mget => exact respects_mget _
  case sadd => exact respects_updateCell fun s => sadd_eq_onLive s _ _ _
  case srem => exact respects_srem _ _
  case lpop | lpopM | rpop | rpopM => cases hpop

/-! ### The pops -/

/-- A pop cannot tell two cells apart that hold the same live value, or the same entry, if neither
holds an expired value of another kind. -/
theorem popCell_sameValue {cmd : Command} {absent : ρ} {pop : List Bytes → List Bytes × ρ}
    {o o' : Option Entry} (h : SameValue t o o')
    (ho : ∀ value expiry, o = some (value, expiry) → isExpired expiry t = true →
      value.list? ≠ none)
    (ho' : ∀ value expiry, o' = some (value, expiry) → isExpired expiry t = true →
      value.list? ≠ none) :
    (popCell t cmd absent pop o).2 = (popCell t cmd absent pop o').2 ∧
      SameValue t (popCell t cmd absent pop o).1 (popCell t cmd absent pop o').1 := by
  rw [popCell_filter t cmd absent pop ho, popCell_filter t cmd absent pop ho']
  apply respects_live (g := popCell t cmd absent pop) _ _ _ h
  intro value expiry expiry' hlive hlive'
  cases value with
  | list list =>
      simp only [popCell, hlive, hlive', Bool.false_eq_true, if_false]
      split_ifs
      · exact ⟨trivial, rfl⟩
      · exact ⟨trivial, sameValue_of_live hlive hlive'⟩
  | string _ | hash _ | set _ => exact ⟨rfl, sameValue_of_live hlive hlive'⟩

/-- What a method answers and the live values it leaves are the same in both stores. -/
def CannotTell (m : Method ρ) (t : ℕ) (s s' : Soul) : Prop :=
  (m.run s).2 = (m.run s').2 ∧ Cellwise (SameValue t) (m.run s).1 (m.run s').1

theorem popWith_cannotTell {s s' : Soul} {key : Bytes} {cmd : Command} {absent : ρ}
    {pop : List Bytes → List Bytes × ρ} (h : Cellwise (SameValue t) s s')
    (hkey : s.get? key = s'.get? key ∨ ¬ s.ExpiredOther key t ∧ ¬ s'.ExpiredOther key t) :
    (s.popWith key t cmd absent pop).2 = (s'.popWith key t cmd absent pop).2 ∧
      Cellwise (SameValue t) (s.popWith key t cmd absent pop).1
        (s'.popWith key t cmd absent pop).1 := by
  rw [popWith_eq_onCell, popWith_eq_onCell]
  have hcell : (popCell t cmd absent pop (s.get? key)).2 =
        (popCell t cmd absent pop (s'.get? key)).2 ∧
      SameValue t (popCell t cmd absent pop (s.get? key)).1
        (popCell t cmd absent pop (s'.get? key)).1 := by
    obtain hsame | ⟨hs, hs'⟩ := hkey
    · rw [hsame]
      exact ⟨rfl, rfl⟩
    · apply popCell_sameValue (h key)
      · intro value expiry hentry hexpired hlist
        exact hs ⟨value, expiry, hentry, hexpired, hlist⟩
      · intro value expiry hentry hexpired hlist
        exact hs' ⟨value, expiry, hentry, hexpired, hlist⟩
  exact ⟨hcell.1, Dict.cellwise_put h hcell.2 key⟩

/-- **What a method makes of a store is a matter of its live values**, unless it pops an expired
value of another kind. -/
theorem cannotTell (m : Method ρ) (hnow : m.now? = some t) {s s' : Soul}
    (h : Cellwise (SameValue t) s s')
    (hpop : ∀ key, m.popKey? = some key →
      s.get? key = s'.get? key ∨ ¬ s.ExpiredOther key t ∧ ¬ s'.ExpiredOther key t) :
    CannotTell m t s s' := by
  cases hkey : m.popKey? with
  | none => exact m.respects hnow hkey s s' h
  | some key =>
      have hcells := hpop key hkey
      cases m <;> cases hkey <;> cases hnow <;> exact popWith_cannotTell h hcells

/-- A pop tells an expired value of another kind from no value. -/
theorem popWith_tells {s : Soul} {key : Bytes} {cmd : Command} {absent : ρ}
    {pop : List Bytes → List Bytes × ρ} (h : s.ExpiredOther key t) :
    (s.popWith key t cmd absent pop).2 ≠ (popWith (s.put key none) key t cmd absent pop).2 := by
  obtain ⟨value, expiry, hentry, -, hlist⟩ := h
  rw [popWith_eq_onCell, popWith_eq_onCell]
  simp only [Dict.onCell, Dict.get?_put_self, hentry]
  rw [popCell_expired_other t cmd absent pop expiry hlist]
  intro hsame
  cases hsame

theorem tells_expiredOther (m : Method ρ) (hnow : m.now? = some t) {s : Soul} {key : Bytes}
    (hpop : m.popKey? = some key) (h : s.ExpiredOther key t) :
    ¬ CannotTell m t s (s.put key none) := by
  rintro ⟨hsame, -⟩
  cases m <;> cases hpop <;> cases hnow <;> exact popWith_tells h hsame

/-! ### Reads -/

theorem DropsExpired.trans {s s' s'' : Soul} (h : DropsExpired t s s')
    (h' : DropsExpired t s' s'') : DropsExpired t s s'' := by
  intro key
  obtain hkey | hkey := h key
  · rw [← hkey]
    exact h' key
  · right
    obtain hkey' | hkey' := h' key
    · rw [hkey', hkey]
    · rw [hkey', hkey, Dict.option_filter_filter]

/-- What has expired stays expired. -/
theorem isExpired_mono {expiry : Option ℕ} {now : ℕ} (hle : now ≤ t)
    (h : isExpired expiry now = true) : isExpired expiry t = true := by
  cases expiry with
  | none => cases h
  | some expiry =>
      have hlt : expiry < now := of_decide_eq_true h
      exact decide_eq_true (by omega)

theorem DropsExpired.mono {s s' : Soul} {now : ℕ} (hle : now ≤ t) (h : DropsExpired now s s') :
    DropsExpired t s s' := by
  intro key
  obtain hkey | ⟨hnone, value, expiry, hs, hexpired⟩ := h.gone key
  · exact Or.inl hkey
  · right
    rw [hnone, hs, filter_live_some, if_pos (isExpired_mono hle hexpired)]

theorem dropsExpired_forKeys (visit : β → Option Value → β) (keys : List Bytes) (s : Soul)
    (acc : β) :
    DropsExpired t s (forKeys (fun s key => s.getValidValue key t) visit s acc keys).1 := by
  induction keys generalizing s acc with
  | nil => exact DropsExpired.refl t s
  | cons key keys ih =>
      have hfirst : DropsExpired t s (s.getValidValue key t).1 := by
        rw [getValidValue_eq_onLive]
        exact dropsExpired_onLive rfl
      exact hfirst.trans (ih _ _)

/-- TTL takes an entry away once the instant of its deadline has passed, be it in the same
second. -/
theorem ttlCell_gone (time : SystemTime) (o : Option Entry) :
    (ttlCell time o).1 = o ∨ (ttlCell time o).1 = none ∧
      ∃ value expiry, o = some (value, some expiry) ∧
        ((expiry : ℤ) < time.secs ∨ (expiry : ℤ) = time.secs ∧ time.nanos ≠ 0) := by
  rcases o with _ | ⟨value, _ | expiry⟩
  · exact .inl rfl
  · exact .inl rfl
  · by_cases hfit : expiry ≤ SystemTime.maxSecs
    · obtain ⟨deadline, hdeadline, hsecs, hnanos⟩ := epochPlus_eq expiry hfit
      simp only [ttlCell, hdeadline]
      split_ifs with hbefore
      · refine .inr ⟨rfl, value, expiry, rfl, ?_⟩
        rw [SystemTime.before, decide_eq_true_iff, hsecs, hnanos] at hbefore
        omega
      · rw [SystemTime.durationSince, if_neg hbefore]
        exact .inl rfl
    · simp only [ttlCell, epochPlus_error expiry hfit]
      exact .inl trivial

end Soul

/-- The command writes no value and sets no deadline. -/
def DatabaseCommand.isRead : DatabaseCommand → Bool
  | .get _ _ | .strlen _ _ | .exists _ _ | .hget _ _ _ | .hmget _ _ _ | .hexists _ _ _ | .hlen _ _
  | .hgetall _ _ | .llen _ _ | .lrange _ _ _ _ | .lindex _ _ _ | .ttl _ _ | .mget _ _
  | .sismember _ _ _ | .smembers _ _ | .configGet _ => true
  | _ => false

/-- A read that comes in the second `t` or before. -/
structure Reads (t : ℕ) (cmd : DatabaseCommand) : Prop where
  isRead : cmd.isRead = true
  wellFormed : cmd.WellFormed
  time : ∀ time, cmd.time? = some time → time ≤ t
  clock : ∀ key time, cmd = .ttl key time → time.unixSecs ≤ t

/-- A TTL on the key inside the second of its deadline, when this second has already begun. -/
def TakesEarly (key : Bytes) (deadline : ℕ) (cmd : DatabaseCommand) : Prop :=
  ∃ time, cmd = .ttl key time ∧ time.secs = deadline ∧ time.nanos ≠ 0

section Reads

open Runs Soul

variable {s s' : Soul} {config : Config} {cmd : DatabaseCommand} {t : ℕ} {key : Bytes}
  {value : Value} {deadline : ℕ}

/-- A read that is no TTL takes expired entries away and leaves the others. -/
theorem dropsExpired_of_reads (h : Reads t cmd) (hne : ∀ key time, cmd ≠ .ttl key time) :
    DropsExpired t s (database s config cmd).1 := by
  have hread := h.isRead
  cases cmd <;> cases hread
  case configGet => exact DropsExpired.refl t s
  case ttl key time => exact absurd rfl (hne key time)
  all_goals refine DropsExpired.mono (h.time _ rfl) ?_
  case «exists» | mget => exact dropsExpired_forKeys _ _ s _
  all_goals exact dropsExpired_query s _ _ _ _ _ _

/-- **What a read makes of a cell**: it leaves it, or takes an entry away that has expired at the
second `t` or that is taken early. -/
theorem cell_of_read (h : Reads t cmd) (hstep : execute config s cmd = .ok s') :
    s'.get? key = s.get? key ∨ s'.get? key = none ∧
      ∃ value expiry, s.get? key = some (value, some expiry) ∧
        (expiry < t ∨ TakesEarly key expiry cmd) := by
  obtain ⟨rfl, -⟩ := execute_eq_ok.mp hstep
  by_cases httl : ∃ key' time, cmd = .ttl key' time
  · obtain ⟨key', time, rfl⟩ := httl
    have hclock : time.unixSecs ≤ t := h.clock key' time rfl
    show (s.ttl key' time).1.get? key = _ ∨ (s.ttl key' time).1.get? key = none ∧ _
    rw [ttl_eq_onCell]
    by_cases hkey : key = key'
    · subst hkey
      rw [Dict.onCell_get?_self]
      obtain hsame | ⟨hnone, value, expiry, hentry, hgone⟩ := ttlCell_gone time (s.get? key)
      · exact .inl hsame
      · refine .inr ⟨hnone, value, expiry, hentry, ?_⟩
        obtain hlt | ⟨heq, hnanos⟩ := hgone
        · rw [SystemTime.unixSecs] at hclock
          exact .inl (by omega)
        · exact .inr ⟨time, rfl, heq.symm, hnanos⟩
    · exact .inl (Dict.onCell_get?_ne s _ hkey)
  · have hne : ∀ key' time, cmd ≠ .ttl key' time := fun key' time heq => httl ⟨key', time, heq⟩
    obtain hsame | ⟨hnone, value, expiry, hentry, hexpired⟩ :=
      (@dropsExpired_of_reads s config cmd t h hne).gone key
    · exact .inl hsame
    · cases expiry with
      | none => cases hexpired
      | some expiry => exact .inr ⟨hnone, value, expiry, hentry, .inl (of_decide_eq_true hexpired)⟩

/-- A key that is gone is not read back. -/
theorem gone_of_reads {reads : List DatabaseCommand} (hrun : Run (execute config) s reads s')
    (hreads : ∀ cmd ∈ reads, Reads t cmd) (h : s.get? key = none) : s'.get? key = none := by
  induction hrun with
  | nil => exact h
  | cons hstep _ ih =>
      rw [List.forall_mem_cons] at hreads
      apply ih hreads.2
      obtain hsame | ⟨hnone, -⟩ := cell_of_read hreads.1 hstep
      · exact hsame.trans h
      · exact hnone

/-- The run lemma: the cell of the key, or what reads have left of it. -/
theorem cell_of_reads {reads : List DatabaseCommand} (hrun : Run (execute config) s reads s')
    (hreads : ∀ cmd ∈ reads, Reads t cmd) (hcell : s.get? key = some (value, some deadline)) :
    s'.get? key = some (value, some deadline) ∨
      s'.get? key = none ∧ (deadline < t ∨ ∃ cmd ∈ reads, TakesEarly key deadline cmd) := by
  induction hrun with
  | nil => exact .inl hcell
  | @cons s s₁ s' cmd reads hstep hrest ih =>
      rw [List.forall_mem_cons] at hreads
      obtain hsame | ⟨hnone, value', expiry, hentry, hwhy⟩ := cell_of_read hreads.1 hstep
      · obtain hstored | ⟨hnone, hwhy⟩ := ih hreads.2 (hsame.trans hcell)
        · exact .inl hstored
        · refine .inr ⟨hnone, hwhy.imp_right ?_⟩
          rintro ⟨cmd', hcmd', hearly⟩
          exact ⟨cmd', List.mem_cons_of_mem _ hcmd', hearly⟩
      · rw [hcell] at hentry
        cases hentry
        refine .inr ⟨gone_of_reads hrest hreads.2 hnone, hwhy.imp_right ?_⟩
        exact fun hearly => ⟨cmd, List.mem_cons_self, hearly⟩

/-- A TTL inside the second of the deadline takes the key away. -/
theorem gone_of_takesEarly {reads : List DatabaseCommand}
    (hrun : Run (execute config) s reads s') (hreads : ∀ cmd ∈ reads, Reads t cmd)
    (hcell : s.get? key = some (value, some deadline) ∨ s.get? key = none)
    (hearly : ∃ cmd ∈ reads, TakesEarly key deadline cmd) : s'.get? key = none := by
  induction hrun with
  | nil =>
      obtain ⟨cmd, hcmd, -⟩ := hearly
      exact absurd hcmd List.not_mem_nil
  | @cons s s₁ s' cmd reads hstep hrest ih =>
      rw [List.forall_mem_cons] at hreads
      obtain ⟨cmd', hcmd', time, rfl, hsecs, hnanos⟩ := hearly
      obtain rfl | hlater := List.mem_cons.mp hcmd'
      · apply gone_of_reads hrest hreads.2
        obtain ⟨rfl, -⟩ := execute_eq_ok.mp hstep
        show (s.ttl key time).1.get? key = none
        rw [ttl_eq_onCell, Dict.onCell_get?_self]
        obtain hstored | hnone := hcell
        · have hfit : deadline ≤ SystemTime.maxSecs := by
            have hmax := time.secs_le
            unfold SystemTime.maxSecs
            omega
          have hgone := ttlCell_some value deadline time (by omega) hfit
          rw [if_pos (.inr ⟨hsecs.symm, hnanos⟩)] at hgone
          rw [hstored, hgone]
        · rw [hnone]
          rfl
      · apply ih hreads.2 _ ⟨_, hlater, time, rfl, hsecs, hnanos⟩
        obtain hsame | ⟨hnone, -⟩ := @cell_of_read s s₁ _ _ _ key hreads.1 hstep
        · rw [hsame]
          exact hcell
        · exact .inr hnone

end Reads

/-! ### SET with EX, and EXPIRE -/

open Grant Runs Soul

/-- The commands that give a key a deadline. -/
inductive Writer where
  | set (text : Bytes)
  | expire

namespace Writer

/-- The terms ask for the deadline in `n` seconds. -/
def Asks (key : Bytes) (n : ℕ) : Writer → List Bytes → Prop
  | .set text, terms =>
      ∃ word ex digits, terms = [word, key, text, ex, digits] ∧
        eqIgnoreAsciiCase word (ascii "SET") = true ∧ eqIgnoreAsciiCase ex (ascii "EX") = true ∧
        bytesToU64 digits = .ok n
  | .expire, terms =>
      ∃ word digits, terms = [word, key, digits] ∧
        eqIgnoreAsciiCase word (ascii "EXPIRE") = true ∧ bytesToU64 digits = .ok n

/-- What the handler sends at the second `now`. -/
def message (key : Bytes) (n now : ℕ) : Writer → DatabaseCommand
  | .set text => .set key (.string text, some (wrapU64 (now + n)))
  | .expire => .expire key (wrapU64 (now + n)) now

/-- The command succeeds, and the key holds the value. -/
def Succeeds (s : Soul) (key : Bytes) (now : ℕ) (value : Value) : Writer → Prop
  | .set text => value = .string text
  | .expire => ∃ expiry, (s.purge now).get? key = some (value, expiry)

theorem grant_eq {writer : Writer} {key : Bytes} {n : ℕ} {terms : List Bytes}
    (hasks : writer.Asks key n terms) (h : terms ≠ []) (clock : SystemTime) (token : Token) :
    grant terms h clock token =
      pray token (.database (writer.message key n clock.unixSecs)) := by
  cases writer with
  | set text =>
      obtain ⟨word, ex, digits, rfl, hword, hex, hdigits⟩ := hasks
      have hcommand : IsCommand (ascii "SET") [word, key, text, ex, digits] h := hword
      rw [grant_of_isCommand hcommand rfl]
      simp only [Grant.set, List.length_cons, List.drop_succ_cons, List.drop_zero, hex, hdigits]
      rfl
  | expire =>
      obtain ⟨word, digits, rfl, hword, hdigits⟩ := hasks
      have hcommand : IsCommand (ascii "EXPIRE") [word, key, digits] h := hword
      rw [grant_of_isCommand hcommand rfl]
      simp only [Grant.expire, List.length_cons, List.drop_succ_cons, List.drop_zero, hdigits]
      rfl

/-- The entry that is stored. -/
theorem get?_message {writer : Writer} {s : Soul} {key : Bytes} {n now : ℕ} {value : Value}
    (h : writer.Succeeds s key now value) (config : Config) :
    (database s config (writer.message key n now)).1.get? key =
      some (value, some (wrapU64 (now + n))) := by
  cases writer with
  | set text =>
      rw [h]
      exact Dict.get?_insert_self _ _ _
  | expire =>
      obtain ⟨expiry, hkey⟩ := h
      rw [get?_purge] at hkey
      simp only [message, database, expire_eq_onLive, get?_onLive, if_true, hkey, expireCell]

end Writer

/-! ### The deadline -/

section deadline

variable {ρ : Type} {s : Soul} {key : Bytes} {value : Value} {now n t : ℕ}

/-- The sum is the sum of the integers, and the reads that follow return.  At the second `t`, until
the sum, the key holds the live value and `m` cannot tell that it has a deadline; afterwards the key
holds none and `m` cannot tell that there has been one. -/
def Honours (config : Config) (s : Soul) (reads : List DatabaseCommand) (key : Bytes)
    (value : Value) (now n : ℕ) (m : Method ρ) (t : ℕ) : Prop :=
  wrapU64 (now + n) = now + n ∧ ∃ s', Run (execute config) s reads s' ∧
    (t ≤ now + n → SameValue t (s'.get? key) (some (value, none)) ∧
      CannotTell m t s' (s'.put key (some (value, none)))) ∧
    (now + n < t → SameValue t (s'.get? key) none ∧ CannotTell m t s' (s'.put key none))

/-- The run meets none of the three cases in which the deadline is not kept: a TTL panics, a TTL
takes the key away although its last second has not passed, and a pop meets the expired value of
another kind. -/
structure Undamaged (config : Config) (s : Soul) (reads : List DatabaseCommand) (key : Bytes)
    (deadline : ℕ) (m : Method ρ) (t : ℕ) : Prop where
  near : Always (execute config) (fun s cmd => ¬ AsksFarDeadline s cmd) s reads
  late : t ≤ deadline → ∀ cmd ∈ reads, ¬ TakesEarly key deadline cmd
  pop : ∀ s', Run (execute config) s reads s' →
    ¬ (m.popKey? = some key ∧ s'.ExpiredOther key t)

theorem isExpired_of_lt {deadline : ℕ} (h : deadline < t) : isExpired (some deadline) t = true :=
  decide_eq_true h

theorem not_isExpired_of_le {deadline : ℕ} (h : t ≤ deadline) :
    isExpired (some deadline) t = false :=
  decide_eq_false (not_lt.mpr h)

/-- Until its deadline a key is seen by every method. -/
theorem cannotTell_until {deadline : ℕ} (m : Method ρ) (hm : m.now? = some t)
    (hcell : s.get? key = some (value, some deadline)) (hle : t ≤ deadline) :
    CannotTell m t s (s.put key (some (value, none))) := by
  have hlive := not_isExpired_of_le hle
  apply Soul.cannotTell m hm
  · apply Dict.cellwise_put_right SameValue.refl
    rw [hcell]
    exact sameValue_of_live hlive rfl
  · intro key' _
    by_cases hkey : key' = key
    · right
      rw [hkey]
      constructor
      · rintro ⟨value', expiry', hentry, hexpired, -⟩
        rw [hcell] at hentry
        cases hentry
        rw [hlive] at hexpired
        cases hexpired
      · rintro ⟨value', expiry', hentry, hexpired, -⟩
        rw [Dict.get?_put_self] at hentry
        cases hentry
        cases hexpired
    · left
      rw [Dict.get?_put_ne _ _ hkey]

/-- An expired key, removed or not, is seen by no method but a pop. -/
theorem cannotTell_after (m : Method ρ) (hm : m.now? = some t)
    (hcell : (s.get? key).filter (live t) = none)
    (hpop : ¬ (m.popKey? = some key ∧ s.ExpiredOther key t)) :
    CannotTell m t s (s.put key none) := by
  apply Soul.cannotTell m hm
  · apply Dict.cellwise_put_right SameValue.refl
    unfold SameValue
    rw [hcell, Option.filter_none]
  · intro key' hkey'
    by_cases hkey : key' = key
    · right
      rw [hkey] at hkey' ⊢
      refine ⟨fun hother => hpop ⟨hkey', hother⟩, ?_⟩
      rintro ⟨value', expiry', hentry, -⟩
      rw [Dict.get?_put_self] at hentry
      cases hentry
    · left
      rw [Dict.get?_put_ne _ _ hkey]

/-- The reads return precisely if none of them is a TTL on a far deadline. -/
theorem exists_run_reads {config : Config} {reads : List DatabaseCommand}
    (hreads : ∀ cmd ∈ reads, Reads t cmd) :
    (∃ s', Run (execute config) s reads s') ↔
      Always (execute config) (fun s cmd => ¬ AsksFarDeadline s cmd) s reads := by
  apply exists_run_iff_always (P := Reads t) _ hreads
  intro s cmd hcmd
  rw [← returns_iff config s hcmd.wellFormed]
  constructor
  · rintro ⟨response, hresponse⟩
    exact ⟨_, execute_eq_ok.mpr ⟨rfl, response, hresponse⟩⟩
  · rintro ⟨s', hstep⟩
    exact (execute_eq_ok.mp hstep).2

/-- **A stored deadline is kept precisely in the undamaged runs.** -/
theorem honours_of_cell {config : Config} {reads : List DatabaseCommand}
    (hcell : s.get? key = some (value, some (wrapU64 (now + n))))
    (hreads : ∀ cmd ∈ reads, Reads t cmd) (m : Method ρ) (hm : m.now? = some t) :
    Honours config s reads key value now n m t ↔
      now + n < 2 ^ 64 ∧ Undamaged config s reads key (now + n) m t := by
  constructor
  · rintro ⟨hsum, s', hrun, huntil, hafter⟩
    rw [hsum] at hcell
    refine ⟨by unfold wrapU64 at hsum; omega, (exists_run_reads hreads).mp ⟨s', hrun⟩, ?_, ?_⟩
    · -- a key that has been taken away does not hold the value
      intro hle cmd hcmd hearly
      have hnone := gone_of_takesEarly hrun hreads (.inl hcell) ⟨cmd, hcmd, hearly⟩
      have hsame := (huntil hle).1
      rw [hnone] at hsame
      cases hsame
    · rintro s'' hrun' ⟨hpop, hother⟩
      obtain rfl := hrun.unique hrun'
      have hlate : now + n < t := by
        obtain ⟨value', expiry', hentry, hexpired, -⟩ := hother
        obtain hstored | ⟨hnone, -⟩ := cell_of_reads hrun hreads hcell
        · rw [hstored] at hentry
          cases hentry
          exact of_decide_eq_true hexpired
        · rw [hnone] at hentry
          cases hentry
      exact tells_expiredOther m hm hpop hother (hafter hlate).2
  · rintro ⟨hfits, hundamaged⟩
    have hsum : wrapU64 (now + n) = now + n := Nat.mod_eq_of_lt hfits
    rw [hsum] at hcell
    obtain ⟨s', hrun⟩ := (exists_run_reads hreads).mpr hundamaged.near
    have hcell' := cell_of_reads hrun hreads hcell
    refine ⟨hsum, s', hrun, ?_, ?_⟩
    · intro hle
      obtain hstored | ⟨-, hlt | ⟨cmd, hcmd, hearly⟩⟩ := hcell'
      · refine ⟨?_, cannotTell_until m hm hstored hle⟩
        rw [hstored]
        exact sameValue_of_live (not_isExpired_of_le hle) rfl
      · omega
      · exact absurd hearly (hundamaged.late hle cmd hcmd)
    · intro hlt
      have hgone : (s'.get? key).filter (live t) = none := by
        obtain hstored | ⟨hnone, -⟩ := hcell'
        · rw [hstored, filter_live_some, if_pos (isExpired_of_lt hlt)]
        · rw [hnone, Option.filter_none]
      refine ⟨?_, cannotTell_after m hm hgone (hundamaged.pop s' hrun)⟩
      rw [SameValue, hgone, Option.filter_none]

end deadline

/-- Half a second after 12. -/
def halfPast12 : SystemTime := ⟨12, 500000000, by decide, by decide, by decide⟩

end Heaven
