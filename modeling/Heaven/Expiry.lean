import Heaven.Methods

/-! # Lazy expiry

No thread removes expired entries; a method drops one when it meets it.  The store a client is
meant to see is `purge s now`.  A method that first drops an expired entry cannot tell `s` from
`purge s now` (`Method.oblivious`).  The pops test the kind of the value first, and
`hidesExpiry_iff` says exactly when that shows: on an expired entry that is not a list.

TTL compares the deadline with a clock that has nanoseconds, all other methods with whole seconds.
`ttlAgrees_iff` says exactly when the two tests agree. -/

namespace Heaven
namespace Soul

open Decimal (ascii)

variable {α β ρ : Type}

/-! ### Methods that drop first -/

/-- An operation of the form `onLive` cannot see expired entries. -/
theorem oblivious_of_onLive {op : Soul → Soul × ρ} {key : Bytes} {now : ℕ}
    {g : Option Entry → Option Entry × ρ} (h : ∀ s : Soul, op s = s.onLive key now g) :
    Dict.Oblivious (live now) op := by
  rw [funext h]
  exact Dict.onKept_oblivious (live now) key g

/-- A loop over keys cannot see what its accesses cannot see. -/
theorem forKeys_oblivious {p : Entry → Bool} {access : Soul → Bytes → Soul × Option Value}
    (h : ∀ key, Dict.Oblivious p fun s => access s key) (visit : β → Option Value → β)
    (keys : List Bytes) (acc : β) : Dict.Oblivious p fun s => forKeys access visit s acc keys := by
  induction keys generalizing acc with
  | nil =>
      intro s s' hs
      exact ⟨rfl, hs⟩
  | cons key keys ih =>
      intro s s' hs
      obtain ⟨hvalue, hnext⟩ := h key s s' hs
      simp only [forKeys, hvalue]
      exact ih _ _ _ hnext

theorem getValidValue_oblivious (now : ℕ) (key : Bytes) :
    Dict.Oblivious (live now) fun s : Soul => s.getValidValue key now := by
  apply oblivious_of_onLive
  intro s
  exact getValidValue_eq_onLive s key now

theorem removeValidValue_oblivious (now : ℕ) (key : Bytes) :
    Dict.Oblivious (live now) fun s : Soul => s.removeValidValue key now := by
  apply oblivious_of_onLive
  intro s
  exact removeValidValue_eq_onLive s key now

theorem mget_oblivious (terms : List Bytes) (now : ℕ) :
    Dict.Oblivious (live now) fun s : Soul => s.mget terms now := by
  intro s s' h
  have hloop := forKeys_oblivious (getValidValue_oblivious now)
    (fun result value => result ++ [value.bind Value.string?]) terms [] s s' h
  exact ⟨congrArg some hloop.1, hloop.2⟩

/-- **A method that is no pop cannot see expired entries.** -/
theorem Method.oblivious (m : Method ρ) {now : ℕ} (hnow : m.now? = some now)
    (hpop : m.popKey? = none) : Dict.Oblivious (live now) m.run := by
  cases m <;> cases hnow
  case get | strlen | hget | hmget | hexists | hlen | hgetall | llen | lrange | lindex
      | sismember | smembers =>
    exact oblivious_of_onLive fun s => query_eq_onLive s _ _ _ _ _ _
  case append => exact oblivious_of_onLive fun s => append_eq_onLive s _ _ _
  case incr => exact oblivious_of_onLive fun s => incr_eq_onLive s _ _
  case incrby => exact oblivious_of_onLive fun s => incrby_eq_onLive s _ _ _
  case decr => exact oblivious_of_onLive fun s => decr_eq_onLive s _ _
  case del => exact forKeys_oblivious (removeValidValue_oblivious now) _ _ _
  case «exists» => exact forKeys_oblivious (getValidValue_oblivious now) _ _ _
  case hset => exact oblivious_of_onLive fun s => hset_eq_onLive s _ _ _
  case hdel => exact oblivious_of_onLive fun s => hdel_eq_onLive s _ _ _
  case lpush => exact oblivious_of_onLive fun s => lpush_eq_onLive s _ _ _
  case rpush => exact oblivious_of_onLive fun s => rpush_eq_onLive s _ _ _
  case lset => exact oblivious_of_onLive fun s => lset_eq_onLive s _ _ _ _
  case lrem => exact oblivious_of_onLive fun s => lrem_eq_onLive s _ _ _ _
  case expire => exact oblivious_of_onLive fun s => expire_eq_onLive s _ _ _
  case mget => exact mget_oblivious _ _
  case sadd => exact oblivious_of_onLive fun s => sadd_eq_onLive s _ _ _
  case srem => exact oblivious_of_onLive fun s => srem_eq_onLive s _ _ _
  case lpop | lpopM | rpop | rpopM => cases hpop

/-! ### The pops -/

/-- A pop sees the same in a cell and in its live part, unless the cell holds an expired entry
that is not a list. -/
theorem popCell_filter (now : ℕ) (cmd : Command) (absent : ρ) (pop : List Bytes → List Bytes × ρ)
    {o : Option Entry}
    (h : ∀ value expiry, o = some (value, expiry) → isExpired expiry now = true →
      value.list? ≠ none) :
    popCell now cmd absent pop o = popCell now cmd absent pop (o.filter (live now)) := by
  rcases o with _ | ⟨value, expiry⟩
  · rfl
  · rw [filter_live_some]
    by_cases he : isExpired expiry now = true
    · have hl := h value expiry rfl he
      cases value with
      | list list => simp only [popCell, he, if_true]
      | string _ | hash _ | set _ => exact absurd rfl hl
    · simp only [he, Bool.false_eq_true, if_false]

theorem popCell_expired_other (now : ℕ) (cmd : Command) (absent : ρ)
    (pop : List Bytes → List Bytes × ρ) {value : Value} (expiry : Option ℕ)
    (hl : value.list? = none) :
    (popCell now cmd absent pop (some (value, expiry))).2 = misuse cmd := by
  cases value with
  | list list => cases hl
  | string _ | hash _ | set _ => rfl

/-- What a client can see of `m`: its result, and the live store it leaves, are those of `m` on
the purged store. -/
def HidesExpiry (m : Method ρ) (s : Soul) (now : ℕ) : Prop :=
  (m.run s).2 = (m.run (s.purge now)).2 ∧
    (m.run s).1.purge now = (m.run (s.purge now)).1.purge now

/-- The entry at `key` is expired and not a list. -/
def ExpiredOther (s : Soul) (key : Bytes) (now : ℕ) : Prop :=
  ∃ value expiry, s.get? key = some (value, expiry) ∧ isExpired expiry now = true ∧
    value.list? = none

/-- A pop hides expiry exactly when it does not meet an expired entry of another kind. -/
theorem popWith_hides_iff (s : Soul) (key : Bytes) (now : ℕ) (cmd : Command) (absent : ρ)
    (pop : List Bytes → List Bytes × ρ) :
    ((s.popWith key now cmd absent pop).2 = (popWith (s.purge now) key now cmd absent pop).2 ∧
      purge (s.popWith key now cmd absent pop).1 now =
        purge (popWith (s.purge now) key now cmd absent pop).1 now) ↔
      ¬ ExpiredOther s key now := by
  rw [popWith_eq_onCell, popWith_eq_onCell]
  constructor
  · rintro ⟨hresult, -⟩ ⟨value, expiry, hs, he, hl⟩
    simp only [Dict.onCell, get?_purge, hs, filter_live_some, he, if_true] at hresult
    rw [popCell_expired_other now cmd absent pop expiry hl] at hresult
    simp [popCell, misuse] at hresult
  · intro h
    have hlist : ∀ value expiry, s.get? key = some (value, expiry) →
        isExpired expiry now = true → value.list? ≠ none := by
      intro value expiry ho he hl
      exact h ⟨value, expiry, ho, he, hl⟩
    have hcell := popCell_filter now cmd absent pop hlist
    apply Dict.onCell_filter
    · rw [← hcell]
    · rw [← hcell]

/-- **Lazy expiry is unobservable, except for a pop of an expired entry that is not a list.** -/
theorem hidesExpiry_iff (m : Method ρ) (s : Soul) (now : ℕ) (hnow : m.now? = some now) :
    HidesExpiry m s now ↔ ∀ key, m.popKey? = some key → ¬ ExpiredOther s key now := by
  cases hpop : m.popKey? with
  | none =>
      have hseen : HidesExpiry m s now := Dict.Oblivious.filter (m.oblivious hnow hpop) s
      apply iff_of_true hseen
      intro key hkey
      cases hkey
  | some key =>
      simp only [Option.some.injEq, forall_eq']
      cases m <;> cases hpop <;> cases hnow <;> exact popWith_hides_iff s key now _ _ _

/-- A list that expired at second 5 is popped at second 10. -/
theorem hidesExpiry_lpop_list :
    HidesExpiry (.lpop (ascii "k") 10)
      (Soul.new.set (ascii "k") (.list [ascii "x"], some 5)) 10 := by
  apply (hidesExpiry_iff (.lpop (ascii "k") 10) _ 10 rfl).mpr
  rintro key hkey ⟨value, expiry, hs, -, hl⟩
  cases hkey
  cases (Dict.get?_insert_self _ _ _).symm.trans hs
  cases hl

/-- A string that expired at second 5 is popped at second 10: an error instead of no element. -/
theorem lpop_shows_expired_string :
    ¬ ∀ (ρ : Type) (m : Method ρ) (s : Soul) (now : ℕ), m.now? = some now →
      HidesExpiry m s now := by
  intro h
  have hsame := (h _ (.lpop (ascii "k") 10)
    (Soul.new.set (ascii "k") (.string (ascii "x"), some 5)) 10 rfl).1
  exact absurd hsame (by decide)

/-! ### TTL -/

theorem epochPlus_eq (expiry : ℕ) (h : expiry ≤ SystemTime.maxSecs) :
    ∃ deadline, SystemTime.epochPlus expiry = .ok deadline ∧ deadline.secs = expiry ∧
      deadline.nanos = 0 := by
  unfold SystemTime.epochPlus
  rw [dif_pos h]
  exact ⟨_, rfl, rfl, rfl⟩

theorem isExpired_unixSecs (expiry : ℕ) (t : SystemTime) :
    isExpired (some expiry) t.unixSecs = true ↔ (expiry : ℤ) < t.secs := by
  rw [isExpired, decide_eq_true_iff, SystemTime.unixSecs]
  omega

/-- TTL on a key with a deadline it can represent: the entry goes once the deadline is before the
clock, nanoseconds included. -/
theorem ttlCell_some (value : Value) (expiry : ℕ) (t : SystemTime) (ht : 0 ≤ t.secs)
    (h : expiry ≤ SystemTime.maxSecs) :
    if (expiry : ℤ) < t.secs ∨ (expiry : ℤ) = t.secs ∧ t.nanos ≠ 0 then
      ttlCell t (some (value, some expiry)) = (none, .ok (-2))
    else ∃ n : ℤ, 0 ≤ n ∧
      ttlCell t (some (value, some expiry)) = (some (value, some expiry), .ok n) := by
  obtain ⟨deadline, hdeadline, hsecs, hnanos⟩ := epochPlus_eq expiry h
  have hbefore : deadline.before t = true ↔
      (expiry : ℤ) < t.secs ∨ (expiry : ℤ) = t.secs ∧ t.nanos ≠ 0 := by
    simp only [SystemTime.before, hsecs, hnanos, decide_eq_true_eq]
    omega
  simp only [ttlCell, hdeadline]
  split_ifs with hc hb hb
  · rfl
  · exact absurd (hbefore.mpr hc) hb
  · exact absurd (hbefore.mp hb) hc
  · have hle : t.secs + (if (0 : ℕ) < t.nanos then 1 else 0) ≤ expiry := by
      split_ifs <;> omega
    have hmax := deadline.secs_le
    simp only [SystemTime.durationSince, hb, Bool.false_eq_true, if_false, hsecs, hnanos]
    refine ⟨_, ?_, rfl⟩
    -- the difference is below 2 ^ 63, so the cast to `i64` keeps it
    rw [wrapI64, Int.bmod_eq_of_le] <;> split_ifs at hle ⊢ <;> omega

/-- `ttl` at the instant `t` returns, and fits the test the other methods make at the second in
which `t` lies: it answers -2 when they find no value, -1 when they find one without a deadline,
and it takes no live entry away. -/
def TtlAgrees (s : Soul) (key : Bytes) (t : SystemTime) : Prop :=
  ∃ n : ℤ, (s.ttl key t).2 = .ok n ∧
    (n = -2 ↔ (s.getValidValue key t.unixSecs).2 = none) ∧
    (n = -1 ↔ ∃ value, (s.getValidValue key t.unixSecs).2 = some value ∧
      s.get? key = some (value, none)) ∧
    (s.ttl key t).1.purge t.unixSecs = s.purge t.unixSecs

theorem epochPlus_error (expiry : ℕ) (h : ¬ expiry ≤ SystemTime.maxSecs) :
    SystemTime.epochPlus expiry = .error .timeOverflow := by
  unfold SystemTime.epochPlus
  rw [dif_neg h]

theorem purge_put_expired {s : Soul} {key : Bytes} {now : ℕ}
    (h : (s.get? key).filter (live now) = none) : purge (s.put key none) now = s.purge now := by
  unfold purge
  rw [Dict.filter_put, Option.filter_none]
  exact Dict.put_eq_self ((Dict.get?_filter _ _ _).trans h)

/-- **TTL agrees with the other methods exactly when the deadline fits in a `SystemTime` and is
not the second in which the clock stands, unless the clock stands at its beginning.** -/
theorem ttlAgrees_iff (s : Soul) (key : Bytes) (t : SystemTime) (ht : 0 ≤ t.secs) :
    TtlAgrees s key t ↔ ∀ value expiry, s.get? key = some (value, some expiry) →
      expiry ≤ SystemTime.maxSecs ∧ ¬ ((expiry : ℤ) = t.secs ∧ t.nanos ≠ 0) := by
  unfold TtlAgrees
  rw [ttl_eq_onCell, getValidValue_eq_onLive]
  simp only [onLive, Dict.onKept, Dict.onCell]
  rcases hs : s.get? key with _ | ⟨value, _ | expiry⟩
  · simp [ttlCell, Dict.put_eq_self hs]
  · simp [ttlCell, Dict.put_eq_self hs, filter_live_some, isExpired]
  · have hfilter := filter_live_some t.unixSecs value (some expiry)
    have hexpired := isExpired_unixSecs expiry t
    have hcond : (∀ value' expiry', some (value, some expiry) = some (value', some expiry') →
        expiry' ≤ SystemTime.maxSecs ∧ ¬ ((expiry' : ℤ) = t.secs ∧ t.nanos ≠ 0)) ↔
        expiry ≤ SystemTime.maxSecs ∧ ¬ ((expiry : ℤ) = t.secs ∧ t.nanos ≠ 0) := by
      constructor
      · intro h
        exact h value expiry rfl
      · rintro h _ _ ⟨⟩
        exact h
    rw [hcond]
    by_cases hfit : expiry ≤ SystemTime.maxSecs
    · have hcell := ttlCell_some value expiry t ht hfit
      by_cases hlt : (expiry : ℤ) < t.secs
      · -- expired for both tests
        rw [if_pos (Or.inl hlt)] at hcell
        rw [hexpired.mpr hlt, if_pos rfl] at hfilter
        have hgone : (s.get? key).filter (live t.unixSecs) = none := by rw [hs, hfilter]
        have hne : ¬ ((expiry : ℤ) = t.secs ∧ t.nanos ≠ 0) := by
          intro h
          exact hlt.ne h.1
        simp only [hcell, hfilter, Except.ok.injEq, exists_eq_left', purge_put_expired hgone]
        simp [hfit, hne]
      · have hlive : isExpired (some expiry) t.unixSecs = false := by
          rw [← Bool.not_eq_true, hexpired]
          exact hlt
        rw [hlive, if_neg Bool.false_ne_true] at hfilter
        by_cases heq : (expiry : ℤ) = t.secs ∧ t.nanos ≠ 0
        · -- inside the last second only TTL calls the entry expired
          rw [if_pos (Or.inr heq)] at hcell
          simp [hcell, hfilter, heq]
        · rw [if_neg (not_or.mpr ⟨hlt, heq⟩)] at hcell
          obtain ⟨n, hn, hcell⟩ := hcell
          have h₁ : n ≠ -1 := by omega
          have h₂ : n ≠ -2 := by omega
          simp [hcell, hfilter, hfit, heq, h₁, h₂, Dict.put_eq_self hs]
    · -- `UNIX_EPOCH + Duration` panics
      simp [ttlCell, epochPlus_error expiry hfit, hfit]

/-- A key with the deadline 100, half a second after 99. -/
theorem ttlAgrees_before_deadline :
    TtlAgrees (Soul.new.set (ascii "k") (.string (ascii "x"), some 100)) (ascii "k")
      ⟨99, 500000000, by decide, by decide, by decide⟩ := by
  apply (ttlAgrees_iff _ _ _ (by norm_num)).mpr
  intro value expiry hs
  cases (Dict.get?_insert_self _ _ _).symm.trans hs
  exact ⟨by decide, by norm_num⟩

/-- A key with the deadline 100, half a second after 100: GET finds it and TTL removes it. -/
theorem ttl_removes_live_key :
    ¬ ∀ (s : Soul) (key : Bytes) (t : SystemTime), 0 ≤ t.secs → TtlAgrees s key t := by
  intro h
  obtain ⟨n, hn, habsent, -⟩ := h (Soul.new.set (ascii "k") (.string (ascii "x"), some 100))
    (ascii "k") ⟨100, 500000000, by norm_num, by norm_num, by norm_num⟩ (by norm_num)
  have hn' : n = -2 := (Except.ok.inj (hn.symm.trans (by decide)) : n = -2)
  exact absurd (habsent.mp hn') (by decide)

end Soul
end Heaven
