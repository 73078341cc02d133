import Mathlib.Logic.Relation
import Heaven.Deadlines

/-! # Absent keys

The clock that a method is given was read before its command was queued, so it may go back from
one method to the next.  A key that has been reported absent stays absent all the same, since
whoever finds an entry expired also removes it (`Method.vacant_of_reports`), and only a write makes
a new one (`Method.vacant_or_revives`).

`no_resurrection` puts the two together.  The one exception is TTL at the first two seconds of a
`SystemTime`, where the cast of the remaining time to `i64` can yield -2 for a key that is there
(`ttl_wraps`). -/

namespace Heaven
namespace Soul

open Decimal (ascii)

variable {α β ρ : Type} {s : Soul} {key : Bytes} {now : ℕ}

/-- The result says that the key is absent; a DEL of the key says so in any case.  The counter of
EXISTS has 32 bits. -/
def Method.Reports (key : Bytes) : {ρ : Type} → Method ρ → ρ → Prop
  | _, .get k _, result => k = key ∧ result = .ok none
  | _, .exists keys _, count => key ∈ keys ∧ keys.length < 2 ^ 32 ∧ count = 0
  | _, .ttl k _, result => k = key ∧ result = .ok (-2)
  | _, .expire k _ _, count => k = key ∧ count = 0
  | _, .del keys _, _ => key ∈ keys
  | _, _, _ => False

/-- The result says that the key has been written. -/
def Method.Revives (key : Bytes) : {ρ : Type} → Method ρ → ρ → Prop
  | _, .set k _, _ => k = key
  | _, .mset terms, _ => key ∈ msetKeys terms
  | _, .append k _ _, result => k = key ∧ result.isOk = true
  | _, .incr k _, result => k = key ∧ result.isOk = true
  | _, .incrby k _ _, result => k = key ∧ result.isOk = true
  | _, .decr k _, result => k = key ∧ result.isOk = true
  | _, .hset k _ _, result => k = key ∧ result.isOk = true
  | _, .lpush k _ _, result => k = key ∧ result.isOk = true
  | _, .rpush k _ _, result => k = key ∧ result.isOk = true
  | _, .sadd k _ _, result => k = key ∧ result.isOk = true
  | _, _, _ => False

/-- A TTL comes after the first two seconds of the clock. -/
def Method.OnClock : {ρ : Type} → Method ρ → Prop
  | _, .ttl _ now => -2 ^ 63 + 2 ≤ now.secs
  | _, _ => True

/-- A call that does not write the key. -/
def Spares (key : Bytes) (s s' : Soul) : Prop :=
  ∃ (ρ : Type) (m : Method ρ), ¬ m.Revives key (m.run s).2 ∧ s' = (m.run s).1

/-! ### No method but a write fills a vacant cell -/

theorem vacant_onCell {key' : Bytes} {f : Option Entry → Option Entry × ρ}
    (hf : (f none).1 = none) (hs : s.get? key = none) : (s.onCell key' f).1.get? key = none := by
  by_cases hkey : key = key'
  · subst hkey
    rw [Dict.onCell_get?_self, hs, hf]
  · rw [Dict.onCell_get?_ne s f hkey, hs]

theorem vacant_onLive {op : Soul → Soul × ρ} {key' : Bytes}
    {g : Option Entry → Option Entry × ρ} (h : ∀ s : Soul, op s = s.onLive key' now g)
    (hg : (g none).1 = none) (hs : s.get? key = none) : (op s).1.get? key = none := by
  rw [h s]
  exact vacant_onCell (f := fun o => g (o.filter (live now))) hg hs

theorem vacant_query (hs : s.get? key = none) (key' : Bytes) (now : ℕ)
    (view : Value → Option α) (wrongType absent : ρ) (found : α → ρ) :
    (s.query key' now view wrongType absent found).1.get? key = none :=
  vacant_onLive (fun s => query_eq_onLive s key' now view wrongType absent found) rfl hs

theorem vacant_popWith (hs : s.get? key = none) (key' : Bytes) (now : ℕ) (cmd : Command)
    (absent : ρ) (pop : List Bytes → List Bytes × ρ) :
    (s.popWith key' now cmd absent pop).1.get? key = none := by
  rw [popWith_eq_onCell]
  exact vacant_onCell rfl hs

theorem vacant_of_onlyDrops {op : Soul → Soul × ρ} (h : OnlyDrops op) (hs : s.get? key = none) :
    (op s).1.get? key = none := by
  rcases h s key with hkey | hkey
  · exact hkey.trans hs
  · exact hkey

/-- A method that makes an entry in a vacant cell is successful there. -/
theorem vacant_or_made {op : Soul → Soul × Except Sacrilege ρ} {key' : Bytes}
    {g : Option Entry → Option Entry × Except Sacrilege ρ}
    (h : ∀ s : Soul, op s = s.onLive key' now g) (hg : (g none).2.isOk = true)
    (hs : s.get? key = none) :
    (op s).1.get? key = none ∨ key' = key ∧ (op s).2.isOk = true := by
  rw [h s]
  by_cases hkey : key = key'
  · subst hkey
    have hresult : (s.onLive key now g).2 = (g none).2 := by
      show (g ((s.get? key).filter (live now))).2 = _
      rw [hs, Option.filter_none]
    rw [hresult]
    exact Or.inr ⟨rfl, hg⟩
  · rw [get?_onLive, if_neg hkey]
    exact Or.inl hs

/-- **A vacant cell stays vacant unless the key is written.** -/
theorem Method.vacant_or_revives (m : Method ρ) (hs : s.get? key = none) :
    (m.run s).1.get? key = none ∨ m.Revives key (m.run s).2 := by
  cases m
  case get | strlen | hget | hmget | hexists | hlen | hgetall | llen | lrange | lindex
      | sismember | smembers =>
    exact Or.inl (vacant_query hs _ _ _ _ _ _)
  case lpop | lpopM | rpop | rpopM => exact Or.inl (vacant_popWith hs _ _ _ _ _)
  case set key' val =>
    by_cases hkey : key = key'
    · exact Or.inr hkey.symm
    · have hframe := (Method.set key' val).concerns.frame s key fun h =>
        hkey (List.mem_singleton.mp h)
      exact Or.inl (hframe.trans hs)
  case mset terms =>
    by_cases hkey : key ∈ msetKeys terms
    · exact Or.inr hkey
    · exact Or.inl (((mset_concerns terms).frame s key hkey).trans hs)
  case append => exact vacant_or_made (fun s => append_eq_onLive s _ _ _) rfl hs
  case incr => exact vacant_or_made (fun s => incr_eq_onLive s _ _) rfl hs
  case incrby => exact vacant_or_made (fun s => incrby_eq_onLive s _ _ _) rfl hs
  case decr => exact vacant_or_made (fun s => decr_eq_onLive s _ _) rfl hs
  case hset => exact vacant_or_made (fun s => hset_eq_onLive s _ _ _) rfl hs
  case lpush => exact vacant_or_made (fun s => lpush_eq_onLive s _ _ _) rfl hs
  case rpush => exact vacant_or_made (fun s => rpush_eq_onLive s _ _ _) rfl hs
  case sadd => exact vacant_or_made (fun s => sadd_eq_onLive s _ _ _) rfl hs
  case del keys now =>
    exact Or.inl (vacant_of_onlyDrops (onlyDrops_forKeys (onlyDrops_removeValidValue now) _ _ _) hs)
  case «exists» keys now =>
    exact Or.inl (vacant_of_onlyDrops (onlyDrops_forKeys (onlyDrops_getValidValue now) _ _ _) hs)
  case mget terms now =>
    have hloop := onlyDrops_forKeys (onlyDrops_getValidValue now)
      (fun result value => result ++ [value.bind Value.string?]) terms []
    exact Or.inl (vacant_of_onlyDrops hloop hs)
  case hdel => exact Or.inl (vacant_onLive (fun s => hdel_eq_onLive s _ _ _) rfl hs)
  case lset => exact Or.inl (vacant_onLive (fun s => lset_eq_onLive s _ _ _ _) rfl hs)
  case lrem => exact Or.inl (vacant_onLive (fun s => lrem_eq_onLive s _ _ _ _) rfl hs)
  case expire => exact Or.inl (vacant_onLive (fun s => expire_eq_onLive s _ _ _) rfl hs)
  case ttl key' now =>
    have hcell : (s.onCell key' (ttlCell now)).1.get? key = none := vacant_onCell rfl hs
    rw [← ttl_eq_onCell] at hcell
    exact Or.inl hcell
  case srem => exact Or.inl (vacant_onLive (fun s => srem_eq_onLive s _ _ _) rfl hs)

/-! ### A report is followed by a vacant cell -/

theorem vacant_of_get (h : (s.get key now).2 = .ok none) : (s.get key now).1.get? key = none := by
  unfold get at h ⊢
  rw [query_eq_onLive] at h ⊢
  rw [get?_onLive, if_pos rfl, queryCell_fst]
  simp only [onLive, Dict.onKept, Dict.onCell] at h
  rcases hcell : (s.get? key).filter (live now) with _ | ⟨value, expiry⟩
  · rfl
  · rw [hcell] at h
    cases value <;> cases h

theorem vacant_of_expire {expiry : ℕ} (h : (s.expire key expiry now).2 = 0) :
    (s.expire key expiry now).1.get? key = none := by
  rw [expire_eq_onLive] at h ⊢
  rw [get?_onLive, if_pos rfl]
  simp only [onLive, Dict.onKept, Dict.onCell] at h
  rcases hcell : (s.get? key).filter (live now) with _ | ⟨value, expiry⟩
  · rfl
  · rw [hcell] at h
    cases h

/-- A remaining time is not cast to -2, unless the clock stands at its first two seconds. -/
theorem wrapI64_durationSince {deadline t : SystemTime} (ht : -2 ^ 63 + 2 ≤ t.secs)
    {duration : ℕ} (h : deadline.durationSince t = some duration) : wrapI64 duration ≠ -2 := by
  have hlt : duration < 2 ^ 64 - 2 := by
    have hle := deadline.secs_le
    unfold SystemTime.durationSince at h
    split_ifs at h <;> cases h <;> omega
  intro hwrap
  have hmod : (duration : ℤ) % (2 ^ 64 : ℕ) = -2 % (2 ^ 64 : ℕ) := by
    rw [← Int.bmod_emod (x := duration), ← hwrap]
    rfl
  omega

theorem ttlCell_reports {t : SystemTime} (ht : -2 ^ 63 + 2 ≤ t.secs) {o : Option Entry}
    (h : (ttlCell t o).2 = .ok (-2)) : (ttlCell t o).1 = none := by
  rcases o with _ | ⟨value, _ | expiry⟩
  · rfl
  · cases h
  · simp only [ttlCell] at h ⊢
    cases hdeadline : SystemTime.epochPlus expiry with
    | error panic =>
        rw [hdeadline] at h
        cases h
    | ok deadline =>
        rw [hdeadline] at h
        dsimp only at h ⊢
        split_ifs at h ⊢
        · rfl
        · cases hduration : deadline.durationSince t with
          | none => rfl
          | some duration =>
              rw [hduration] at h
              exact absurd (Except.ok.inj h) (wrapI64_durationSince ht hduration)

theorem vacant_of_ttl {t : SystemTime} (ht : -2 ^ 63 + 2 ≤ t.secs)
    (h : (s.ttl key t).2 = .ok (-2)) : (s.ttl key t).1.get? key = none := by
  rw [ttl_eq_onCell] at h ⊢
  rw [Dict.onCell_get?_self]
  exact ttlCell_reports ht h

/-- The keys that are removed are absent after the loop. -/
theorem vacant_of_del {keys : List Bytes} (hkey : key ∈ keys) (visit : β → Option Value → β)
    (acc : β) :
    (forKeys (fun s key => s.removeValidValue key now) visit s acc keys).1.get? key = none := by
  induction keys generalizing s acc with
  | nil => cases hkey
  | cons key' keys ih =>
      rw [forKeys]
      rcases List.mem_cons.mp hkey with rfl | hmem
      · have hgone : (s.removeValidValue key now).1.get? key = none := by
          rw [removeValidValue_eq_onLive, get?_onLive, if_pos rfl]
        exact vacant_of_onlyDrops (onlyDrops_forKeys (onlyDrops_removeValidValue now) _ _ _) hgone
      · exact ih hmem _

theorem vacant_of_getValidValue (h : (s.getValidValue key now).2 = none) :
    (s.getValidValue key now).1.get? key = none := by
  rw [getValidValue_eq_onLive] at h ⊢
  rw [get?_onLive, if_pos rfl]
  exact Option.map_eq_none_iff.mp h

/-- The loop of EXISTS, from a counter that does not overflow: the counter grows unless all keys
are absent. -/
theorem exists_loop (keys : List Bytes) (found : ℕ) (hlt : found + keys.length < 2 ^ 32)
    (s : Soul) :
    let after := forKeys (fun s key => s.getValidValue key now)
      (fun found value => if value.isSome then wrapU32 (found + 1) else found) s found keys
    found ≤ after.2 ∧ (after.2 = found → ∀ key ∈ keys, after.1.get? key = none) := by
  induction keys generalizing found s with
  | nil => exact ⟨Nat.le_refl found, fun _ _ h => nomatch h⟩
  | cons key keys ih =>
      rw [List.length_cons] at hlt
      intro after
      have hafter : after = forKeys (fun s key => s.getValidValue key now)
          (fun found value => if value.isSome then wrapU32 (found + 1) else found)
          (s.getValidValue key now).1
          (if (s.getValidValue key now).2.isSome then wrapU32 (found + 1) else found) keys := rfl
      cases hvalue : (s.getValidValue key now).2 with
      | none =>
          rw [hvalue] at hafter
          obtain ⟨hle, hrest⟩ := ih found (by omega) (s.getValidValue key now).1
          rw [hafter]
          refine ⟨hle, ?_⟩
          intro hsame key' hkey'
          rcases List.mem_cons.mp hkey' with rfl | hmem
          · exact vacant_of_onlyDrops (onlyDrops_forKeys (onlyDrops_getValidValue now) _ _ _)
              (vacant_of_getValidValue hvalue)
          · exact hrest hsame key' hmem
      | some value =>
          have hwrap : wrapU32 (found + 1) = found + 1 := Nat.mod_eq_of_lt (by omega)
          rw [hvalue, Option.isSome_some, if_pos rfl, hwrap] at hafter
          obtain ⟨hle, -⟩ := ih (found + 1) (by omega) (s.getValidValue key now).1
          rw [hafter]
          refine ⟨by omega, ?_⟩
          intro hsame
          omega

/-- **A method that reports the key absent leaves its cell vacant.** -/
theorem Method.vacant_of_reports (m : Method ρ) (hclock : m.OnClock)
    (h : m.Reports key (m.run s).2) : (m.run s).1.get? key = none := by
  cases m
  case get key' now =>
    obtain ⟨rfl, h⟩ := h
    exact vacant_of_get h
  case «exists» keys now =>
    obtain ⟨hkey, hlt, hcount⟩ := h
    exact (exists_loop keys 0 (by omega) s).2 hcount key hkey
  case ttl key' now =>
    obtain ⟨rfl, h⟩ := h
    exact vacant_of_ttl hclock h
  case expire key' expiry now =>
    obtain ⟨rfl, h⟩ := h
    exact vacant_of_expire h
  case del keys now => exact vacant_of_del h _ _
  all_goals cases h

/-! ### Reports of a vacant cell -/

/-- A vacant key adds nothing to a count. -/
theorem exists_of_vacant (hs : s.get? key = none) (keys : List Bytes) (found : ℕ) :
    (forKeys (fun s key => s.getValidValue key now)
      (fun found value => if value.isSome then wrapU32 (found + 1) else found) s found keys).2 =
    (forKeys (fun s key => s.getValidValue key now)
      (fun found value => if value.isSome then wrapU32 (found + 1) else found) s found
        (keys.filter (· ≠ key))).2 := by
  induction keys generalizing s found with
  | nil => rfl
  | cons key' keys ih =>
      by_cases hkey : key' = key
      · subst hkey
        have haccess : s.getValidValue key' now = (s, none) := by
          unfold getValidValue
          rw [hs]
          rfl
        have hfilter : (key' :: keys).filter (· ≠ key') = keys.filter (· ≠ key') := by simp
        rw [hfilter, forKeys, haccess]
        exact ih hs found
      · have hfilter : (key' :: keys).filter (· ≠ key) = key' :: keys.filter (· ≠ key) := by
          simp [hkey]
        rw [hfilter, forKeys, forKeys]
        exact ih (vacant_of_onlyDrops (onlyDrops_getValidValue now key') hs) _

/-- **No resurrection.**  Once a method has reported the key absent, GET, EXISTS, TTL and EXPIRE
report it absent after every sequence of calls that do not write it, whatever their clocks say. -/
theorem no_resurrection (m : Method ρ) (hclock : m.OnClock) (s s' : Soul) (key : Bytes)
    (hreport : m.Reports key (m.run s).2)
    (hcalls : Relation.ReflTransGen (Spares key) (m.run s).1 s') :
    (∀ now, (s'.get key now).2 = .ok none) ∧
      (∀ keys now, (s'.exists keys now).2 = (s'.exists (keys.filter (· ≠ key)) now).2) ∧
      (∀ t, (s'.ttl key t).2 = .ok (-2)) ∧
      ∀ expiry now, (s'.expire key expiry now).2 = 0 := by
  have hs' : s'.get? key = none := by
    induction hcalls with
    | refl => exact m.vacant_of_reports hclock hreport
    | tail _ hcall ih =>
        obtain ⟨σ, m', hspares, rfl⟩ := hcall
        exact (m'.vacant_or_revives ih).resolve_right hspares
  refine ⟨?_, ?_, ?_, ?_⟩
  · intro now
    have hfilter : (s'.get? key).filter (live now) = none := by rw [hs', Option.filter_none]
    unfold get
    rw [query_eq_onLive]
    simp only [onLive, Dict.onKept, Dict.onCell, hfilter]
    rfl
  · intro keys now
    exact exists_of_vacant hs' keys 0
  · intro t
    rw [ttl_eq_onCell]
    simp only [Dict.onCell, hs']
    rfl
  · intro expiry now
    have hfilter : (s'.get? key).filter (live now) = none := by rw [hs', Option.filter_none]
    rw [expire_eq_onLive]
    simp only [onLive, Dict.onKept, Dict.onCell, hfilter]
    rfl

/-- A key is found expired at second 10, and asked for again with any clock. -/
theorem no_resurrection_clock_back :
    let s := ((Method.get (ascii "k") 10).run
      (Soul.new.set (ascii "k") (.string (ascii "x"), some 5))).1
    ∀ now, (s.get (ascii "k") now).2 = .ok none :=
  (no_resurrection (.get (ascii "k") 10) trivial
    (Soul.new.set (ascii "k") (.string (ascii "x"), some 5)) _ (ascii "k") ⟨rfl, by decide⟩ .refl).1

/-- An instant in the first two seconds of the clock. -/
def dawn : SystemTime :=
  { SystemTime.unixEpoch with
    secs := -2 ^ 63 + 1
    le_secs := by norm_num
    secs_le := by norm_num }

/-- TTL casts the 2 ^ 64 - 2 seconds from `dawn` to the last deadline to -2. -/
theorem ttl_wraps :
    ¬ ∀ {ρ : Type} (m : Method ρ) (s s' : Soul) (key : Bytes), m.Reports key (m.run s).2 →
      Relation.ReflTransGen (Spares key) (m.run s).1 s' →
      ∀ now, (s'.get key now).2 = .ok none := by
  intro h
  have hget := h (.ttl (ascii "k") dawn)
    (Soul.new.set (ascii "k") (.string (ascii "x"), some (2 ^ 63 - 1))) _ (ascii "k")
    ⟨rfl, by decide⟩ .refl 0
  exact absurd hget (by decide)

end Soul
end Heaven
