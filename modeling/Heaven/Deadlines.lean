import Heaven.Locality

/-! # Deadlines

The deadline of a key stands beside its value, and a method that changes the value in place has to
leave it as it is.  `Keeps` says this of an operation on a cell and `KeepsDeadlines` of one on the
store.  SET, MSET and EXPIRE are the only methods that store a deadline
(`Method.keepsDeadlines`); what a writing method makes of an absent or expired key has
none (`Method.creates`). -/

namespace Heaven
namespace Soul

open Decimal (ascii)

variable {α β ρ : Type} {s : Soul} {key : Bytes} {now : ℕ}

/-- An entry that stays in the cell keeps its deadline. -/
def Keeps (g : Option Entry → Option Entry × ρ) : Prop :=
  ∀ value expiry value' expiry', (g (some (value, expiry))).1 = some (value', expiry') →
    expiry' = expiry

/-- A live entry that stays in the store keeps its deadline. -/
def KeepsDeadlines (now : ℕ) (op : Soul → Soul × ρ) : Prop :=
  ∀ (s : Soul) (key : Bytes) (value : Value) (expiry : Option ℕ) (value' : Value)
    (expiry' : Option ℕ), s.get? key = some (value, expiry) → isExpired expiry now = false →
    (op s).1.get? key = some (value', expiry') → expiry' = expiry

/-- SET, MSET and EXPIRE. -/
def Method.storesDeadline : {ρ : Type} → Method ρ → Bool
  | _, .set _ _ | _, .mset _ | _, .expire _ _ _ => true
  | _, _ => false

/-- The key of a method that makes an entry where there is none; SET and MSET always do. -/
def Method.createKey? : {ρ : Type} → Method ρ → Option Bytes
  | _, .append key _ _ | _, .incr key _ | _, .incrby key _ _ | _, .decr key _ | _, .hset key _ _
  | _, .lpush key _ _ | _, .rpush key _ _ | _, .sadd key _ _ => some key
  | _, _ => none

/-! ### Cells -/

theorem keeps_queryCell (view : Value → Option α) (wrongType absent : ρ) (found : α → ρ) :
    Keeps (queryCell view wrongType absent found) := by
  intro value expiry value' expiry' h
  rw [queryCell_fst] at h
  cases h
  rfl

theorem keeps_updateCell (view : Value → Option α) (wrap : α → Value) (wrongType : ρ)
    (absent : Option Entry × ρ) (found : α → α × ρ) :
    Keeps (updateCell view wrap wrongType absent found) := by
  intro value expiry value' expiry' h
  unfold updateCell at h
  cases hview : view value with
  | none =>
      simp only [hview] at h
      cases h
      rfl
  | some x =>
      simp only [hview] at h
      cases h
      rfl

theorem keeps_popCell (now : ℕ) (cmd : Command) (absent : ρ)
    (pop : List Bytes → List Bytes × ρ) : Keeps (popCell now cmd absent pop) := by
  intro value expiry value' expiry' h
  cases value with
  | list list =>
      unfold popCell at h
      dsimp only at h
      split_ifs at h
      cases h
      rfl
  | string _ | hash _ | set _ =>
      cases h
      rfl

theorem keeps_sremCell (values : List Bytes) : Keeps (sremCell values) := by
  intro value expiry value' expiry' h
  cases value with
  | set set =>
      unfold sremCell at h
      dsimp only at h
      split_ifs at h
      cases h
      rfl
  | string _ | list _ | hash _ =>
      cases h
      rfl

/-! ### Stores -/

theorem keepsDeadlines_onCell {op : Soul → Soul × ρ} {key : Bytes}
    {f : Option Entry → Option Entry × ρ} (h : ∀ s : Soul, op s = s.onCell key f) (hf : Keeps f) :
    KeepsDeadlines now op := by
  intro s key' value expiry value' expiry' hs _ hs'
  rw [h s] at hs'
  by_cases hkey : key' = key
  · subst hkey
    rw [Dict.onCell_get?_self, hs] at hs'
    exact hf value expiry value' expiry' hs'
  · rw [Dict.onCell_get?_ne s f hkey, hs] at hs'
    cases hs'
    rfl

theorem keepsDeadlines_onLive {op : Soul → Soul × ρ} {key : Bytes}
    {g : Option Entry → Option Entry × ρ} (h : ∀ s : Soul, op s = s.onLive key now g)
    (hg : Keeps g) : KeepsDeadlines now op := by
  intro s key' value expiry value' expiry' hs hlive hs'
  rw [h s, get?_onLive] at hs'
  split_ifs at hs' with hkey
  · subst hkey
    rw [hs, filter_live_some, hlive] at hs'
    exact hg value expiry value' expiry' hs'
  · rw [hs] at hs'
    cases hs'
    rfl

theorem keepsDeadlines_popWith (key : Bytes) (now : ℕ) (cmd : Command) (absent : ρ)
    (pop : List Bytes → List Bytes × ρ) :
    KeepsDeadlines now fun s : Soul => s.popWith key now cmd absent pop :=
  keepsDeadlines_onCell (fun s => popWith_eq_onCell s key now cmd absent pop)
    (keeps_popCell now cmd absent pop)

/-- The operation changes no entry, except that it may drop some. -/
def OnlyDrops (op : Soul → Soul × ρ) : Prop :=
  ∀ (s : Soul) (key : Bytes), (op s).1.get? key = s.get? key ∨ (op s).1.get? key = none

theorem onlyDrops_getValidValue (now : ℕ) (key : Bytes) :
    OnlyDrops fun s => s.getValidValue key now := by
  intro s key'
  dsimp only
  rw [getValidValue_eq_onLive, get?_onLive]
  split_ifs with hkey
  · subst hkey
    cases hcell : (s.get? key').filter (live now) with
    | none => exact Or.inr rfl
    | some entry => exact Or.inl (Option.filter_eq_some_iff.mp hcell).1.symm
  · exact Or.inl rfl

theorem onlyDrops_removeValidValue (now : ℕ) (key : Bytes) :
    OnlyDrops fun s => s.removeValidValue key now := by
  intro s key'
  dsimp only
  rw [removeValidValue_eq_onLive, get?_onLive]
  split_ifs
  · exact Or.inr rfl
  · exact Or.inl rfl

theorem onlyDrops_forKeys {access : Soul → Bytes → Soul × Option Value}
    (h : ∀ key, OnlyDrops fun s => access s key) (visit : β → Option Value → β)
    (keys : List Bytes) (acc : β) : OnlyDrops fun s => forKeys access visit s acc keys := by
  induction keys generalizing acc with
  | nil => exact fun _ _ => Or.inl rfl
  | cons key keys ih =>
      intro s key'
      have hrest := ih (visit acc (access s key).2) (access s key).1 key'
      rcases hrest with hrest | hrest
      · rcases h key s key' with hkey | hkey
        · exact Or.inl (hrest.trans hkey)
        · exact Or.inr (hrest.trans hkey)
      · exact Or.inr hrest

theorem keepsDeadlines_of_onlyDrops {op : Soul → Soul × ρ} (h : OnlyDrops op) :
    KeepsDeadlines now op := by
  intro s key value expiry value' expiry' hs _ hs'
  rcases h s key with hkey | hkey
  · rw [hkey, hs] at hs'
    cases hs'
    rfl
  · rw [hkey] at hs'
    cases hs'

/-! ### All methods -/

/-- **No method but SET, MSET and EXPIRE changes the deadline of a live entry.** -/
theorem Method.keepsDeadlines (m : Method ρ) (hm : m.storesDeadline = false)
    (hnow : m.now? = some now) : KeepsDeadlines now m.run := by
  cases m <;> cases hnow
  case get | strlen | hget | hmget | hexists | hlen | hgetall | llen | lrange | lindex
      | sismember | smembers =>
    exact keepsDeadlines_onLive (fun s => query_eq_onLive s _ _ _ _ _ _)
      (keeps_queryCell _ _ _ _)
  case append =>
    exact keepsDeadlines_onLive (fun s => append_eq_onLive s _ _ _) (keeps_updateCell _ _ _ _ _)
  case incr =>
    exact keepsDeadlines_onLive (fun s => incr_eq_onLive s _ _) (keeps_updateCell _ _ _ _ _)
  case incrby =>
    exact keepsDeadlines_onLive (fun s => incrby_eq_onLive s _ _ _) (keeps_updateCell _ _ _ _ _)
  case decr =>
    exact keepsDeadlines_onLive (fun s => decr_eq_onLive s _ _) (keeps_updateCell _ _ _ _ _)
  case del =>
    exact keepsDeadlines_of_onlyDrops (onlyDrops_forKeys (onlyDrops_removeValidValue _) _ _ _)
  case «exists» =>
    exact keepsDeadlines_of_onlyDrops (onlyDrops_forKeys (onlyDrops_getValidValue _) _ _ _)
  case hset =>
    exact keepsDeadlines_onLive (fun s => hset_eq_onLive s _ _ _) (keeps_updateCell _ _ _ _ _)
  case hdel =>
    exact keepsDeadlines_onLive (fun s => hdel_eq_onLive s _ _ _) (keeps_updateCell _ _ _ _ _)
  case lpush =>
    exact keepsDeadlines_onLive (fun s => lpush_eq_onLive s _ _ _) (keeps_updateCell _ _ _ _ _)
  case rpush =>
    exact keepsDeadlines_onLive (fun s => rpush_eq_onLive s _ _ _) (keeps_updateCell _ _ _ _ _)
  case lpop key => exact keepsDeadlines_popWith key now .lpop none popFront
  case lpopM key count =>
    show KeepsDeadlines now fun s : Soul => s.lpopM key count now
    exact keepsDeadlines_popWith key now _ _ _
  case rpop key => exact keepsDeadlines_popWith key now .rpop none popBack
  case rpopM key count =>
    show KeepsDeadlines now fun s : Soul => s.rpopM key count now
    exact keepsDeadlines_popWith key now _ _ _
  case lset =>
    exact keepsDeadlines_onLive (fun s => lset_eq_onLive s _ _ _ _) (keeps_updateCell _ _ _ _ _)
  case lrem =>
    exact keepsDeadlines_onLive (fun s => lrem_eq_onLive s _ _ _ _) (keeps_updateCell _ _ _ _ _)
  case expire => cases hm
  case mget =>
    have hloop := onlyDrops_forKeys (onlyDrops_getValidValue now)
      (fun result value => result ++ [value.bind Value.string?])
    exact keepsDeadlines_of_onlyDrops fun s key => hloop _ [] s key
  case sadd =>
    exact keepsDeadlines_onLive (fun s => sadd_eq_onLive s _ _ _) (keeps_updateCell _ _ _ _ _)
  case srem =>
    exact keepsDeadlines_onLive (fun s => srem_eq_onLive s _ _ _) (keeps_sremCell _)

/-- An entry that is made where there was no live one. -/
theorem creates_onLive {op : Soul → Soul × ρ} {g : Option Entry → Option Entry × ρ}
    (h : ∀ s : Soul, op s = s.onLive key now g) {value : Value}
    (hg : (g none).1 = some (value, none))
    (hs : ∀ value expiry, s.get? key = some (value, expiry) → isExpired expiry now = true) :
    ∃ value, (op s).1.get? key = some (value, none) := by
  have hnone : (s.get? key).filter (live now) = none := by
    rcases hcell : s.get? key with _ | ⟨value, expiry⟩
    · rfl
    · rw [filter_live_some, if_pos (hs value expiry hcell)]
  refine ⟨value, ?_⟩
  rw [h s, get?_onLive, if_pos rfl, hnone, hg]

/-- A writing method on an absent or expired key makes an entry without a deadline. -/
theorem Method.creates (m : Method ρ) (hm : m.createKey? = some key) (hnow : m.now? = some now)
    (hs : ∀ value expiry, s.get? key = some (value, expiry) → isExpired expiry now = true) :
    ∃ value, (m.run s).1.get? key = some (value, none) := by
  cases m <;> cases hm <;> cases hnow
  case append => exact creates_onLive (fun s => append_eq_onLive s _ _ _) rfl hs
  case incr => exact creates_onLive (fun s => incr_eq_onLive s _ _) rfl hs
  case incrby => exact creates_onLive (fun s => incrby_eq_onLive s _ _ _) rfl hs
  case decr => exact creates_onLive (fun s => decr_eq_onLive s _ _) rfl hs
  case hset => exact creates_onLive (fun s => hset_eq_onLive s _ _ _) rfl hs
  case lpush => exact creates_onLive (fun s => lpush_eq_onLive s _ _ _) rfl hs
  case rpush => exact creates_onLive (fun s => rpush_eq_onLive s _ _ _) rfl hs
  case sadd => exact creates_onLive (fun s => sadd_eq_onLive s _ _ _) rfl hs

theorem mset_get? (terms : List Bytes) (hkey : key ∈ msetKeys terms) (s : Soul) :
    ∃ value, (s.mset terms).get? key = some (.string value, none) := by
  induction terms using msetKeys.induct generalizing s with
  | case1 key' value terms ih =>
      by_cases hrest : key ∈ msetKeys terms
      · exact ih hrest (s.insert key' (.string value, none))
      · -- the last time the key is named
        have hhead : key = key' := (List.mem_cons.mp hkey).resolve_right hrest
        subst hhead
        have hframe := (mset_concerns terms).frame (s.insert key (.string value, none)) key hrest
        exact ⟨value, hframe.trans (Dict.get?_insert_self s key _)⟩
  | case2 terms hterms =>
      rcases terms with _ | ⟨key', _ | ⟨value, terms⟩⟩
      · cases hkey
      · cases hkey
      · exact absurd rfl (hterms key' value terms)

/-- **Deadlines survive changes in place and do not leak into new values.**  The methods that are
not listed in `storesDeadline` and have a clock are those that change or read a value in place, and
DEL. -/
theorem deadlines_survive (s : Soul) (key : Bytes) (now : ℕ) :
    (∀ {ρ : Type} (m : Method ρ), m.storesDeadline = false → m.now? = some now →
      ∀ value expiry, s.get? key = some (value, expiry) → isExpired expiry now = false →
      ∀ value' expiry', (m.run s).1.get? key = some (value', expiry') → expiry' = expiry) ∧
    (∀ {ρ : Type} (m : Method ρ), m.createKey? = some key → m.now? = some now →
      (∀ value expiry, s.get? key = some (value, expiry) → isExpired expiry now = true) →
      ∃ value, (m.run s).1.get? key = some (value, none)) ∧
    (∀ value expiry, (s.set key (value, expiry)).get? key = some (value, expiry)) ∧
    (∀ terms, key ∈ msetKeys terms →
      ∃ value, (s.mset terms).get? key = some (.string value, none)) ∧
    ∀ expiry,
      (∀ value old, s.get? key = some (value, old) → isExpired old now = false →
        (s.expire key expiry now).1.get? key = some (value, some expiry)) ∧
      ((∀ value old, s.get? key = some (value, old) → isExpired old now = true) →
        (s.expire key expiry now).1.get? key = none) ∧
      ∀ key', key' ≠ key → (s.expire key expiry now).1.get? key' = s.get? key' := by
  refine ⟨?_, ?_, ?_, ?_, ?_⟩
  · intro ρ m hm hnow value expiry hs hlive value' expiry' hs'
    exact m.keepsDeadlines hm hnow s key value expiry value' expiry' hs hlive hs'
  · intro ρ m hm hnow hs
    exact m.creates hm hnow hs
  · intro value expiry
    exact Dict.get?_insert_self s key _
  · intro terms hkey
    exact mset_get? terms hkey s
  · intro expiry
    rw [expire_eq_onLive]
    refine ⟨?_, ?_, ?_⟩
    · intro value old hs hlive
      rw [get?_onLive, if_pos rfl, hs, filter_live_some, hlive]
      rfl
    · intro hs
      rw [get?_onLive, if_pos rfl]
      rcases hcell : s.get? key with _ | ⟨value, old⟩
      · rfl
      · rw [filter_live_some, if_pos (hs value old hcell)]
        rfl
    · intro key' hkey
      rw [get?_onLive, if_neg hkey]

/-- APPEND to a key that is live until second 20. -/
theorem deadlines_survive_append :
    let s := Soul.new.set (ascii "k") (.string (ascii "x"), some 20)
    ∀ value' expiry', ((Method.append (ascii "k") (ascii "y") 10).run s).1.get? (ascii "k") =
      some (value', expiry') → expiry' = some 20 :=
  (deadlines_survive (Soul.new.set (ascii "k") (.string (ascii "x"), some 20)) (ascii "k") 10).1
    (.append (ascii "k") (ascii "y") 10) rfl rfl (.string (ascii "x")) (some 20)
    (Dict.get?_insert_self _ _ _) rfl

end Soul
end Heaven
