import Heaven.Methods
import Heaven.Lib.Local

/-! # Commands are local

A method names the keys that it is given (`Method.keys`) and concerns no others (`Method.concerns`):
it leaves every other entry as it is, and does the same in two stores that agree on its keys.  So
methods with disjoint keys commute (`methods_commute`). -/

namespace Heaven
namespace Soul

open Decimal (ascii)

variable {α β ρ σ : Type}

/-- The keys of MSET stand at the even places of its terms. -/
def msetKeys : List Bytes → List Bytes
  | key :: _ :: terms => key :: msetKeys terms
  | _ => []

/-- The keys that a method names. -/
def Method.keys : {ρ : Type} → Method ρ → List Bytes
  | _, .get key _ | _, .set key _ | _, .append key _ _ | _, .incr key _ | _, .incrby key _ _
  | _, .decr key _ | _, .strlen key _ | _, .hset key _ _ | _, .hget key _ _ | _, .hmget key _ _
  | _, .hdel key _ _ | _, .hexists key _ _ | _, .hlen key _ | _, .hgetall key _
  | _, .lpush key _ _ | _, .lpop key _ | _, .lpopM key _ _ | _, .rpush key _ _ | _, .rpop key _
  | _, .rpopM key _ _ | _, .llen key _ | _, .lrange key _ _ _ | _, .lindex key _ _
  | _, .lset key _ _ _ | _, .lrem key _ _ _ | _, .expire key _ _ | _, .ttl key _
  | _, .sadd key _ _ | _, .srem key _ _ | _, .sismember key _ _ | _, .smembers key _ => [key]
  | _, .del keys _ | _, .exists keys _ | _, .mget keys _ => keys
  | _, .mset terms => msetKeys terms

/-! ### One key -/

theorem concerns_of_onCell {op : Soul → Soul × ρ} {key : Bytes}
    {f : Option Entry → Option Entry × ρ} (h : ∀ s : Soul, op s = s.onCell key f) :
    Dict.Local {k | k ∈ [key]} op := by
  have hkey : {k | k ∈ [key]} = ({key} : Set Bytes) := by
    ext k
    exact List.mem_singleton
  rw [hkey, funext h]
  exact Dict.local_onCell key f

theorem concerns_of_onLive {op : Soul → Soul × ρ} {key : Bytes} {now : ℕ}
    {g : Option Entry → Option Entry × ρ} (h : ∀ s : Soul, op s = s.onLive key now g) :
    Dict.Local {k | k ∈ [key]} op :=
  concerns_of_onCell (f := fun o => g (o.filter (live now))) h

theorem popWith_concerns (key : Bytes) (now : ℕ) (cmd : Command) (absent : ρ)
    (pop : List Bytes → List Bytes × ρ) :
    Dict.Local {k | k ∈ [key]} fun s : Soul => s.popWith key now cmd absent pop :=
  concerns_of_onCell fun s => popWith_eq_onCell s key now cmd absent pop

/-! ### Several keys -/

/-- A loop over keys concerns the keys of the loop. -/
theorem forKeys_concerns {access : Soul → Bytes → Soul × Option Value}
    (h : ∀ key, Dict.Local {k | k ∈ [key]} fun s => access s key) (visit : β → Option Value → β)
    (keys : List Bytes) (acc : β) :
    Dict.Local {k | k ∈ keys} fun s => forKeys access visit s acc keys := by
  induction keys generalizing acc with
  | nil => exact Dict.local_return acc
  | cons key keys ih =>
      have hhead : Dict.Local {k | k ∈ key :: keys} fun s => access s key := by
        apply (h key).mono
        rintro k hk
        rw [List.mem_singleton.mp hk]
        exact List.mem_cons_self
      have hrest : ∀ value, Dict.Local {k | k ∈ key :: keys}
          fun s => forKeys access visit s (visit acc value) keys := by
        intro value
        apply (ih (visit acc value)).mono
        intro k hk
        exact List.mem_cons_of_mem key hk
      exact hhead.bind hrest

theorem mset_concerns (terms : List Bytes) :
    Dict.Local {k | k ∈ msetKeys terms} fun s : Soul => (s.mset terms, ()) := by
  induction terms using msetKeys.induct with
  | case1 key value terms ih =>
      have hhead : Dict.Local {k | k ∈ key :: msetKeys terms}
          fun s : Soul => (s.insert key (.string value, none), ()) := by
        have hcell : Dict.Local {k | k ∈ [key]}
            fun s : Soul => (s.insert key (.string value, none), ()) :=
          concerns_of_onCell (f := fun _ => (some (.string value, none), ())) fun _ => rfl
        apply hcell.mono
        rintro k hk
        rw [List.mem_singleton.mp hk]
        exact List.mem_cons_self
      have hrest : Dict.Local {k | k ∈ key :: msetKeys terms}
          fun s : Soul => (s.mset terms, ()) := by
        apply ih.mono
        intro k hk
        exact List.mem_cons_of_mem key hk
      exact hhead.bind fun _ => hrest
  | case2 terms hterms =>
      have hmset : ∀ s : Soul, s.mset terms = s := by
        intro s
        rcases terms with _ | ⟨key, _ | ⟨value, terms⟩⟩
        · rfl
        · rfl
        · exact absurd rfl (hterms key value terms)
      simp only [hmset]
      exact Dict.local_return ()

/-! ### All methods -/

/-- **A method concerns no keys but those it names.** -/
theorem Method.concerns (m : Method ρ) : Dict.Local {k | k ∈ m.keys} m.run := by
  have hget : ∀ (now : ℕ) (key : Bytes),
      Dict.Local {k | k ∈ [key]} fun s : Soul => s.getValidValue key now :=
    fun now key => concerns_of_onLive fun s => getValidValue_eq_onLive s key now
  have hremove : ∀ (now : ℕ) (key : Bytes),
      Dict.Local {k | k ∈ [key]} fun s : Soul => s.removeValidValue key now :=
    fun now key => concerns_of_onLive fun s => removeValidValue_eq_onLive s key now
  cases m
  case get | strlen | hget | hmget | hexists | hlen | hgetall | llen | lrange | lindex
      | sismember | smembers =>
    exact concerns_of_onLive fun s => query_eq_onLive s _ _ _ _ _ _
  case set key val =>
    exact concerns_of_onCell (f := fun _ => (some val, ())) fun _ => rfl
  case append => exact concerns_of_onLive fun s => append_eq_onLive s _ _ _
  case incr => exact concerns_of_onLive fun s => incr_eq_onLive s _ _
  case incrby => exact concerns_of_onLive fun s => incrby_eq_onLive s _ _ _
  case decr => exact concerns_of_onLive fun s => decr_eq_onLive s _ _
  case del keys now => exact forKeys_concerns (hremove now) _ _ _
  case «exists» keys now => exact forKeys_concerns (hget now) _ _ _
  case hset => exact concerns_of_onLive fun s => hset_eq_onLive s _ _ _
  case hdel => exact concerns_of_onLive fun s => hdel_eq_onLive s _ _ _
  case lpush => exact concerns_of_onLive fun s => lpush_eq_onLive s _ _ _
  case rpush => exact concerns_of_onLive fun s => rpush_eq_onLive s _ _ _
  case lpop key now => exact popWith_concerns key now .lpop none popFront
  case lpopM key count now =>
    show Dict.Local {k | k ∈ [key]} fun s : Soul => s.lpopM key count now
    exact popWith_concerns key now _ _ _
  case rpop key now => exact popWith_concerns key now .rpop none popBack
  case rpopM key count now =>
    show Dict.Local {k | k ∈ [key]} fun s : Soul => s.rpopM key count now
    exact popWith_concerns key now _ _ _
  case lset => exact concerns_of_onLive fun s => lset_eq_onLive s _ _ _ _
  case lrem => exact concerns_of_onLive fun s => lrem_eq_onLive s _ _ _ _
  case expire => exact concerns_of_onLive fun s => expire_eq_onLive s _ _ _
  case ttl => exact concerns_of_onCell fun s => ttl_eq_onCell s _ _
  case mset terms => exact mset_concerns terms
  case mget terms now =>
    have hloop := forKeys_concerns (hget now)
      (fun result value => result ++ [value.bind Value.string?]) terms []
    exact hloop.bind fun result => Dict.local_return (some result)
  case sadd => exact concerns_of_onLive fun s => sadd_eq_onLive s _ _ _
  case srem => exact concerns_of_onLive fun s => srem_eq_onLive s _ _ _

/-- **Methods that name disjoint sets of keys commute**, and every method leaves the entries of
other keys as they are.  The fields of a hash and the members of a set are lists here, so the stores
are equal even in their order. -/
theorem methods_commute :
    (∀ {ρ : Type} (m : Method ρ) (s : Soul) (key : Bytes), key ∉ m.keys →
      (m.run s).1.get? key = s.get? key) ∧
    ∀ {ρ σ : Type} (a : Method ρ) (b : Method σ) (s : Soul), (∀ key ∈ a.keys, key ∉ b.keys) →
      (a.run (b.run s).1).2 = (a.run s).2 ∧ (b.run (a.run s).1).2 = (b.run s).2 ∧
        (b.run (a.run s).1).1 = (a.run (b.run s).1).1 := by
  constructor
  · intro ρ m s key hkey
    exact m.concerns.frame s key hkey
  · intro ρ σ a b s hdisjoint
    exact Dict.Local.commute a.concerns b.concerns hdisjoint s

/-- DEL of an expired key and of one with a value, and MSET of two others. -/
theorem methods_commute_del_mset :
    let s := (Soul.new.set (ascii "a") (.string (ascii "x"), some 5)).set (ascii "b")
      (.list [ascii "y"], none)
    let del := Method.del [ascii "a", ascii "b"] 10
    let mset := Method.mset [ascii "c", ascii "1", ascii "d", ascii "2"]
    (del.run (mset.run s).1).2 = (del.run s).2 ∧ (mset.run (del.run s).1).2 = (mset.run s).2 ∧
      (mset.run (del.run s).1).1 = (del.run (mset.run s).1).1 :=
  methods_commute.2 (.del [ascii "a", ascii "b"] 10)
    (.mset [ascii "c", ascii "1", ascii "d", ascii "2"]) _ (by decide)

end Soul
end Heaven
