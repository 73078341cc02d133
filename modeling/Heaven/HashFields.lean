import Mathlib.Data.Finset.Card
import Heaven.SoulCells

/-! # The fields of a hash

HSET and HDEL count in 32 bits while they change the map.  `fieldsOf` is the set of fields of a map;
the loops change it by the listed fields, and `hsetLoop_spec` and `hdelLoop_spec` say what they
count.  The loop of HSET on a fresh hash counts pairs instead of fields, so its answer is right
only if no field is repeated (`reportsCreated_iff`). -/

namespace Heaven
namespace Soul

open Decimal (ascii)

/-! ### The set of fields -/

def fieldsOf (map : FieldMap) : Finset Bytes := map.keys.toFinset

/-- The distinct fields of a list of pairs. -/
def listed (pairs : List (Bytes × Bytes)) : Finset Bytes := (pairs.map Prod.fst).toFinset

/-- The value of the last pair with the field. -/
def lastValue (pairs : List (Bytes × Bytes)) (field : Bytes) : Option Bytes :=
  pairs.reverse.lookup field

theorem mem_fieldsOf {map : FieldMap} {field : Bytes} :
    field ∈ fieldsOf map ↔ (map.lookup field).isSome := by
  rw [fieldsOf, List.mem_toFinset, ← AList.mem_keys, AList.lookup_isSome]

@[simp] theorem fieldsOf_empty : fieldsOf ∅ = ∅ := rfl

theorem card_fieldsOf (map : FieldMap) : (fieldsOf map).card = map.entries.length := by
  rw [fieldsOf, List.toFinset_card_of_nodup map.keys_nodup, AList.keys, List.keys, List.length_map]

theorem fieldsOf_insert (map : FieldMap) (field value : Bytes) :
    fieldsOf (map.insert field value) = insert field (fieldsOf map) := by
  ext other
  rw [fieldsOf, List.mem_toFinset, ← AList.mem_keys, AList.mem_insert, Finset.mem_insert, fieldsOf,
    List.mem_toFinset, AList.mem_keys]

theorem fieldsOf_erase (map : FieldMap) (field : Bytes) :
    fieldsOf (map.erase field) = (fieldsOf map).erase field := by
  ext other
  rw [fieldsOf, List.mem_toFinset, ← AList.mem_keys, AList.mem_erase, Finset.mem_erase, fieldsOf,
    List.mem_toFinset, AList.mem_keys]

theorem listed_cons (field value : Bytes) (pairs : List (Bytes × Bytes)) :
    listed ((field, value) :: pairs) = insert field (listed pairs) := by
  rw [listed, List.map_cons, List.toFinset_cons]
  rfl

theorem lastValue_cons (field value : Bytes) (pairs : List (Bytes × Bytes)) (other : Bytes) :
    lastValue ((field, value) :: pairs) other =
      (lastValue pairs other).or (if other = field then some value else none) := by
  rw [lastValue, List.reverse_cons, List.lookup_append, lastValue, List.lookup_cons,
    List.lookup_nil]
  by_cases h : other = field
  · simp [h]
  · simp [beq_false_of_ne h, h]

/-- A field that is taken out of the old ones counts once. -/
theorem card_insert_sdiff (field : Bytes) (fields old : Finset Bytes) :
    (insert field fields \ old).card =
      (if field ∈ old then 0 else 1) + (fields \ insert field old).card := by
  by_cases h : field ∈ old
  · rw [if_pos h, Finset.insert_sdiff_of_mem _ h, Finset.insert_eq_of_mem h, zero_add]
  · have hsplit : insert field fields \ old = insert field (fields \ insert field old) := by
      ext other
      simp only [Finset.mem_sdiff, Finset.mem_insert]
      grind
    have hnot : field ∉ fields \ insert field old := by simp
    rw [if_neg h, hsplit, Finset.card_insert_of_notMem hnot, add_comm]

/-! ### HSET -/

theorem lookup_insert_eq (map : FieldMap) (field value other : Bytes) :
    (map.insert field value).lookup other =
      if other = field then some value else map.lookup other := by
  split_ifs with h
  · rw [h, AList.lookup_insert]
  · rw [AList.lookup_insert_ne h]

/-- Both loops of HSET build the same map. -/
theorem hsetFreshLoop_fst (map : FieldMap) (added added' : ℕ) (pairs : List (Bytes × Bytes)) :
    (hsetFreshLoop map added pairs).1 = (hsetLoop map added' pairs).1 := by
  induction pairs generalizing map added added' with
  | nil => rfl
  | cons pair pairs ih => exact ih _ _ _

/-- The loop of HSET maps a field to its last listed value. -/
theorem lookup_hsetLoop (map : FieldMap) (added : ℕ) (pairs : List (Bytes × Bytes))
    (field : Bytes) :
    (hsetLoop map added pairs).1.lookup field = (lastValue pairs field).or (map.lookup field) := by
  induction pairs generalizing map added with
  | nil => rfl
  | cons pair pairs ih =>
      obtain ⟨f, value⟩ := pair
      rw [hsetLoop, ih, lastValue_cons, lookup_insert_eq, Option.or_assoc]
      split_ifs <;> rfl

/-- The loop of HSET adds the listed fields. -/
theorem fieldsOf_hsetLoop (map : FieldMap) (added : ℕ) (pairs : List (Bytes × Bytes)) :
    fieldsOf (hsetLoop map added pairs).1 = listed pairs ∪ fieldsOf map := by
  induction pairs generalizing map added with
  | nil => exact (Finset.empty_union _).symm
  | cons pair pairs ih =>
      rw [hsetLoop, ih, listed_cons, fieldsOf_insert, Finset.union_insert, Finset.insert_union]

theorem wrapU32_add_wrapU32 (m n : ℕ) : wrapU32 (wrapU32 m + n) = wrapU32 (m + n) := by
  unfold wrapU32
  rw [Nat.mod_add_mod]

theorem wrapU32_of_lt {n : ℕ} (h : n < 2 ^ 32) : wrapU32 n = n := Nat.mod_eq_of_lt h

theorem wrapU32_lt (n : ℕ) : wrapU32 n < 2 ^ 32 := Nat.mod_lt _ (by norm_num)

/-- **The loop of HSET on an existing hash counts the distinct new fields.** -/
theorem hsetLoop_spec (map : FieldMap) {added : ℕ} (h : added < 2 ^ 32)
    (pairs : List (Bytes × Bytes)) :
    (hsetLoop map added pairs).2 = wrapU32 (added + (listed pairs \ fieldsOf map).card) := by
  induction pairs generalizing map added with
  | nil => simpa [listed, hsetLoop] using (wrapU32_of_lt h).symm
  | cons pair pairs ih =>
      obtain ⟨field, value⟩ := pair
      rw [hsetLoop, listed_cons, card_insert_sdiff, ← fieldsOf_insert map field value]
      by_cases hnew : (map.lookup field).isNone
      · have hmem : field ∉ fieldsOf map := by
          rw [mem_fieldsOf, Option.isNone_iff_eq_none.mp hnew]
          exact Bool.false_ne_true
        rw [if_pos hnew, if_neg hmem, ih _ (wrapU32_lt _), wrapU32_add_wrapU32, add_assoc]
      · have hmem : field ∈ fieldsOf map := by
          rw [mem_fieldsOf]
          exact Option.isSome_iff_ne_none.mpr fun hnone => hnew (by rw [hnone]; rfl)
        rw [if_neg hnew, if_pos hmem, ih _ h, zero_add]

/-- **The loop of HSET on a fresh hash counts the pairs.** -/
theorem hsetFreshLoop_spec (map : FieldMap) {added : ℕ} (h : added < 2 ^ 32)
    (pairs : List (Bytes × Bytes)) :
    (hsetFreshLoop map added pairs).2 = wrapU32 (added + pairs.length) := by
  induction pairs generalizing map added with
  | nil => exact (wrapU32_of_lt h).symm
  | cons pair pairs ih =>
      rw [hsetFreshLoop, ih _ (wrapU32_lt _), wrapU32_add_wrapU32, List.length_cons,
        add_assoc, add_comm 1]

/-! ### HDEL -/

/-- The loop of HDEL removes the listed fields. -/
theorem fieldsOf_hdelLoop (map : FieldMap) (deleted : ℕ) (fields : List Bytes) :
    fieldsOf (hdelLoop map deleted fields).1 = fieldsOf map \ fields.toFinset := by
  induction fields generalizing map deleted with
  | nil => exact Finset.sdiff_empty.symm
  | cons field fields ih =>
      rw [hdelLoop, ih, fieldsOf_erase, List.toFinset_cons]
      ext other
      simp only [Finset.mem_sdiff, Finset.mem_erase, Finset.mem_insert]
      tauto

/-- **The loop of HDEL counts the distinct listed fields of the hash.** -/
theorem hdelLoop_spec (map : FieldMap) {deleted : ℕ} (h : deleted < 2 ^ 32)
    (fields : List Bytes) :
    (hdelLoop map deleted fields).2 =
      wrapU32 (deleted + (fields.toFinset ∩ fieldsOf map).card) := by
  induction fields generalizing map deleted with
  | nil => exact (wrapU32_of_lt h).symm
  | cons field fields ih =>
      rw [hdelLoop, List.toFinset_cons]
      by_cases hold : (map.lookup field).isSome
      · have hmem : field ∈ fieldsOf map := mem_fieldsOf.mpr hold
        have hsplit : insert field fields.toFinset ∩ fieldsOf map =
            insert field (fields.toFinset ∩ fieldsOf (map.erase field)) := by
          ext other
          simp only [fieldsOf_erase, Finset.mem_inter, Finset.mem_insert, Finset.mem_erase]
          grind
        have hnot : field ∉ fields.toFinset ∩ fieldsOf (map.erase field) := by
          simp [fieldsOf_erase]
        rw [if_pos hold, ih _ (wrapU32_lt _), wrapU32_add_wrapU32, hsplit,
          Finset.card_insert_of_notMem hnot, add_assoc, add_comm 1]
      · have hmem : field ∉ fieldsOf map := fun hmem => hold (mem_fieldsOf.mp hmem)
        rw [if_neg hold, ih _ h, fieldsOf_erase, Finset.erase_eq_of_notMem hmem,
          Finset.insert_inter_of_notMem hmem]

/-! ### What HSET reports -/

/-- The key is absent, expired or holds a hash. -/
def HoldsHash (s : Soul) (key : Bytes) (now : ℕ) : Prop :=
  ∀ value expiry, (s.purge now).get? key = some (value, expiry) → value.hash?.isSome

/-- The live hash at the key; it is empty at an absent or expired key. -/
def hashAt (s : Soul) (key : Bytes) (now : ℕ) : FieldMap :=
  match (s.purge now).get? key with
  | some (.hash map, _) => map
  | _ => ∅

/-- The distinct listed fields that are not in the hash. -/
def created (s : Soul) (key : Bytes) (pairs : List (Bytes × Bytes)) (now : ℕ) : Finset Bytes :=
  listed pairs \ fieldsOf (s.hashAt key now)

/-- What HSET is for: it answers the number of fields it created, which is what HLEN grows by, and
every field maps to its last listed value or to what it had. -/
def ReportsCreated (s : Soul) (key : Bytes) (pairs : List (Bytes × Bytes)) (now : ℕ) : Prop :=
  (s.hset key pairs now).2 = .ok (s.created key pairs now).card ∧
    (∃ before, (s.hlen key now).2 = .ok before ∧
      ((s.hset key pairs now).1.hlen key now).2 = .ok (before + (s.created key pairs now).card)) ∧
    ∀ field, ∃ before, (s.hget key field now).2 = .ok before ∧
      ((s.hset key pairs now).1.hget key field now).2 = .ok ((lastValue pairs field).or before)

variable {α ρ : Type} {s : Soul} {key : Bytes} {now : ℕ}

theorem hlen_of_hash {map : FieldMap} {expiry : Option ℕ}
    (h : (s.purge now).get? key = some (.hash map, expiry)) :
    (s.hlen key now).2 = .ok (fieldsOf map).card := by
  rw [hlen, query_snd, h, card_fieldsOf]
  rfl

theorem hget_of_hash {map : FieldMap} {expiry : Option ℕ}
    (h : (s.purge now).get? key = some (.hash map, expiry)) (field : Bytes) :
    (s.hget key field now).2 = .ok (map.lookup field) := by
  rw [hget, query_snd, h]
  rfl

/-- An entry the purged store holds is live. -/
theorem live_of_purge {entry : Entry} (h : (s.purge now).get? key = some entry) :
    live now entry = true := by
  rw [get?_purge] at h
  exact (Option.filter_eq_some_iff.mp h).2

/-- HSET on an absent or expired key. -/
theorem hset_of_absent (h : (s.purge now).get? key = none) (pairs : List (Bytes × Bytes)) :
    (s.hset key pairs now).2 = .ok (wrapU32 pairs.length) ∧
      ((s.hset key pairs now).1.purge now).get? key =
        some (.hash (hsetLoop ∅ 0 pairs).1, none) := by
  constructor
  · have hreply := hsetFreshLoop_spec ∅ (by norm_num : 0 < 2 ^ 32) pairs
    rw [hset_eq_onLive, onLive_snd, h]
    simp only [updateCell, hreply, zero_add]
  · rw [hset_eq_onLive, get?_purge_onLive, h]
    simp only [updateCell, hsetFreshLoop_fst ∅ 0 0]
    rfl

/-- HSET on a live hash. -/
theorem hset_of_hash {map : FieldMap} {expiry : Option ℕ}
    (h : (s.purge now).get? key = some (.hash map, expiry)) (pairs : List (Bytes × Bytes)) :
    (s.hset key pairs now).2 = .ok (wrapU32 (listed pairs \ fieldsOf map).card) ∧
      ((s.hset key pairs now).1.purge now).get? key =
        some (.hash (hsetLoop map 0 pairs).1, expiry) := by
  constructor
  · have hreply := hsetLoop_spec map (by norm_num : 0 < 2 ^ 32) pairs
    rw [hset_eq_onLive, onLive_snd, h]
    simp only [updateCell, Value.hash?, hreply, zero_add]
  · rw [hset_eq_onLive, get?_purge_onLive, h]
    exact if_pos (live_of_purge h)

/-- What HSET creates is what HLEN grows by. -/
theorem card_fieldsOf_hsetLoop (map : FieldMap) (pairs : List (Bytes × Bytes)) :
    (fieldsOf (hsetLoop map 0 pairs).1).card =
      (fieldsOf map).card + (listed pairs \ fieldsOf map).card := by
  rw [fieldsOf_hsetLoop, Finset.union_comm, ← Finset.union_sdiff_self_eq_union,
    Finset.card_union_of_disjoint Finset.disjoint_sdiff]

/-- Apart from the answer HSET always does what it is for. -/
theorem reportsCreated_iff_reply {map : FieldMap} {expiry : Option ℕ}
    {pairs : List (Bytes × Bytes)} (hmap : s.hashAt key now = map)
    (hlen : (s.hlen key now).2 = .ok (fieldsOf map).card)
    (hget : ∀ field, (s.hget key field now).2 = .ok (map.lookup field))
    (hafter : ((s.hset key pairs now).1.purge now).get? key =
      some (.hash (hsetLoop map 0 pairs).1, expiry)) :
    ReportsCreated s key pairs now ↔
      (s.hset key pairs now).2 = .ok (listed pairs \ fieldsOf map).card := by
  unfold ReportsCreated created
  rw [hmap]
  apply and_iff_left
  constructor
  · refine ⟨_, hlen, ?_⟩
    rw [hlen_of_hash hafter, card_fieldsOf_hsetLoop]
  · intro field
    refine ⟨_, hget field, ?_⟩
    rw [hget_of_hash hafter, lookup_hsetLoop]

theorem ok_wrapU32_eq_iff {m n : ℕ} :
    (.ok (wrapU32 m) : Except Sacrilege ℕ) = .ok n ↔ wrapU32 m = n := by
  rw [Except.ok.injEq]

theorem wrapU32_eq_self_iff {n : ℕ} : wrapU32 n = n ↔ n < 2 ^ 32 := by
  constructor
  · intro h
    rw [← h]
    exact wrapU32_lt n
  · exact wrapU32_of_lt

/-- **HSET reports what it created if and only if** the new fields of a live hash number less than
2 ^ 32 and the pairs for a fresh one number, modulo 2 ^ 32, as many as their fields. -/
theorem reportsCreated_iff (h : HoldsHash s key now) (pairs : List (Bytes × Bytes)) :
    ReportsCreated s key pairs now ↔
      if ((s.purge now).get? key).isSome then (s.created key pairs now).card < 2 ^ 32
      else wrapU32 pairs.length = (listed pairs).card := by
  rcases hcell : (s.purge now).get? key with _ | ⟨value, expiry⟩
  · have hmap : s.hashAt key now = ∅ := by
      unfold hashAt
      rw [hcell]
    have hlen : (s.hlen key now).2 = .ok (fieldsOf ∅).card := by
      rw [Soul.hlen, query_snd, hcell]
      rfl
    have hget : ∀ field, (s.hget key field now).2 = .ok (AList.lookup field (∅ : FieldMap)) := by
      intro field
      rw [Soul.hget, query_snd, hcell]
      rfl
    obtain ⟨hreply, hafter⟩ := hset_of_absent hcell pairs
    rw [reportsCreated_iff_reply hmap hlen hget hafter, hreply, ok_wrapU32_eq_iff,
      fieldsOf_empty, Finset.sdiff_empty]
    rfl
  · obtain ⟨map, hvalue⟩ := Option.isSome_iff_exists.mp (h value expiry hcell)
    rw [hash?_eq_some.mp hvalue] at hcell
    have hmap : s.hashAt key now = map := by
      unfold hashAt
      rw [hcell]
    obtain ⟨hreply, hafter⟩ := hset_of_hash hcell pairs
    rw [reportsCreated_iff_reply hmap (hlen_of_hash hcell) (hget_of_hash hcell) hafter, hreply,
      ok_wrapU32_eq_iff, wrapU32_eq_self_iff, created, hmap]
    rfl

/-- With fewer than 2 ^ 32 pairs the answer on a fresh hash is right if no field is repeated. -/
theorem wrapU32_length_eq_iff {pairs : List (Bytes × Bytes)} (h : pairs.length < 2 ^ 32) :
    wrapU32 pairs.length = (listed pairs).card ↔ (pairs.map Prod.fst).Nodup := by
  rw [wrapU32_of_lt h, listed, ← List.length_map (f := Prod.fst), eq_comm]
  exact Multiset.toFinset_card_eq_card_iff_nodup

theorem holdsHash_new (key : Bytes) (now : ℕ) : HoldsHash Soul.new key now := by
  intro value expiry h
  rw [get?_purge] at h
  cases h

/-- Two pairs for a fresh hash. -/
theorem reportsCreated_iff_fresh :
    ReportsCreated Soul.new (ascii "k") [(ascii "f", ascii "1"), (ascii "g", ascii "2")] 0 ↔
      wrapU32 2 = (listed [(ascii "f", ascii "1"), (ascii "g", ascii "2")]).card :=
  reportsCreated_iff (holdsHash_new _ _) _

/-- A repeated field of a fresh hash is reported twice. -/
theorem hset_counts_repeated_field :
    ¬ ∀ (s : Soul) (key : Bytes) (pairs : List (Bytes × Bytes)) (now : ℕ),
      HoldsHash s key now → ReportsCreated s key pairs now := by
  intro h
  obtain ⟨hreply, -, -⟩ := h Soul.new (ascii "k") [(ascii "f", ascii "1"), (ascii "f", ascii "2")] 0
    (holdsHash_new _ _)
  have htwo : (Soul.new.hset (ascii "k") [(ascii "f", ascii "1"), (ascii "f", ascii "2")] 0).2 =
      .ok 2 := rfl
  have hone : (Soul.new.created (ascii "k") [(ascii "f", ascii "1"), (ascii "f", ascii "2")]
      0).card = 1 := by decide
  rw [htwo, hone] at hreply
  cases hreply

end Soul
end Heaven
