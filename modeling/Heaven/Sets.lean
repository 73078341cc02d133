import Heaven.Lib.Transcript
import Heaven.SoulCells

/-! # Sets over runs

What SADD and SREM on one key are for is a finite set of values: SADD forms the union, SREM the
difference, and each answers by how much the set has grown or shrunk (`SetCommand.apply`).  The
store simulates that over whole runs from an absent key (`set_run`), though it counts value by
value, in two loops for a fresh and an existing set, and drops the key with its last value. -/

namespace Heaven

open Decimal (ascii)
open Soul Transcripts

/-- The commands that change a set. -/
inductive SetCommand where
  | sadd (values : List Bytes)
  | srem (values : List Bytes)

namespace SetCommand

def values : SetCommand → List Bytes
  | .sadd values | .srem values => values

/-- What the command does to the set at a key, and its answer. -/
def apply : SetCommand → Finset Bytes → Finset Bytes × ℕ
  | .sadd values, S => (S ∪ values.toFinset, (S ∪ values.toFinset).card - S.card)
  | .srem values, S => (S \ values.toFinset, S.card - (S \ values.toFinset).card)

/-- The command on the store, at its time. -/
def run (key : Bytes) (now : ℕ) : SetCommand → Soul → Soul × Except Sacrilege ℕ
  | .sadd values, s => s.sadd key values now
  | .srem values, s => s.srem key values now

end SetCommand

namespace Soul

/-! ### The loops -/

theorem toFinset_saddLoop (set : HashSet Bytes) (count : ℕ) (values : List Bytes) :
    (saddLoop set count values).1.toFinset = set.toFinset ∪ values.toFinset := by
  induction values generalizing set count with
  | nil => simp [saddLoop]
  | cons value values ih =>
      rw [saddLoop, ih, HashSet.toFinset_insert, List.toFinset_cons, Finset.insert_union,
        Finset.union_insert]

/-- What SADD counts is what the set has grown by. -/
theorem saddLoop_len (set : HashSet Bytes) (count : ℕ) (values : List Bytes) :
    (saddLoop set count values).2 + set.len = count + (saddLoop set count values).1.len := by
  induction values generalizing set count with
  | nil => rfl
  | cons value values ih =>
      have h := ih (set.insert value)
      rw [saddLoop]
      by_cases hmem : value ∈ set
      · have hlen : (set.insert value).len = set.len := by
          rw [← HashSet.card_toFinset, HashSet.toFinset_insert,
            Finset.insert_eq_of_mem (HashSet.mem_toFinset.mpr hmem), HashSet.card_toFinset]
        rw [if_pos (HashSet.contains_iff.mpr hmem), ← h, hlen]
      · have hlen : (set.insert value).len = set.len + 1 := by
          rw [← HashSet.card_toFinset, HashSet.toFinset_insert,
            Finset.card_insert_of_notMem (HashSet.mem_toFinset.not.mpr hmem),
            HashSet.card_toFinset]
        rw [if_neg (HashSet.contains_iff.not.mpr hmem)]
        have h' := h (count + 1)
        omega

theorem toFinset_sremLoop (set : HashSet Bytes) (count : ℕ) (values : List Bytes) :
    (sremLoop set count values).1.toFinset = set.toFinset \ values.toFinset := by
  induction values generalizing set count with
  | nil => simp [sremLoop]
  | cons value values ih =>
      rw [sremLoop, ih, HashSet.toFinset_remove, List.toFinset_cons, Finset.erase_sdiff_comm,
        Finset.sdiff_insert]

/-- What SREM counts is what the set has shrunk by. -/
theorem sremLoop_len (set : HashSet Bytes) (count : ℕ) (values : List Bytes) :
    (sremLoop set count values).2 + (sremLoop set count values).1.len = count + set.len := by
  induction values generalizing set count with
  | nil => rfl
  | cons value values ih =>
      have h := ih (set.remove value)
      rw [sremLoop]
      by_cases hmem : value ∈ set
      · have hlen : (set.remove value).len + 1 = set.len := by
          rw [← HashSet.card_toFinset, HashSet.toFinset_remove,
            Finset.card_erase_add_one (HashSet.mem_toFinset.mpr hmem), HashSet.card_toFinset]
        rw [if_pos (HashSet.contains_iff.mpr hmem)]
        have h' := h (count + 1)
        omega
      · have hlen : (set.remove value).len = set.len := by
          rw [← HashSet.card_toFinset, HashSet.toFinset_remove,
            Finset.erase_eq_of_notMem (HashSet.mem_toFinset.not.mpr hmem), HashSet.card_toFinset]
        rw [if_neg (HashSet.contains_iff.not.mpr hmem), h, hlen]

/-! ### The cell -/

/-- The cell of a set without a deadline; the empty set has none. -/
structure HoldsSet (S : Finset Bytes) (o : Option Entry) : Prop where
  present : o = none ↔ S = ∅
  elems : ∀ entry, o = some entry →
    ∃ set : HashSet Bytes, entry = (.set set, none) ∧ set.toFinset = S

theorem holdsSet_none : HoldsSet ∅ none where
  present := iff_of_true rfl rfl
  elems := by
    intro entry h
    cases h

theorem holdsSet_some {set : HashSet Bytes} (h : set.toFinset ≠ ∅) :
    HoldsSet set.toFinset (some (.set set, none)) where
  present := iff_of_false (Option.some_ne_none _) h
  elems := by
    rintro _ ⟨⟩
    exact ⟨set, rfl, rfl⟩

/-- A cell that holds a set is vacant, or holds a nonempty set. -/
theorem HoldsSet.cases {S : Finset Bytes} {o : Option Entry} (h : HoldsSet S o) :
    (o = none ∧ S = ∅) ∨
      ∃ set : HashSet Bytes, o = some (.set set, none) ∧ set.toFinset = S ∧ S ≠ ∅ := by
  cases o with
  | none => exact Or.inl ⟨rfl, h.present.mp rfl⟩
  | some entry =>
      obtain ⟨set, rfl, hset⟩ := h.elems entry rfl
      exact Or.inr ⟨set, rfl, hset, h.present.not.mp (Option.some_ne_none _)⟩

theorem HoldsSet.filter {S : Finset Bytes} {o : Option Entry} (h : HoldsSet S o) (now : ℕ) :
    o.filter (live now) = o := by
  obtain ⟨rfl, -⟩ | ⟨set, rfl, -, -⟩ := h.cases <;> rfl

theorem sadd_holds {S : Finset Bytes} {s : Soul} {key : Bytes} (h : HoldsSet S (s.get? key))
    (now : ℕ) {values : List Bytes} (hvalues : values ≠ []) :
    HoldsSet (S ∪ values.toFinset) ((s.sadd key values now).1.get? key) ∧
      (s.sadd key values now).2 = .ok ((S ∪ values.toFinset).card - S.card) := by
  have hne : S ∪ values.toFinset ≠ ∅ := by
    rw [Ne, Finset.union_eq_empty, List.toFinset_eq_empty_iff]
    exact fun h => hvalues h.2
  rw [sadd_eq_onLive]
  simp only [onLive, Dict.onKept, Dict.onCell, Dict.get?_put_self, h.filter now]
  -- the loop starts from the set of the cell, or from the empty one
  obtain ⟨hcell, rfl⟩ | ⟨set, hcell, rfl, -⟩ := h.cases
  · have hset := toFinset_saddLoop HashSet.empty 0 values
    have hlen := saddLoop_len HashSet.empty 0 values
    rw [HashSet.toFinset_empty] at hset
    simp only [← HashSet.card_toFinset, hset, HashSet.toFinset_empty, Finset.card_empty] at hlen
    rw [hcell, ← hset]
    refine ⟨holdsSet_some (by rwa [hset]), ?_⟩
    simp only [updateCell, hset]
    congr 1
    simpa using hlen
  · have hset := toFinset_saddLoop set 0 values
    have hlen := saddLoop_len set 0 values
    simp only [← HashSet.card_toFinset, hset] at hlen
    rw [hcell, ← hset]
    refine ⟨holdsSet_some (by rwa [hset]), ?_⟩
    simp only [updateCell, Value.set?, hset]
    congr 1
    omega

theorem srem_holds {S : Finset Bytes} {s : Soul} {key : Bytes} (h : HoldsSet S (s.get? key))
    (now : ℕ) (values : List Bytes) :
    HoldsSet (S \ values.toFinset) ((s.srem key values now).1.get? key) ∧
      (s.srem key values now).2 = .ok (S.card - (S \ values.toFinset).card) := by
  rw [srem_eq_onLive]
  simp only [onLive, Dict.onKept, Dict.onCell, Dict.get?_put_self, h.filter now]
  obtain ⟨hcell, rfl⟩ | ⟨set, hcell, rfl, -⟩ := h.cases
  · rw [hcell, Finset.empty_sdiff]
    exact ⟨holdsSet_none, rfl⟩
  · have hset := toFinset_sremLoop set 0 values
    have hlen := sremLoop_len set 0 values
    simp only [← HashSet.card_toFinset, hset] at hlen
    rw [hcell, ← hset]
    constructor
    · by_cases hempty : (sremLoop set 0 values).1.isEmpty = true
      · rw [HashSet.isEmpty_iff_toFinset.mp hempty]
        simp only [sremCell, hempty, if_true]
        exact holdsSet_none
      · simp only [sremCell, hempty]
        exact holdsSet_some (HashSet.isEmpty_iff_toFinset.not.mp hempty)
    · simp only [sremCell, hset]
      congr 1
      omega

/-! ### Reading -/

/-- What can be read of a set at `key`, at any time. -/
structure ShowsSet (S : Finset Bytes) (key : Bytes) (s : Soul) : Prop where
  present : (s.get? key).isSome ↔ S.Nonempty
  «exists» : ∀ now, (s.exists [key] now).2 = if S.Nonempty then 1 else 0
  sismember : ∀ value now, (s.sismember key value now).2 = .ok (if value ∈ S then 1 else 0)
  smembers : ∀ now, ∃ elems : List Bytes,
    (s.smembers key now).2 = .ok (if S.Nonempty then some (elems.map some) else none) ∧
      elems.Nodup ∧ ∀ value, value ∈ elems ↔ value ∈ S

theorem exists_single (s : Soul) (key : Bytes) (now : ℕ) :
    (s.exists [key] now).2 = if ((s.get? key).filter (live now)).isSome then 1 else 0 := by
  unfold «exists»
  simp only [forKeys, getValidValue_eq_onLive, onLive, Dict.onKept, Dict.onCell, Option.isSome_map]
  rfl

theorem HoldsSet.shows {S : Finset Bytes} {key : Bytes} {s : Soul}
    (h : HoldsSet S (s.get? key)) : ShowsSet S key s := by
  have hcells := h.cases
  constructor
  · rw [← not_iff_not, Finset.not_nonempty_iff_eq_empty, ← h.present, Option.not_isSome_iff_eq_none]
  · intro now
    rw [exists_single, h.filter now]
    obtain ⟨hcell, rfl⟩ | ⟨set, hcell, -, hne⟩ := hcells
    · rw [hcell, if_neg Finset.not_nonempty_empty]
      rfl
    · rw [hcell, if_pos (Finset.nonempty_iff_ne_empty.mpr hne)]
      rfl
  · intro value now
    unfold sismember
    rw [query_eq_onLive]
    simp only [onLive, Dict.onKept, Dict.onCell, h.filter now]
    obtain ⟨hcell, rfl⟩ | ⟨set, hcell, rfl, -⟩ := hcells
    · rw [hcell, if_neg (Finset.notMem_empty value)]
      rfl
    · rw [hcell]
      have hiff : set.contains value = true ↔ value ∈ set.toFinset := HashSet.contains_iff
      simp only [queryCell, Value.set?]
      exact congrArg Except.ok (if_congr hiff rfl rfl)
  · intro now
    unfold smembers
    rw [query_eq_onLive]
    simp only [onLive, Dict.onKept, Dict.onCell, h.filter now]
    obtain ⟨hcell, rfl⟩ | ⟨set, hcell, rfl, hne⟩ := hcells
    · refine ⟨[], ?_, List.nodup_nil, ?_⟩
      · rw [hcell, if_neg Finset.not_nonempty_empty]
        rfl
      · intro value
        exact iff_of_false List.not_mem_nil (Finset.notMem_empty value)
    · refine ⟨set.elems, ?_, set.nodup, ?_⟩
      · rw [hcell, if_pos (Finset.nonempty_iff_ne_empty.mpr hne)]
        rfl
      · intro value
        rfl

end Soul

/-! ### Runs -/

/-- The command on the set, without its time. -/
def applyTimed (cmd : SetCommand × ℕ) (S : Finset Bytes) : Finset Bytes × ℕ := cmd.1.apply S

/-- The command on the store. -/
def runTimed (key : Bytes) (cmd : SetCommand × ℕ) (s : Soul) : Soul × Except Sacrilege ℕ :=
  cmd.1.run key cmd.2 s

theorem runTimed_simulates (key : Bytes) :
    Simulates (fun S s => HoldsSet S (Dict.get? s key)) (fun _ cmd => cmd.1.values ≠ [])
      applyTimed (runTimed key) id Except.ok := by
  rintro S s ⟨cmd, now⟩ h hvalues
  cases cmd with
  | sadd values => exact sadd_holds h now hvalues
  | srem values => exact srem_holds h now values

/-- **SADD and SREM build a finite set.**  Over a run from an absent key the answers are those of
the set, and after every part of the run the set is what can be read at the key. -/
theorem set_run (key : Bytes) {cmds : List (SetCommand × ℕ)}
    (hvalues : ∀ cmd ∈ cmds, cmd.1.values ≠ []) {s : Soul} (hs : s.get? key = none) :
    (∀ pre post, cmds = pre ++ post →
      ShowsSet (transcript applyTimed pre ∅).1 key (transcript (runTimed key) pre s).1) ∧
      (transcript (runTimed key) cmds s).2 = (transcript applyTimed cmds ∅).2.map Except.ok := by
  have hstart : HoldsSet ∅ (Dict.get? s key) := by
    rw [hs]
    exact holdsSet_none
  obtain ⟨hstates, hanswers⟩ :=
    (runTimed_simulates key).throughout (meets_of_forall hvalues ∅) hstart
  rw [List.map_id] at hanswers
  refine ⟨?_, hanswers⟩
  intro pre post hcmds
  have h := hstates pre post hcmds
  rw [List.map_id] at h
  exact h.shows

/-- A value is added twice and removed again. -/
theorem set_run_one :
    (transcript (runTimed (ascii "k"))
        [(.sadd [ascii "a", ascii "a"], 0), (.srem [ascii "a"], 0)] Soul.new).2 =
      (transcript applyTimed [(.sadd [ascii "a", ascii "a"], 0), (.srem [ascii "a"], 0)]
        ∅).2.map Except.ok :=
  (set_run (ascii "k") (by decide) rfl).2

end Heaven
