import Heaven.HashFields
import Heaven.Lists
import Heaven.Send
import Heaven.Temple

/-! # The replies to collection reads

HMGET, HGETALL, SMEMBERS and LRANGE read a whole collection, element by element like HGET,
SISMEMBER, HLEN and LLEN.  `HasShape` says what the bytes of their replies have to be in terms of
the bytes of the others.

LRANGE answers an absent key with an empty array.  The other three answer it with a bare nil, so
that `hasShape_iff` holds of them only while the key is live; a list that is read as a whole must
have fewer than 2 ^ 31 elements. -/

namespace Heaven
namespace Soul

open Decimal (ascii)

variable {α ρ : Type}

/-! ### What a client reads -/

theorem read_send {response : Response} (h : response ≠ .info .command) :
    Resp.readAll (send response) = some response.replies := by
  rw [send_eq h]
  exact Resp.readAll_encodeAll response.replies_wellFormed

/-- The replies a client reads from the bytes that are written for a command. -/
def answered (s : Soul) (config : Config) (cmd : DatabaseCommand) : Option (List Resp) :=
  match (database s config cmd).2 with
  | .ok response => Resp.readAll (send response)
  | .error _ => none

/-- A read of a whole collection. -/
inductive CollectionRead where
  | hmget (fields : List Bytes)
  | hgetall
  | smembers
  | lrange

/-- The value is a collection of the kind the command reads. -/
def CollectionRead.OfKind : CollectionRead → Value → Prop
  | .hmget _, value | .hgetall, value => value.hash?.isSome
  | .smembers, value => value.set?.isSome
  | .lrange, value => value.list?.isSome

/-- The reply is an array that lists the collection as the other commands show it. -/
def HasShape (s : Soul) (config : Config) (key : Bytes) (now : ℕ) : CollectionRead → Prop
  | .hmget fields =>
      ∃ items, answered s config (.hmget key fields now) = some [.array items] ∧
        List.Forall₂ (fun field item => answered s config (.hget key field now) = some [item])
          fields items
  | .hgetall =>
      ∃ pairs : List (Bytes × Bytes),
        answered s config (.hgetall key now) =
            some [.array (pairs.flatMap fun p => [.bulk p.1, .bulk p.2])] ∧
          answered s config (.hlen key now) = some [.integer pairs.length] ∧
          (pairs.map Prod.fst).Nodup ∧
          ∀ field value, (field, value) ∈ pairs ↔
            answered s config (.hget key field now) = some [.bulk value]
  | .smembers =>
      ∃ elems : List Bytes,
        answered s config (.smembers key now) = some [.array (elems.map .bulk)] ∧
          elems.Nodup ∧
          ∀ value, value ∈ elems ↔ answered s config (.sismember key value now) = some [.integer 1]
  | .lrange =>
      ∃ elems : List Bytes,
        answered s config (.lrange key 0 (-1) now) = some [.array (elems.map .bulk)] ∧
          answered s config (.llen key now) = some [.integer elems.length]

/-- The key is absent, expired or a live collection of the kind the command reads. -/
def Readable (read : CollectionRead) (s : Soul) (key : Bytes) (now : ℕ) : Prop :=
  ∀ value expiry, (s.purge now).get? key = some (value, expiry) → read.OfKind value

/-- The state of the key in which the reply has its shape. -/
def Shapely (s : Soul) (key : Bytes) (now : ℕ) : CollectionRead → Prop
  | .hmget _ | .hgetall | .smembers => (s.purge now).get? key ≠ none
  | .lrange => ∀ list expiry, (s.purge now).get? key = some (.list list, expiry) →
      list.length < 2 ^ 31

/-! ### The replies of the commands -/

section replies

variable {s : Soul} {key : Bytes} {now : ℕ} (config : Config)

/-- The reply to a command that only looks at the live part of a cell. -/
theorem answered_query {cmd : DatabaseCommand} {answer : ρ → Response} {view : Value → Option α}
    {wrongType absent : Except Sacrilege ρ} {found : α → Except Sacrilege ρ} {o : Option Entry}
    (hcmd : database s config cmd = respond answer (s.query key now view wrongType absent found))
    (h : (s.purge now).get? key = o)
    (hreply : replyTo answer (queryCell view wrongType absent found o).2 ≠ .info .command) :
    answered s config cmd =
      some (replyTo answer (queryCell view wrongType absent found o).2).replies := by
  unfold answered respond at *
  simp only [hcmd, query_snd, h]
  exact read_send hreply

/-- What is answered for an absent key. -/
theorem answered_of_absent (h : (s.purge now).get? key = none) :
    (∀ fields, answered s config (.hmget key fields now) = some [.nil]) ∧
      answered s config (.hgetall key now) = some [.nil] ∧
      answered s config (.smembers key now) = some [.nil] ∧
      answered s config (.lrange key 0 (-1) now) = some [.array []] ∧
      answered s config (.llen key now) = some [.integer 0] := by
  refine ⟨?_, ?_, ?_, ?_, ?_⟩
  · intro fields
    rw [answered_query config rfl h (fun h => by cases h)]
    rfl
  · rw [answered_query config rfl h (fun h => by cases h)]
    rfl
  · rw [answered_query config rfl h (fun h => by cases h)]
    rfl
  · simp only [answered, database, respondOrPanic, lrange, query_snd, h, queryCell]
    exact read_send (fun h => by cases h)
  · rw [answered_query config rfl h (fun h => by cases h)]
    rfl

theorem answered_of_hash {map : FieldMap} {expiry : Option ℕ}
    (h : (s.purge now).get? key = some (.hash map, expiry)) :
    (∀ field, answered s config (.hget key field now) = some [bulkOrNil (map.lookup field)]) ∧
      (∀ fields, answered s config (.hmget key fields now) =
        some [.array (fields.map fun field => bulkOrNil (map.lookup field))]) ∧
      answered s config (.hgetall key now) =
        some [.array (map.entries.flatMap fun e => [.bulk e.1, .bulk e.2])] ∧
      answered s config (.hlen key now) = some [.integer map.entries.length] := by
  refine ⟨?_, ?_, ?_, ?_⟩
  · intro field
    rw [answered_query config rfl h (fun h => by cases h)]
    rfl
  · intro fields
    rw [answered_query config rfl h (fun h => by cases h)]
    simp only [queryCell, Value.hash?, replyTo, Response.replies, List.map_map]
    rfl
  · rw [answered_query config rfl h (fun h => by cases h)]
    simp only [queryCell, Value.hash?, replyTo, Response.replies, List.map_flatMap]
    rfl
  · rw [answered_query config rfl h (fun h => by cases h)]
    rfl

theorem answered_of_set {set : HashSet Bytes} {expiry : Option ℕ}
    (h : (s.purge now).get? key = some (.set set, expiry)) :
    answered s config (.smembers key now) = some [.array (set.elems.map .bulk)] ∧
      ∀ value, answered s config (.sismember key value now) =
        some [.integer (if set.contains value then 1 else 0)] := by
  constructor
  · rw [answered_query config rfl h (fun h => by cases h)]
    simp only [queryCell, Value.set?, replyTo, Response.replies, List.map_map]
    rfl
  · intro value
    rw [answered_query config rfl h (fun h => by cases h)]
    simp only [queryCell, Value.set?, replyTo, Response.replies, Nat.cast_ite, Nat.cast_one,
      Nat.cast_zero]

/-- LRANGE of the whole list answers the elements that the truncated length covers. -/
theorem rangeOf_whole (list : List Bytes) :
    rangeOf list 0 (-1) = .ok ((list.take (wrapI32 list.length).toNat).map some) := by
  have hlen := wrapI32_inI32 list.length
  have hle := wrapI32_natCast_le list.length
  unfold rangeOf
  generalize wrapI32 list.length = listLen at hlen hle ⊢
  unfold InI32 at hlen
  by_cases hpos : 0 < listLen
  · have hprev : wrapI32 (-1 + listLen) = listLen - 1 := by
      rw [wrapI32_eq ⟨by omega, by omega⟩]
      omega
    have hnext : wrapI32 (listLen - 1 + 1) = listLen := by
      rw [wrapI32_eq ⟨by omega, by omega⟩]
      omega
    have hspan : wrapI32 (listLen - 1 - 0) = listLen - 1 := by
      rw [wrapI32_eq ⟨by omega, by omega⟩]
      omega
    have hzero : asUsize 0 = 0 := rfl
    simp only [lt_irrefl, if_false, Int.reduceNeg, Int.reduceLT, if_true, hprev,
      if_neg (show ¬ listLen - 1 ≥ listLen by omega), hspan, hnext, hzero,
      asUsize_eq ⟨by omega, by omega⟩ hpos.le]
    rw [if_pos ⟨by omega, hpos, by omega⟩, listRange_ok (Nat.zero_le _) (by omega)]
    rfl
  · have hnone : listLen.toNat = 0 := by omega
    simp only [lt_irrefl, if_false, hpos, false_and, and_false, hnone, List.take_zero,
      List.map_nil]

theorem answered_of_list {list : List Bytes} {expiry : Option ℕ}
    (h : (s.purge now).get? key = some (.list list, expiry)) :
    answered s config (.lrange key 0 (-1) now) =
        some [.array ((list.take (wrapI32 list.length).toNat).map .bulk)] ∧
      answered s config (.llen key now) = some [.integer list.length] := by
  constructor
  · simp only [answered, database, respondOrPanic, lrange, query_snd, h, queryCell, Value.list?,
      rangeOf_whole]
    refine (read_send (fun h => by cases h)).trans ?_
    simp only [replyTo, Response.replies, List.map_map]
    rfl
  · simp only [answered, database, respond, llen, query_snd, h, queryCell, Value.list?]
    exact read_send (fun h => by cases h)

/-! ### Shapes -/

theorem hasShape_hmget {map : FieldMap} {expiry : Option ℕ}
    (h : (s.purge now).get? key = some (.hash map, expiry)) (fields : List Bytes) :
    HasShape s config key now (.hmget fields) := by
  obtain ⟨hget, hmget, -, -⟩ := answered_of_hash config h
  refine ⟨_, hmget fields, ?_⟩
  rw [List.forall₂_map_right_iff, List.forall₂_same]
  intro field _
  exact hget field

theorem hasShape_hgetall {map : FieldMap} {expiry : Option ℕ}
    (h : (s.purge now).get? key = some (.hash map, expiry)) :
    HasShape s config key now .hgetall := by
  obtain ⟨hget, -, hgetall, hlen⟩ := answered_of_hash config h
  refine ⟨map.entries.map fun e => (e.1, e.2), ?_, ?_, ?_, ?_⟩
  · rw [hgetall, List.flatMap_map]
  · rw [hlen, List.length_map]
  · rw [List.map_map]
    exact map.nodupKeys
  · intro field value
    have hbulk : ∀ found : Option Bytes,
        some [bulkOrNil found] = some [Resp.bulk value] ↔ found = some value := by
      intro found
      cases found <;> simp [bulkOrNil]
    rw [hget, hbulk, ← Option.mem_def, AList.mem_lookup_iff]
    simp only [List.mem_map, Prod.mk.injEq]
    constructor
    · rintro ⟨⟨f, v⟩, he, rfl, rfl⟩
      exact he
    · intro he
      exact ⟨⟨field, value⟩, he, rfl, rfl⟩

theorem hasShape_smembers {set : HashSet Bytes} {expiry : Option ℕ}
    (h : (s.purge now).get? key = some (.set set, expiry)) :
    HasShape s config key now .smembers := by
  obtain ⟨hmembers, hsismember⟩ := answered_of_set config h
  refine ⟨set.elems, hmembers, set.nodup, ?_⟩
  intro value
  rw [hsismember, ← HashSet.mem_def, ← HashSet.contains_iff]
  cases set.contains value <;> simp

theorem hasShape_lrange_iff {list : List Bytes} {expiry : Option ℕ}
    (h : (s.purge now).get? key = some (.list list, expiry)) :
    HasShape s config key now .lrange ↔ list.length < 2 ^ 31 := by
  obtain ⟨hrange, hlen⟩ := answered_of_list config h
  have hwrap := wrapI32_inI32 list.length
  unfold InI32 at hwrap
  constructor
  · rintro ⟨elems, helems, hcount⟩
    rw [hrange] at helems
    rw [hlen] at hcount
    simp only [Option.some.injEq, List.cons.injEq, Resp.array.injEq, and_true] at helems
    simp only [Option.some.injEq, List.cons.injEq, Resp.integer.injEq, and_true] at hcount
    have hlength := congrArg List.length helems
    simp only [List.length_map, List.length_take] at hlength
    omega
  · intro hshort
    have hfits : wrapI32 list.length = list.length := wrapI32_eq ⟨by omega, by omega⟩
    refine ⟨list, ?_, hlen⟩
    rw [hrange, hfits, Int.toNat_natCast, List.take_length]

end replies

/-- **A collection read has the shape of its collection if and only if** the key is live, or, for
LRANGE, its list has fewer than 2 ^ 31 elements. -/
theorem hasShape_iff {read : CollectionRead} {s : Soul} {key : Bytes} {now : ℕ} (config : Config)
    (hkey : Readable read s key now) :
    HasShape s config key now read ↔ Shapely s key now read := by
  rcases hcell : (s.purge now).get? key with _ | ⟨value, expiry⟩
  · obtain ⟨hmget, hgetall, hsmembers, hrange, hllen⟩ := answered_of_absent config hcell
    cases read with
    | hmget fields =>
        refine iff_of_false ?_ (not_not_intro hcell)
        rintro ⟨items, hitems, -⟩
        rw [hmget] at hitems
        cases hitems
    | hgetall =>
        refine iff_of_false ?_ (not_not_intro hcell)
        rintro ⟨pairs, hpairs, -⟩
        rw [hgetall] at hpairs
        cases hpairs
    | smembers =>
        refine iff_of_false ?_ (not_not_intro hcell)
        rintro ⟨elems, helems, -⟩
        rw [hsmembers] at helems
        cases helems
    | lrange =>
        refine iff_of_true ⟨[], hrange, hllen⟩ ?_
        intro list expiry h
        rw [hcell] at h
        cases h
  · have hlive : (s.purge now).get? key ≠ none := by
      rw [hcell]
      exact Option.some_ne_none _
    have hkind := hkey value expiry hcell
    cases read with
    | hmget fields =>
        obtain ⟨map, hmap⟩ := Option.isSome_iff_exists.mp hkind
        obtain rfl := hash?_eq_some.mp hmap
        exact iff_of_true (hasShape_hmget config hcell fields) hlive
    | hgetall =>
        obtain ⟨map, hmap⟩ := Option.isSome_iff_exists.mp hkind
        obtain rfl := hash?_eq_some.mp hmap
        exact iff_of_true (hasShape_hgetall config hcell) hlive
    | smembers =>
        obtain ⟨set, hset⟩ := Option.isSome_iff_exists.mp hkind
        obtain rfl := set?_eq_some.mp hset
        exact iff_of_true (hasShape_smembers config hcell) hlive
    | lrange =>
        obtain ⟨list, hlist⟩ := Option.isSome_iff_exists.mp hkind
        obtain rfl := list?_eq_some.mp hlist
        rw [hasShape_lrange_iff config hcell]
        constructor
        · intro hshort list' expiry' h
          rw [hcell] at h
          cases h
          exact hshort
        · intro h
          exact h list expiry hcell

/-- SMEMBERS of a set with one value. -/
theorem hasShape_iff_set :
    let s := Soul.new.set (ascii "k") (.set (HashSet.empty.insert (ascii "a")), none)
    HasShape s ∅ (ascii "k") 0 .smembers ↔ Shapely s (ascii "k") 0 .smembers := by
  apply hasShape_iff
  intro value expiry h
  rw [get?_purge, set, Dict.get?_insert_self, filter_live_some] at h
  cases h
  rfl

/-- HGETALL of a missing key answers nil. -/
theorem hgetall_answers_nil :
    ¬ ∀ (read : CollectionRead) (s : Soul) (config : Config) (key : Bytes) (now : ℕ),
      Readable read s key now → HasShape s config key now read := by
  intro h
  have habsent : (Soul.new.purge 0).get? (ascii "k") = none := rfl
  obtain ⟨pairs, hpairs, -⟩ := h .hgetall Soul.new ∅ (ascii "k") 0 (by
    intro value expiry hkey
    rw [habsent] at hkey
    cases hkey)
  rw [(answered_of_absent ∅ habsent).2.1] at hpairs
  cases hpairs

end Soul
end Heaven
