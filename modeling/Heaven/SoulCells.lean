import Heaven.Soul

/-! # Methods of the store as operations on one cell

Every method of `Soul` that takes a single key is an operation on one cell.  All of them but the
four pops and TTL first drop an expired entry and then act on what is left, so they have the form
`onLive`; the cell operations are `queryCell` for the methods that only read, `updateCell` for the
methods that write through a reference, and one of its own for SREM, EXPIRE and DEL.  The pops
are `popCell` on the cell as it is stored, and TTL is `ttlCell`.

The theorems `_eq_onLive` and `_eq_onCell` are the only ones about these methods that unfold
them. -/

namespace Heaven
namespace Soul

open Decimal

variable {α ρ : Type}

/-- The entry has no deadline before `now`. -/
def live (now : ℕ) (entry : Entry) : Bool := !isExpired entry.2 now

/-- The store without the entries whose deadline lies before `now`. -/
def purge (s : Soul) (now : ℕ) : Soul := s.filter (live now)

/-- Drop an expired entry at `key`, then run `g` on the cell. -/
def onLive (s : Soul) (key : Bytes) (now : ℕ) (g : Option Entry → Option Entry × ρ) : Soul × ρ :=
  s.onKept (live now) key g

theorem filter_live_some (now : ℕ) (value : Value) (expiry : Option ℕ) :
    (some (value, expiry)).filter (live now) =
      if isExpired expiry now then none else some (value, expiry) := by
  cases h : isExpired expiry now <;> simp [Option.filter, live, h]

theorem get?_purge (s : Soul) (now : ℕ) (key : Bytes) :
    (s.purge now).get? key = (s.get? key).filter (live now) := Dict.get?_filter _ s key

theorem get?_onLive (s : Soul) (key : Bytes) (now : ℕ) (g : Option Entry → Option Entry × ρ)
    (key' : Bytes) :
    (s.onLive key now g).1.get? key' =
      if key' = key then (g ((s.get? key).filter (live now))).1 else s.get? key' :=
  Dict.get?_put _ _ _ _

theorem onLive_snd (s : Soul) (key : Bytes) (now : ℕ) (g : Option Entry → Option Entry × ρ) :
    (s.onLive key now g).2 = (g ((s.purge now).get? key)).2 := by
  rw [get?_purge]
  rfl

theorem get?_purge_onLive (s : Soul) (key : Bytes) (now : ℕ)
    (g : Option Entry → Option Entry × ρ) :
    ((s.onLive key now g).1.purge now).get? key =
      (g ((s.purge now).get? key)).1.filter (live now) := by
  rw [get?_purge, get?_onLive, if_pos rfl, get?_purge]

/-- An operation on a live cell acts on the entry as it is stored. -/
theorem onLive_of_live {s : Soul} {key : Bytes} {now : ℕ} {value : Value} {expiry : Option ℕ}
    (h : s.get? key = some (value, expiry)) (hlive : isExpired expiry now = false)
    (g : Option Entry → Option Entry × ρ) :
    s.onLive key now g =
      (s.put key (g (some (value, expiry))).1, (g (some (value, expiry))).2) := by
  unfold onLive Dict.onKept Dict.onCell
  rw [h]
  simp only [filter_live_some, hlive]
  rfl

/-! ### Access -/

theorem getValidValue_eq_onLive (s : Soul) (key : Bytes) (now : ℕ) :
    s.getValidValue key now = s.onLive key now fun o => (o, o.map Prod.fst) := by
  unfold getValidValue onLive Dict.onKept Dict.onCell
  cases h : s.get? key with
  | none =>
      simp only [Option.filter_none, Option.map_none, Bool.false_eq_true, if_false]
      rw [Dict.put_eq_self h]
  | some entry =>
      obtain ⟨value, expiry⟩ := entry
      simp only [filter_live_some]
      by_cases he : isExpired expiry now = true
      · simp only [he, if_true]; rfl
      · simp only [he, Bool.false_eq_true, if_false]
        rw [Dict.put_eq_self h]

theorem removeValidValue_eq_onLive (s : Soul) (key : Bytes) (now : ℕ) :
    s.removeValidValue key now = s.onLive key now fun o => (none, o.map Prod.fst) := by
  unfold removeValidValue onLive Dict.onKept Dict.onCell
  rcases s.get? key with _ | ⟨value, _ | expiry⟩
  · rfl
  · simp only [filter_live_some, isExpired]; rfl
  · simp only [filter_live_some, isExpired, decide_eq_true_eq]
    split_ifs <;> rfl

/-- What a reading method does to a live cell: nothing. -/
def queryCell (view : Value → Option α) (wrongType absent : ρ) (found : α → ρ) :
    Option Entry → Option Entry × ρ
  | some (value, expiry) =>
      (some (value, expiry), match view value with
        | some x => found x
        | none => wrongType)
  | none => (none, absent)

/-- What a writing method does to a live cell: the deadline stays. -/
def updateCell (view : Value → Option α) (wrap : α → Value) (wrongType : ρ)
    (absent : Option Entry × ρ) (found : α → α × ρ) : Option Entry → Option Entry × ρ
  | some (value, expiry) =>
      match view value with
      | some x => (some (wrap (found x).1, expiry), (found x).2)
      | none => (some (value, expiry), wrongType)
  | none => absent

theorem string?_eq_some {v : Value} {x : Bytes} : v.string? = some x ↔ v = .string x := by
  cases v <;> simp [Value.string?]

theorem list?_eq_some {v : Value} {x : List Bytes} : v.list? = some x ↔ v = .list x := by
  cases v <;> simp [Value.list?]

theorem hash?_eq_some {v : Value} {x : FieldMap} : v.hash? = some x ↔ v = .hash x := by
  cases v <;> simp [Value.hash?]

theorem set?_eq_some {v : Value} {x : HashSet Bytes} : v.set? = some x ↔ v = .set x := by
  cases v <;> simp [Value.set?]

theorem queryCell_fst (view : Value → Option α) (wrongType absent : ρ) (found : α → ρ)
    (o : Option Entry) : (queryCell view wrongType absent found o).1 = o := by
  rcases o with _ | ⟨value, expiry⟩ <;> rfl

theorem query_eq_onLive (s : Soul) (key : Bytes) (now : ℕ) (view : Value → Option α)
    (wrongType absent : ρ) (found : α → ρ) :
    s.query key now view wrongType absent found =
      s.onLive key now (queryCell view wrongType absent found) := by
  unfold query
  rw [getValidValue_eq_onLive]
  simp only [onLive, Dict.onKept, Dict.onCell]
  rcases (s.get? key).filter (live now) with _ | ⟨value, expiry⟩ <;> rfl

theorem query_snd (s : Soul) (key : Bytes) (now : ℕ) (view : Value → Option α)
    (wrongType absent : ρ) (found : α → ρ) :
    (s.query key now view wrongType absent found).2 =
      (queryCell view wrongType absent found ((s.purge now).get? key)).2 := by
  rw [query_eq_onLive, onLive_snd]

/-- A writing method answers what a reading method with its branches would. -/
theorem updateCell_snd (view : Value → Option α) (wrap : α → Value) (wrongType : ρ)
    (absent : Option Entry × ρ) (found : α → α × ρ) (o : Option Entry) :
    (updateCell view wrap wrongType absent found o).2 =
      (queryCell view wrongType absent.2 (fun x => (found x).2) o).2 := by
  rcases o with _ | ⟨value, expiry⟩
  · rfl
  · simp only [updateCell, queryCell]
    cases view value <;> rfl

theorem assign_put (s : Soul) (key : Bytes) (value new : Value) (expiry : Option ℕ) :
    assign (s.put key (some (value, expiry))) key new =
      s.put key (some (new, expiry)) := by
  unfold assign
  simp only [Dict.get?_put_self, Dict.insert_eq_put, Dict.put_put]

/-- A writing method is `updateCell`, provided its branch for an absent key acts on the cell
alone. -/
theorem update_eq_onLive (s : Soul) (key : Bytes) (now : ℕ) (view : Value → Option α)
    (wrap : α → Value) (wrongType : ρ) {absent : Soul → Soul × ρ} {absentCell : Option Entry × ρ}
    (found : α → α × ρ)
    (h : ∀ s : Soul, s.get? key = none → absent s = (s.put key absentCell.1, absentCell.2)) :
    s.update key now view wrap wrongType absent found =
      s.onLive key now (updateCell view wrap wrongType absentCell found) := by
  unfold update getMutValidValue
  rw [getValidValue_eq_onLive]
  simp only [onLive, Dict.onKept, Dict.onCell]
  rcases (s.get? key).filter (live now) with _ | ⟨value, expiry⟩
  · simp only [Option.map_none, updateCell]
    rw [h _ (Dict.get?_put_self s key none), Dict.put_put]
  · simp only [Option.map_some, updateCell]
    cases view value with
    | none => rfl
    | some x => simp only [assign_put]

theorem put_none_of_absent {s : Soul} {key : Bytes} (h : s.get? key = none) (r : ρ) :
    (s, r) = (s.put key none, r) := by rw [Dict.put_eq_self h]

/-! ### Strings and counters -/

theorem append_eq_onLive (s : Soul) (key value : Bytes) (now : ℕ) :
    s.append key value now = s.onLive key now
      (updateCell Value.string? .string (misuse .append)
        (some (.string value, none), .ok value.length)
        fun old => (old ++ value, .ok (old ++ value).length)) :=
  update_eq_onLive s key now _ _ _ _ fun _ _ => rfl

/-- INCR, DECR and INCRBY on a live cell: the body of the three methods. -/
def addCell (cmd : Command) (delta : ℤ) : Option Entry → Option Entry × Except Sacrilege ℤ :=
  updateCell Value.string? .string (misuse cmd) (some (.string (printInt delta), none), .ok delta)
    (addToText cmd delta)

theorem incr_eq_onLive (s : Soul) (key : Bytes) (now : ℕ) :
    s.incr key now = s.onLive key now (addCell .incr 1) :=
  update_eq_onLive s key now _ _ _ _ fun _ _ => rfl

theorem incrby_eq_onLive (s : Soul) (key : Bytes) (number : ℤ) (now : ℕ) :
    s.incrby key number now = s.onLive key now (addCell .incrby number) :=
  update_eq_onLive s key now _ _ _ _ fun _ _ => rfl

theorem decr_eq_onLive (s : Soul) (key : Bytes) (now : ℕ) :
    s.decr key now = s.onLive key now (addCell .decr (-1)) :=
  update_eq_onLive s key now _ _ _ _ fun _ _ => rfl

/-! ### Keys -/

/-- EXPIRE on a live cell. -/
def expireCell (expiry : ℕ) : Option Entry → Option Entry × ℕ
  | some (value, _) => (some (value, some expiry), 1)
  | none => (none, 0)

theorem expire_eq_onLive (s : Soul) (key : Bytes) (expiry now : ℕ) :
    s.expire key expiry now = s.onLive key now (expireCell expiry) := by
  unfold expire onLive Dict.onKept Dict.onCell
  rcases h : s.get? key with _ | ⟨value, old⟩
  · exact put_none_of_absent h 0
  · simp only [filter_live_some]
    split_ifs <;> rfl

/-- TTL on a cell as it is stored, expired or not. -/
def ttlCell (now : SystemTime) : Option Entry → Option Entry × Except Panic ℤ
  | some (value, some expiry) =>
      match SystemTime.epochPlus expiry with
      | .error panic => (some (value, some expiry), .error panic)
      | .ok deadline =>
          if deadline.before now then (none, .ok (-2))
          else
            match deadline.durationSince now with
            | none => (none, .ok (-2))
            | some duration => (some (value, some expiry), .ok (wrapI64 duration))
  | some (value, none) => (some (value, none), .ok (-1))
  | none => (none, .ok (-2))

theorem ttl_eq_onCell (s : Soul) (key : Bytes) (now : SystemTime) :
    s.ttl key now = s.onCell key (ttlCell now) := by
  unfold ttl Dict.onCell
  rcases h : s.get? key with _ | ⟨value, _ | expiry⟩
  · exact put_none_of_absent h _
  · simp only [ttlCell, Dict.put_eq_self h]
  · simp only [ttlCell]
    cases SystemTime.epochPlus expiry with
    | error panic => simp only [Dict.put_eq_self h]
    | ok deadline =>
        simp only
        split_ifs
        · rfl
        · cases deadline.durationSince now with
          | none => rfl
          | some duration => simp only [Dict.put_eq_self h]

/-! ### Hashes -/

theorem hset_eq_onLive (s : Soul) (key : Bytes) (pairs : List (Bytes × Bytes)) (now : ℕ) :
    s.hset key pairs now = s.onLive key now
      (updateCell Value.hash? .hash (misuse .hset)
        (some (.hash (hsetFreshLoop ∅ 0 pairs).1, none), .ok (hsetFreshLoop ∅ 0 pairs).2)
        fun map => ((hsetLoop map 0 pairs).1, .ok (hsetLoop map 0 pairs).2)) :=
  update_eq_onLive s key now _ _ _ _ fun _ _ => rfl

theorem hdel_eq_onLive (s : Soul) (key : Bytes) (fields : List Bytes) (now : ℕ) :
    s.hdel key fields now = s.onLive key now
      (updateCell Value.hash? .hash (misuse .hdel) (none, .ok 0)
        fun map => ((hdelLoop map 0 fields).1, .ok (hdelLoop map 0 fields).2)) :=
  update_eq_onLive s key now _ _ _ _ fun _ h => put_none_of_absent h _

/-! ### Lists -/

/-- What pushing one by one at the back amounts to. -/
theorem foldl_concat (elements list : List Bytes) :
    elements.foldl (fun list element => list ++ [element]) list = list ++ elements := by
  rw [List.foldl_append_eq_append, ← List.flatMap_def, List.flatMap_singleton']

theorem lpush_eq_onLive (s : Soul) (key : Bytes) (elements : List Bytes) (now : ℕ) :
    s.lpush key elements now = s.onLive key now
      (updateCell Value.list? .list (misuse .lpush)
        (some (.list elements.reverse, none), .ok elements.length)
        fun list => (elements.foldl (fun list element => element :: list) list,
          .ok (elements.foldl (fun list element => element :: list) list).length)) :=
  update_eq_onLive s key now _ _ _ _ fun _ _ => rfl

theorem rpush_eq_onLive (s : Soul) (key : Bytes) (elements : List Bytes) (now : ℕ) :
    s.rpush key elements now = s.onLive key now
      (updateCell Value.list? .list (misuse .rpush)
        (some (.list elements, none), .ok elements.length)
        fun list => (elements.foldl (fun list element => list ++ [element]) list,
          .ok (elements.foldl (fun list element => list ++ [element]) list).length)) :=
  update_eq_onLive s key now _ _ _ _ fun _ _ => rfl

/-- A pop on a cell as it is stored: the kind of the value is tested before the deadline. -/
def popCell (now : ℕ) (cmd : Command) (absent : ρ) (pop : List Bytes → List Bytes × ρ) :
    Option Entry → Option Entry × Except Sacrilege ρ
  | some (.list list, expiry) =>
      if isExpired expiry now then (none, .ok absent)
      else (if (pop list).1.isEmpty then none else some (.list (pop list).1, expiry),
        .ok (pop list).2)
  | some (value, expiry) => (some (value, expiry), misuse cmd)
  | none => (none, .ok absent)

theorem popWith_eq_onCell (s : Soul) (key : Bytes) (now : ℕ) (cmd : Command) (absent : ρ)
    (pop : List Bytes → List Bytes × ρ) :
    s.popWith key now cmd absent pop = s.onCell key (popCell now cmd absent pop) := by
  unfold popWith Dict.onCell
  rcases h : s.get? key with _ | ⟨_ | list | _ | _, expiry⟩
  · exact put_none_of_absent h _
  · simp only [popCell, Dict.put_eq_self h]
  · simp only [popCell]
    split_ifs <;> rfl
  · simp only [popCell, Dict.put_eq_self h]
  · simp only [popCell, Dict.put_eq_self h]

theorem lset_eq_onLive (s : Soul) (key : Bytes) (index : ℤ) (element : Bytes) (now : ℕ) :
    s.lset key index element now = s.onLive key now
      (updateCell Value.list? .list (.ok (misuse .lset)) (none, .ok (misuse .lset))
        (lsetList index element)) :=
  update_eq_onLive s key now _ _ _ _ fun _ h => put_none_of_absent h _

theorem lrem_eq_onLive (s : Soul) (key : Bytes) (count : ℤ) (element : Bytes) (now : ℕ) :
    s.lrem key count element now = s.onLive key now
      (updateCell Value.list? .list (.ok (misuse .lrem)) (none, .ok (.ok 0))
        (lremList count element)) :=
  update_eq_onLive s key now _ _ _ _ fun _ h => put_none_of_absent h _

/-! ### Sets -/

theorem sadd_eq_onLive (s : Soul) (key : Bytes) (values : List Bytes) (now : ℕ) :
    s.sadd key values now = s.onLive key now
      (updateCell Value.set? .set (misuse .sadd)
        (some (.set (saddLoop HashSet.empty 0 values).1, none),
          .ok (saddLoop HashSet.empty 0 values).2)
        fun set => ((saddLoop set 0 values).1, .ok (saddLoop set 0 values).2)) :=
  update_eq_onLive s key now _ _ _ _ fun _ _ => rfl

/-- SREM on a live cell: an exhausted set is dropped. -/
def sremCell (values : List Bytes) : Option Entry → Option Entry × Except Sacrilege ℕ
  | some (.set set, expiry) =>
      (if (sremLoop set 0 values).1.isEmpty then none
        else some (.set (sremLoop set 0 values).1, expiry), .ok (sremLoop set 0 values).2)
  | some (value, expiry) => (some (value, expiry), misuse .srem)
  | none => (none, .ok 0)

theorem srem_eq_onLive (s : Soul) (key : Bytes) (values : List Bytes) (now : ℕ) :
    s.srem key values now = s.onLive key now (sremCell values) := by
  unfold srem getMutValidValue
  rw [getValidValue_eq_onLive]
  simp only [onLive, Dict.onKept, Dict.onCell]
  rcases (s.get? key).filter (live now) with _ | ⟨_ | _ | _ | set, expiry⟩
  · rfl
  · rfl
  · rfl
  · rfl
  · simp only [Option.map_some, sremCell, assign_put]
    split_ifs
    · rw [Dict.erase_eq_put, Dict.put_put]
    · rfl

end Soul
end Heaven
