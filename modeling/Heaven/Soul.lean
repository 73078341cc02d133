import Heaven.Util

/-! # The store

`temple/soul.rs`.  `Soul` maps a key to a value and an optional deadline.  Every method is
translated as a function from the store to the store and the method's result.

Most methods open with `match self.get_valid_value(&key, now)` (or its `&mut` form) and then
distinguish a value of the right kind, a value of another kind and no value.  `query` and
`update` are these two openings; a method is one of them applied to its own branches.  A
mutable borrow of a value is a function to the new value, which `assign` writes back under the
deadline the entry had. -/

namespace Heaven

open Decimal

abbrev Soul := Dict Bytes Entry

/-- `Err(Sacrilege::IncorrectUsage(command))`. -/
def misuse {ρ : Type} (cmd : Command) : Except Sacrilege ρ := .error (.incorrectUsage cmd)

namespace Soul

variable {α ρ : Type}

def new : Soul := Dict.empty

/-- The deadline lies before `now`. -/
def isExpired (expiry : Option ℕ) (now : ℕ) : Bool :=
  match expiry with
  | some expiry => decide (expiry < now)
  | none => false

/-! ### Access -/

def getValidValue (s : Soul) (key : Bytes) (now : ℕ) : Soul × Option Value :=
  let expired := match s.get? key with
    | some (_, expiry) => isExpired expiry now
    | none => false
  if expired then (s.erase key, none) else (s, (s.get? key).map Prod.fst)

/-- The same test as `getValidValue`; the borrowed value is written back by `assign`. -/
def getMutValidValue (s : Soul) (key : Bytes) (now : ℕ) : Soul × Option Value :=
  s.getValidValue key now

/-- Write through the reference `get_mut_valid_value` returned. -/
def assign (s : Soul) (key : Bytes) (value : Value) : Soul :=
  match s.get? key with
  | some (_, expiry) => s.insert key (value, expiry)
  | none => s

def removeValidValue (s : Soul) (key : Bytes) (now : ℕ) : Soul × Option Value :=
  match s.get? key with
  | some (value, some expiry) => (s.erase key, if expiry < now then none else some value)
  | some (value, none) => (s.erase key, some value)
  | none => (s.erase key, none)

/-- `match self.get_valid_value(&key, now) { Some(X(x)) => found, Some(_) => .., None => .. }`. -/
def query (s : Soul) (key : Bytes) (now : ℕ) (view : Value → Option α) (wrongType absent : ρ)
    (found : α → ρ) : Soul × ρ :=
  match s.getValidValue key now with
  | (s, some value) =>
      (s, match view value with
        | some x => found x
        | none => wrongType)
  | (s, none) => (s, absent)

/-- `match self.get_mut_valid_value(&key, now) { Some(X(x)) => .., Some(_) => .., None => .. }`. -/
def update (s : Soul) (key : Bytes) (now : ℕ) (view : Value → Option α) (wrap : α → Value)
    (wrongType : ρ) (absent : Soul → Soul × ρ) (found : α → α × ρ) : Soul × ρ :=
  match s.getMutValidValue key now with
  | (s, some value) =>
      match view value with
      | some x => (s.assign key (wrap (found x).1), (found x).2)
      | none => (s, wrongType)
  | (s, none) => absent s

/-! ### Strings and counters -/

def get (s : Soul) (key : Bytes) (now : ℕ) : Soul × Except Sacrilege (Option Bytes) :=
  s.query key now Value.string? (misuse .get) (.ok none) fun value => .ok (some value)

def set (s : Soul) (key : Bytes) (val : Entry) : Soul := s.insert key val

def append (s : Soul) (key incomingValue : Bytes) (now : ℕ) : Soul × Except Sacrilege ℕ :=
  s.update key now Value.string? .string (misuse .append)
    (fun s => (s.insert key (.string incomingValue, none), .ok incomingValue.length))
    fun value => (value ++ incomingValue, .ok (value ++ incomingValue).length)

/-- The body shared by `incr`, `incrby` and `decr`: read the number, add with an overflow check,
and only then overwrite the text. -/
def addToText (cmd : Command) (delta : ℤ) (value : Bytes) : Bytes × Except Sacrilege ℤ :=
  match bytesToI64 value with
  | .error _ => (value, misuse cmd)
  | .ok number =>
      match checkedAddI64 number delta with
      | none => (value, misuse cmd)
      | some number => (printInt number, .ok number)

def incr (s : Soul) (key : Bytes) (now : ℕ) : Soul × Except Sacrilege ℤ :=
  s.update key now Value.string? .string (misuse .incr)
    (fun s => (s.insert key (.string (ascii "1"), none), .ok 1))
    (addToText .incr 1)

def incrby (s : Soul) (key : Bytes) (numberToIncrementBy : ℤ) (now : ℕ) :
    Soul × Except Sacrilege ℤ :=
  s.update key now Value.string? .string (misuse .incrby)
    (fun s => (s.insert key (.string (printInt numberToIncrementBy), none),
      .ok numberToIncrementBy))
    (addToText .incrby numberToIncrementBy)

def decr (s : Soul) (key : Bytes) (now : ℕ) : Soul × Except Sacrilege ℤ :=
  s.update key now Value.string? .string (misuse .decr)
    (fun s => (s.insert key (.string (ascii "-1"), none), .ok (-1)))
    (addToText .decr (-1))

def strlen (s : Soul) (key : Bytes) (now : ℕ) : Soul × Except Sacrilege ℕ :=
  s.query key now Value.string? (misuse .strlen) (.ok 0) fun value => .ok value.length

/-! ### Keys -/

/-- `for key in keys { .. self.access(&key, now) .. }`, with an accumulator. -/
def forKeys {β : Type} (access : Soul → Bytes → Soul × Option Value)
    (visit : β → Option Value → β) : Soul → β → List Bytes → Soul × β
  | s, acc, [] => (s, acc)
  | s, acc, key :: keys =>
      let (s, value) := access s key
      forKeys access visit s (visit acc value) keys

def del (s : Soul) (keys : List Bytes) (now : ℕ) : Soul × ℕ :=
  forKeys (fun s key => s.removeValidValue key now)
    (fun deleted value => if value.isSome then wrapU32 (deleted + 1) else deleted) s 0 keys

def «exists» (s : Soul) (keys : List Bytes) (now : ℕ) : Soul × ℕ :=
  forKeys (fun s key => s.getValidValue key now)
    (fun found value => if value.isSome then wrapU32 (found + 1) else found) s 0 keys

def expire (s : Soul) (key : Bytes) (expiry now : ℕ) : Soul × ℕ :=
  match s.get? key with
  | some (value, existingExpiry) =>
      if isExpired existingExpiry now then (s.erase key, 0)
      else (s.insert key (value, some expiry), 1)
  | none => (s, 0)

def ttl (s : Soul) (key : Bytes) (now : SystemTime) : Soul × Except Panic ℤ :=
  match s.get? key with
  | some (_, some expiry) =>
      match SystemTime.epochPlus expiry with
      | .error panic => (s, .error panic)
      | .ok expiry =>
          if expiry.before now then (s.erase key, .ok (-2))
          else
            match expiry.durationSince now with
            | none => (s.erase key, .ok (-2))
            | some duration => (s, .ok (wrapI64 duration))
  | some (_, none) => (s, .ok (-1))
  | none => (s, .ok (-2))

def mset : Soul → List Bytes → Soul
  | s, key :: value :: terms => mset (s.insert key (.string value, none)) terms
  | s, _ => s

def mget (s : Soul) (terms : List Bytes) (now : ℕ) : Soul × Option (List (Option Bytes)) :=
  let (s, result) := forKeys (fun s key => s.getValidValue key now)
    (fun result value => result ++ [value.bind Value.string?]) s [] terms
  (s, some result)

/-! ### Hashes -/

/-- The loop of `hset` on an existing hash: only fields that are new are counted. -/
def hsetLoop : FieldMap → ℕ → List (Bytes × Bytes) → FieldMap × ℕ
  | map, added, [] => (map, added)
  | map, added, (field, value) :: pairs =>
      hsetLoop (map.insert field value)
        (if (map.lookup field).isNone then wrapU32 (added + 1) else added) pairs

/-- The loop of `hset` on a fresh hash: every pair is counted. -/
def hsetFreshLoop : FieldMap → ℕ → List (Bytes × Bytes) → FieldMap × ℕ
  | map, added, [] => (map, added)
  | map, added, (field, value) :: pairs =>
      hsetFreshLoop (map.insert field value) (wrapU32 (added + 1)) pairs

def hset (s : Soul) (key : Bytes) (fieldValuePairs : List (Bytes × Bytes)) (now : ℕ) :
    Soul × Except Sacrilege ℕ :=
  s.update key now Value.hash? .hash (misuse .hset)
    (fun s =>
      let (map, added) := hsetFreshLoop ∅ 0 fieldValuePairs
      (s.insert key (.hash map, none), .ok added))
    fun map =>
      let (map, added) := hsetLoop map 0 fieldValuePairs
      (map, .ok added)

def hget (s : Soul) (key field : Bytes) (now : ℕ) : Soul × Except Sacrilege (Option Bytes) :=
  s.query key now Value.hash? (misuse .hget) (.ok none) fun map => .ok (map.lookup field)

def hmget (s : Soul) (key : Bytes) (fields : List Bytes) (now : ℕ) :
    Soul × Except Sacrilege (Option (List (Option Bytes))) :=
  s.query key now Value.hash? (misuse .hmget) (.ok none)
    fun map => .ok (some (fields.map fun field => map.lookup field))

def hdelLoop : FieldMap → ℕ → List Bytes → FieldMap × ℕ
  | map, deleted, [] => (map, deleted)
  | map, deleted, field :: fields =>
      hdelLoop (map.erase field)
        (if (map.lookup field).isSome then wrapU32 (deleted + 1) else deleted) fields

def hdel (s : Soul) (key : Bytes) (fields : List Bytes) (now : ℕ) : Soul × Except Sacrilege ℕ :=
  s.update key now Value.hash? .hash (misuse .hdel) (fun s => (s, .ok 0))
    fun map =>
      let (map, deleted) := hdelLoop map 0 fields
      (map, .ok deleted)

def hexists (s : Soul) (key field : Bytes) (now : ℕ) : Soul × Except Sacrilege ℕ :=
  s.query key now Value.hash? (misuse .hexists) (.ok 0)
    fun map => .ok (if (map.lookup field).isSome then 1 else 0)

def hlen (s : Soul) (key : Bytes) (now : ℕ) : Soul × Except Sacrilege ℕ :=
  s.query key now Value.hash? (misuse .hlen) (.ok 0) fun map => .ok map.entries.length

def hgetall (s : Soul) (key : Bytes) (now : ℕ) :
    Soul × Except Sacrilege (Option (List (Option Bytes))) :=
  s.query key now Value.hash? (misuse .hgetall) (.ok none)
    fun map => .ok (some (map.entries.flatMap fun e => [some e.1, some e.2]))

/-! ### Lists -/

def lpush (s : Soul) (key : Bytes) (elements : List Bytes) (now : ℕ) :
    Soul × Except Sacrilege ℕ :=
  s.update key now Value.list? .list (misuse .lpush)
    (fun s => (s.insert key (.list elements.reverse, none), .ok elements.length))
    fun list =>
      let list := elements.foldl (fun list element => element :: list) list
      (list, .ok list.length)

def rpush (s : Soul) (key : Bytes) (elements : List Bytes) (now : ℕ) :
    Soul × Except Sacrilege ℕ :=
  s.update key now Value.list? .list (misuse .rpush)
    (fun s => (s.insert key (.list elements, none), .ok elements.length))
    fun list =>
      let list := elements.foldl (fun list element => list ++ [element]) list
      (list, .ok list.length)

def popFront : List Bytes → List Bytes × Option Bytes
  | [] => ([], none)
  | element :: list => (list, some element)

def popBack (list : List Bytes) : List Bytes × Option Bytes := (list.dropLast, list.getLast?)

/-- `for _ in 0..count { .. }` of the counted pops. -/
def popLoop (pop : List Bytes → List Bytes × Option Bytes) :
    ℕ → List Bytes → List (Option Bytes) → List Bytes × List (Option Bytes)
  | 0, list, popped => (list, popped)
  | count + 1, list, popped =>
      match pop list with
      | (list, some element) => popLoop pop count list (popped ++ [some element])
      | (list, none) => (list, popped)

/-- The four pops work on the map entry: the kind of the value is tested before the deadline, and
an exhausted list is removed. -/
def popWith (s : Soul) (key : Bytes) (now : ℕ) (cmd : Command) (absent : ρ)
    (pop : List Bytes → List Bytes × ρ) : Soul × Except Sacrilege ρ :=
  match s.get? key with
  | some (.list list, expiry) =>
      if isExpired expiry now then (s.erase key, .ok absent)
      else
        let (list, popped) := pop list
        (if list.isEmpty then s.erase key else s.insert key (.list list, expiry), .ok popped)
  | some _ => (s, misuse cmd)
  | none => (s, .ok absent)

def lpop (s : Soul) (key : Bytes) (now : ℕ) : Soul × Except Sacrilege (Option Bytes) :=
  s.popWith key now .lpop none popFront

def lpopM (s : Soul) (key : Bytes) (count now : ℕ) :
    Soul × Except Sacrilege (Option (List (Option Bytes))) :=
  s.popWith key now .lpop none fun list =>
    let (list, popped) := popLoop popFront count list []
    (list, some popped)

def rpop (s : Soul) (key : Bytes) (now : ℕ) : Soul × Except Sacrilege (Option Bytes) :=
  s.popWith key now .rpop none popBack

def rpopM (s : Soul) (key : Bytes) (count now : ℕ) :
    Soul × Except Sacrilege (Option (List (Option Bytes))) :=
  s.popWith key now .rpop none fun list =>
    let (list, popped) := popLoop popBack count list []
    (list, some popped)

def llen (s : Soul) (key : Bytes) (now : ℕ) : Soul × Except Sacrilege ℕ :=
  s.query key now Value.list? (misuse .llen) (.ok 0) fun list => .ok list.length

/-- `list.range(start..end)`. -/
def listRange (list : List Bytes) (start stop : ℕ) : Except Panic (List Bytes) :=
  if start ≤ stop ∧ stop ≤ list.length then .ok ((list.drop start).take (stop - start))
  else .error .rangeOutOfBounds

/-- The body of `lrange` on a list, in wrapping 32-bit arithmetic. -/
def rangeOf (list : List Bytes) (startingIndex endingIndex : ℤ) :
    Except Panic (List (Option Bytes)) :=
  let listLen := wrapI32 list.length
  let startingIndex :=
    if startingIndex < 0 then wrapI32 (startingIndex + listLen) else startingIndex
  let endingIndex := if endingIndex < 0 then wrapI32 (endingIndex + listLen) else endingIndex
  let startingIndex := if startingIndex < 0 then 0 else startingIndex
  let endingIndex := if endingIndex ≥ listLen then wrapI32 (listLen - 1) else endingIndex
  if wrapI32 (endingIndex - startingIndex) ≥ 0 ∧ startingIndex < listLen ∧ endingIndex < listLen
  then (listRange list (asUsize startingIndex) (asUsize (wrapI32 (endingIndex + 1)))).map
    fun elements => elements.map some
  else .ok []

def lrange (s : Soul) (key : Bytes) (startingIndex endingIndex : ℤ) (now : ℕ) :
    Soul × Except Panic (Except Sacrilege (Option (List (Option Bytes)))) :=
  s.query key now Value.list? (.ok (misuse .lrange)) (.ok (.ok (some [])))
    fun list => (rangeOf list startingIndex endingIndex).map fun elements => .ok (some elements)

/-- `lindex` and `lset` count a negative index from the end of the list. -/
def normalizeIndex (list : List Bytes) (index : ℤ) : ℤ :=
  if index < 0 then wrapI32 (index + wrapI32 list.length) else index

def lindex (s : Soul) (key : Bytes) (index : ℤ) (now : ℕ) :
    Soul × Except Sacrilege (Option Bytes) :=
  s.query key now Value.list? (misuse .lindex) (.ok none) fun list =>
    let index := normalizeIndex list index
    if index < 0 ∨ index ≥ wrapI32 list.length then .ok none else .ok list[asUsize index]?

/-- The body of `lset` on a list. -/
def lsetList (index : ℤ) (element : Bytes) (list : List Bytes) :
    List Bytes × Except Panic (Except Sacrilege Unit) :=
  let index := normalizeIndex list index
  if index < 0 ∨ index ≥ wrapI32 list.length then (list, .ok (misuse .lset))
  else if asUsize index < list.length then (list.set (asUsize index) element, .ok (.ok ()))
  else (list, .error .indexOutOfBounds)

def lset (s : Soul) (key : Bytes) (index : ℤ) (element : Bytes) (now : ℕ) :
    Soul × Except Panic (Except Sacrilege Unit) :=
  s.update key now Value.list? .list (.ok (misuse .lset)) (fun s => (s, .ok (misuse .lset)))
    (lsetList index element)

/-- `while idx >= 0 && count < 0 { .. }`; the first argument is `idx + 1`. -/
def lremBackward (element : Bytes) : ℕ → List Bytes → ℤ → Except Panic (List Bytes)
  | 0, list, _ => .ok list
  | idx + 1, list, count =>
      if count < 0 then
        match list[idx]? with
        | some found =>
            if found = element then lremBackward element idx (list.eraseIdx idx) (count + 1)
            else lremBackward element idx list count
        | none => .error .indexOutOfBounds
      else .ok list

/-- `while idx < list_len && count > 0 { .. }`; the first argument is `list_len - idx`, which a
match decreases through `list_len` and a mismatch through `idx`. -/
def lremForward (element : Bytes) : ℕ → ℕ → List Bytes → ℤ → Except Panic (List Bytes)
  | 0, _, list, _ => .ok list
  | left + 1, idx, list, count =>
      if count > 0 then
        match list[idx]? with
        | some found =>
            if found = element then lremForward element left idx (list.eraseIdx idx) (count - 1)
            else lremForward element left (idx + 1) list count
        | none => .error .indexOutOfBounds
      else .ok list

/-- The three ways of `lrem` to remove from a list. -/
def removeOccurrences (list : List Bytes) (count : ℤ) (element : Bytes) :
    Except Panic (List Bytes) :=
  if count < 0 then
    lremBackward element (wrapI32 (wrapI32 list.length - 1) + 1).toNat list count
  else if count > 0 then lremForward element list.length 0 list count
  else .ok (list.filter fun existing => existing ≠ element)

/-- The body of `lrem` on a list, which answers how many elements went. -/
def lremList (count : ℤ) (element : Bytes) (list : List Bytes) :
    List Bytes × Except Panic (Except Sacrilege ℕ) :=
  match removeOccurrences list count element with
  | .ok list' => (list', .ok (.ok (list.length - list'.length)))
  | .error panic => (list, .error panic)

def lrem (s : Soul) (key : Bytes) (count : ℤ) (element : Bytes) (now : ℕ) :
    Soul × Except Panic (Except Sacrilege ℕ) :=
  s.update key now Value.list? .list (.ok (misuse .lrem)) (fun s => (s, .ok (.ok 0)))
    (lremList count element)

/-! ### Sets -/

def saddLoop : HashSet Bytes → ℕ → List Bytes → HashSet Bytes × ℕ
  | set, count, [] => (set, count)
  | set, count, value :: values =>
      saddLoop (set.insert value) (if set.contains value then count else count + 1) values

def sadd (s : Soul) (key : Bytes) (values : List Bytes) (now : ℕ) : Soul × Except Sacrilege ℕ :=
  s.update key now Value.set? .set (misuse .sadd)
    (fun s =>
      let (set, count) := saddLoop HashSet.empty 0 values
      (s.insert key (.set set, none), .ok count))
    fun set =>
      let (set, count) := saddLoop set 0 values
      (set, .ok count)

def sremLoop : HashSet Bytes → ℕ → List Bytes → HashSet Bytes × ℕ
  | set, count, [] => (set, count)
  | set, count, value :: values =>
      sremLoop (set.remove value) (if set.contains value then count + 1 else count) values

/-- Unlike `hdel` and `lrem`, `srem` removes the key once its set is empty. -/
def srem (s : Soul) (key : Bytes) (values : List Bytes) (now : ℕ) : Soul × Except Sacrilege ℕ :=
  match s.getMutValidValue key now with
  | (s, some (.set set)) =>
      let (set, count) := sremLoop set 0 values
      let s := s.assign key (.set set)
      (if set.isEmpty then s.erase key else s, .ok count)
  | (s, some _) => (s, misuse .srem)
  | (s, none) => (s, .ok 0)

def sismember (s : Soul) (key value : Bytes) (now : ℕ) : Soul × Except Sacrilege ℕ :=
  s.query key now Value.set? (misuse .sismember) (.ok 0)
    fun set => .ok (if set.contains value then 1 else 0)

def smembers (s : Soul) (key : Bytes) (now : ℕ) :
    Soul × Except Sacrilege (Option (List (Option Bytes))) :=
  s.query key now Value.set? (misuse .smembers) (.ok none) fun set =>
    .ok (some (set.elems.map some))

end Soul
end Heaven
