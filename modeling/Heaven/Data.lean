import Mathlib.Data.List.AList
import Heaven.Lib.Decimal
import Heaven.Lib.Dict
import Heaven.Lib.HashSet

/-! # The data of the server

The types of `wish.rs`, `temple/soul.rs`, `temple.rs` and `wish/grant.rs` that travel between
the threads: replies and their errors, the values of the store, the messages to the temple and
to egress.

* Byte vectors are `List UInt8`, a `VecDeque` is a list.  Maps that the code only looks up are
  `Dict`s; a hash value, whose fields HGETALL iterates, is an association list.
* Unsigned machine integers are natural numbers.  Where the release build wraps, the wrap is
  written (`wrapU32`, `wrapU64`, `wrapI32`, `wrapI64`).
* What makes a thread panic is a value of `Panic`; a Rust function that can panic answers in
  `Except Panic`. -/

namespace Heaven

open Decimal (ascii)

abbrev Bytes := List UInt8

/-- The `mio::Token` of a connection. -/
abbrev Token := ℕ

/-- Reasons for a thread to panic. -/
inductive Panic where
  | addOverflow
  | subOverflow
  | indexOutOfBounds
  | rangeOutOfBounds
  | timeOverflow
deriving DecidableEq, Repr

/-! ### Machine integers -/

def wrapU32 (n : ℕ) : ℕ := n % 2 ^ 32

def wrapU64 (n : ℕ) : ℕ := n % 2 ^ 64

def wrapI32 (i : ℤ) : ℤ := i.bmod (2 ^ 32)

def wrapI64 (i : ℤ) : ℤ := i.bmod (2 ^ 64)

def InI32 (i : ℤ) : Prop := -2 ^ 31 ≤ i ∧ i < 2 ^ 31

def InI64 (i : ℤ) : Prop := -2 ^ 63 ≤ i ∧ i < 2 ^ 63

instance (i : ℤ) : Decidable (InI32 i) := inferInstanceAs (Decidable (_ ∧ _))

instance (i : ℤ) : Decidable (InI64 i) := inferInstanceAs (Decidable (_ ∧ _))

/-- `x as usize` for a signed `x`. -/
def asUsize (i : ℤ) : ℕ := (i % 2 ^ 64).toNat

/-- `i64::checked_add`. -/
def checkedAddI64 (i j : ℤ) : Option ℤ := if InI64 (i + j) then some (i + j) else none

/-! ### Clocks -/

/-- `std::time::SystemTime`: signed 64-bit seconds and nanoseconds since the epoch. -/
structure SystemTime where
  secs : ℤ
  nanos : ℕ
  nanos_lt : nanos < 10 ^ 9
  le_secs : -2 ^ 63 ≤ secs
  secs_le : secs ≤ 2 ^ 63 - 1
deriving DecidableEq

namespace SystemTime

/-- `self < other`. -/
def before (t u : SystemTime) : Bool :=
  decide (t.secs < u.secs ∨ t.secs = u.secs ∧ t.nanos < u.nanos)

/-- `UNIX_EPOCH`. -/
def unixEpoch : SystemTime := ⟨0, 0, by norm_num, by norm_num, by norm_num⟩

/-- The last second of a `SystemTime`. -/
def maxSecs : ℕ := 2 ^ 63 - 1

/-- `UNIX_EPOCH + Duration::from_secs(secs)`, which panics outside the range of `SystemTime`. -/
def epochPlus (secs : ℕ) : Except Panic SystemTime :=
  if h : secs ≤ maxSecs then
    .ok ⟨secs, 0, by norm_num, by omega, by unfold maxSecs at h; omega⟩
  else .error .timeOverflow

/-- `self.duration_since(earlier)`, in whole seconds; `none` when `earlier` is later. -/
def durationSince (t earlier : SystemTime) : Option ℕ :=
  if t.before earlier then none
  else some (t.secs - earlier.secs - if t.nanos < earlier.nanos then 1 else 0).toNat

/-- `self.duration_since(UNIX_EPOCH).map(|d| d.as_secs()).unwrap_or(0)`, the clock of the
command handlers. -/
def unixSecs (t : SystemTime) : ℕ := t.secs.toNat

end SystemTime

/-! ### Commands and replies -/

inductive Command where
  | ping | set | get | ex | incr | incrby | decr | append | strlen | exists | del
  | hset | hget | hmget | hdel | hexists | hlen
  | lpush | lpop | rpush | rpop | llen | lrange | lindex | lset | lrem
  | expire | ttl | subscribe | publish | mset | mget
  | sadd | srem | sismember | hgetall | smembers | config | command
deriving DecidableEq, Repr

inductive Sacrilege where
  | incorrectNumberOfArguments (cmd : Command)
  | incorrectUsage (cmd : Command)
  | unknownCommand
  | subscriberOnlyMode
deriving DecidableEq, Repr

inductive InfoType where
  | ok | pong | command
deriving DecidableEq, Repr

inductive Response where
  | error (sacrilege : Sacrilege)
  | info (info : InfoType)
  | bulkString (value : Option Bytes)
  | bulkStringArray (values : Option (List (Option Bytes)))
  | amount (amount : ℕ)
  | number (number : ℤ)
  | length (length : ℕ)
  | subscribedChannels (channels : List (Bytes × ℕ))
  | unsubscribedChannels (channels : Option (List (Bytes × ℕ)))
deriving DecidableEq, Repr

def Response.isError : Response → Bool
  | .error _ => true
  | _ => false

/-- Why a connection is given up. -/
inductive Sin where
  | utf8Error | parseError | disconnected | blasphemy
deriving DecidableEq, Repr

/-! ### Values of the store -/

/-- `HashMap<Vec<u8>, Vec<u8>>`, with its order of iteration. -/
abbrev FieldMap := AList (fun _ : Bytes => Bytes)

inductive Value where
  | string (value : Bytes)
  | list (list : List Bytes)
  | hash (map : FieldMap)
  | set (set : HashSet Bytes)
deriving DecidableEq

namespace Value

def string? : Value → Option Bytes
  | .string v => some v
  | _ => none

def list? : Value → Option (List Bytes)
  | .list l => some l
  | _ => none

def hash? : Value → Option FieldMap
  | .hash m => some m
  | _ => none

def set? : Value → Option (HashSet Bytes)
  | .set s => some s
  | _ => none

end Value

/-- A value and its deadline, in seconds since the epoch. -/
abbrev Entry := Value × Option ℕ

/-! ### Messages -/

inductive DatabaseCommand where
  | get (key : Bytes) (time : ℕ)
  | set (key : Bytes) (value : Entry)
  | del (keys : List Bytes) (time : ℕ)
  | append (key value : Bytes) (time : ℕ)
  | incr (key : Bytes) (time : ℕ)
  | incrby (key : Bytes) (number : ℤ) (time : ℕ)
  | decr (key : Bytes) (time : ℕ)
  | strlen (key : Bytes) (time : ℕ)
  | exists (keys : List Bytes) (time : ℕ)
  | hset (key : Bytes) (fieldValuePairs : List (Bytes × Bytes)) (time : ℕ)
  | hget (key field : Bytes) (time : ℕ)
  | hmget (key : Bytes) (fields : List Bytes) (time : ℕ)
  | hdel (key : Bytes) (fields : List Bytes) (time : ℕ)
  | hexists (key field : Bytes) (time : ℕ)
  | hlen (key : Bytes) (time : ℕ)
  | lpush (key : Bytes) (elements : List Bytes) (time : ℕ)
  | lpop (key : Bytes) (time : ℕ)
  | lpopM (key : Bytes) (count time : ℕ)
  | rpush (key : Bytes) (elements : List Bytes) (time : ℕ)
  | rpop (key : Bytes) (time : ℕ)
  | rpopM (key : Bytes) (count time : ℕ)
  | llen (key : Bytes) (time : ℕ)
  | lrange (key : Bytes) (startingIndex endingIndex : ℤ) (time : ℕ)
  | lindex (key : Bytes) (index : ℤ) (time : ℕ)
  | lset (key : Bytes) (index : ℤ) (element : Bytes) (time : ℕ)
  | lrem (key : Bytes) (count : ℤ) (element : Bytes) (time : ℕ)
  | expire (key : Bytes) (expiry time : ℕ)
  | ttl (key : Bytes) (time : SystemTime)
  | mset (termsIter : List Bytes)
  | mget (termsIter : List Bytes) (time : ℕ)
  | sadd (key : Bytes) (values : List Bytes) (time : ℕ)
  | srem (key : Bytes) (values : List Bytes) (time : ℕ)
  | sismember (key value : Bytes) (time : ℕ)
  | hgetall (key : Bytes) (time : ℕ)
  | smembers (key : Bytes) (time : ℕ)
  | configGet (properties : List Bytes)
deriving DecidableEq

inductive BroadcastCommand where
  | subscribe (events : List Bytes)
  | publish (event message : Bytes)
  | unsubscribe (terms : List Bytes)
deriving DecidableEq

inductive ClientCommandType where
  | database (command : DatabaseCommand)
  | broadcast (command : BroadcastCommand)
deriving DecidableEq

/-- A client's message to the temple. -/
structure Wish where
  token : Token
  command : ClientCommandType
deriving DecidableEq

/-- A reply on its way to a client. -/
structure Gift where
  token : Token
  response : Response
deriving DecidableEq, Repr

/-- A message to egress. -/
inductive Decree where
  | welcome (token : Token)
  | goodbye (token : Token)
  | deliver (gift : Gift)
  | broadcast (token : Token) (event message : Bytes) (clients : List Token)
deriving DecidableEq, Repr

end Heaven
