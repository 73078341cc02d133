import Heaven.Temple

/-! # From the terms of a command to messages

`wish/grant.rs` and `wish/grant/*.rs`.  A handler checks the number of its terms, parses them and
either answers the client itself (a decree straight to egress) or sends a wish to the temple.
Its result is the list of messages it sends, in order.

Most handlers differ in the number of terms and the command they build; those are instances of
`keyHandler`, `keyArgumentHandler`, `keyListHandler`, `keysHandler`, `indexHandler` and
`popHandler`.  LINDEX is spelled out: its arity check has no `return` of its own.

`now + expiry` in the handlers of SET and EXPIRE wraps here, as in a release build.  With overflow
checks the sum panics instead; `expiryOf` is the summand, and the server model has the panic. -/

namespace Heaven

open Decimal (ascii)

/-- A message of a worker. -/
inductive Emission where
  | toEgress (decree : Decree)
  | toTemple (wish : Wish)
deriving DecidableEq

/-- A handler reads the clock, and sends under the client's token. -/
abbrev Handler := SystemTime → Token → List Bytes → List Emission

namespace Grant

def toAsciiLower (b : UInt8) : UInt8 := if 65 ≤ b ∧ b ≤ 90 then b + 32 else b

def eqIgnoreAsciiCase (a b : Bytes) : Bool :=
  decide (a.map toAsciiLower = b.map toAsciiLower)

/-- `tx.send(Decree::Deliver(Gift { token, response }))`. -/
def reply (token : Token) (response : Response) : List Emission :=
  [.toEgress (.deliver ⟨token, response⟩)]

def incorrectNumberOfArguments (token : Token) (cmd : Command) : List Emission :=
  reply token (.error (.incorrectNumberOfArguments cmd))

def incorrectUsage (token : Token) (cmd : Command) : List Emission :=
  reply token (.error (.incorrectUsage cmd))

/-- The methods of `Temple` that send a wish. -/
def pray (token : Token) (command : ClientCommandType) : List Emission :=
  [.toTemple ⟨token, command⟩]

/-! ### Shapes of handlers -/

/-- `terms.len() != 2`, then one key. -/
def keyHandler (cmd : Command) (make : SystemTime → Bytes → DatabaseCommand) : Handler :=
  fun clock token terms =>
    if terms.length ≠ 2 then incorrectNumberOfArguments token cmd
    else
      match terms.drop 1 with
      | key :: _ => pray token (.database (make clock key))
      | [] => incorrectNumberOfArguments token cmd

/-- `terms.len() != 3`, then a key and an argument. -/
def keyArgumentHandler (cmd : Command) (make : SystemTime → Bytes → Bytes → ClientCommandType) :
    Handler :=
  fun clock token terms =>
    if terms.length ≠ 3 then incorrectNumberOfArguments token cmd
    else
      match terms.drop 1 with
      | key :: argument :: _ => pray token (make clock key argument)
      | _ => incorrectNumberOfArguments token cmd

/-- `terms.len() < 3`, then a key and the remaining terms; no answer without a key. -/
def keyListHandler (cmd : Command) (make : SystemTime → Bytes → List Bytes → DatabaseCommand) :
    Handler :=
  fun clock token terms =>
    if terms.length < 3 then incorrectNumberOfArguments token cmd
    else
      match terms.drop 1 with
      | key :: rest => pray token (.database (make clock key rest))
      | [] => []

/-- `terms.len() < 2`, then the remaining terms. -/
def keysHandler (cmd : Command) (make : SystemTime → List Bytes → ClientCommandType) : Handler :=
  fun clock token terms =>
    if terms.length < 2 then incorrectNumberOfArguments token cmd
    else pray token (make clock (terms.drop 1))

/-- `terms.len() != 4`, then a key, a 32-bit number and an element. -/
def indexHandler (cmd : Command) (make : SystemTime → Bytes → ℤ → Bytes → DatabaseCommand) :
    Handler :=
  fun clock token terms =>
    if terms.length ≠ 4 then incorrectNumberOfArguments token cmd
    else
      match terms.drop 1 with
      | key :: index :: element :: _ =>
          match bytesToI32 index with
          | .ok index => pray token (.database (make clock key index element))
          | .error _ => incorrectUsage token cmd
      | _ => incorrectNumberOfArguments token cmd

/-- `terms.len() > 3`, then a key and perhaps a count. -/
def popHandler (cmd : Command) (one : SystemTime → Bytes → DatabaseCommand)
    (many : SystemTime → Bytes → ℕ → DatabaseCommand) : Handler :=
  fun clock token terms =>
    if terms.length > 3 then incorrectNumberOfArguments token cmd
    else
      match terms.drop 1 with
      | key :: count :: _ =>
          match bytesToUsize count with
          | .ok count => pray token (.database (many clock key count))
          | .error _ => incorrectUsage token cmd
      | key :: [] => pray token (.database (one clock key))
      | [] => incorrectNumberOfArguments token cmd

/-! ### Strings and counters -/

def set : Handler := fun clock token terms =>
  if terms.length > 5 then incorrectNumberOfArguments token .set
  else
    match terms.drop 1 with
    | key :: value :: [] => pray token (.database (.set key (.string value, none)))
    | key :: value :: cmd :: rest =>
        if eqIgnoreAsciiCase cmd (ascii "EX") then
          match rest with
          | [] => incorrectUsage token .set
          | expiry :: _ =>
              match bytesToU64 expiry with
              | .error _ => incorrectUsage token .set
              | .ok expiry =>
                  pray token (.database
                    (.set key (.string value, some (wrapU64 (clock.unixSecs + expiry)))))
        else incorrectNumberOfArguments token .set
    | _ => incorrectNumberOfArguments token .set

def get : Handler := keyHandler .get fun clock key => .get key clock.unixSecs

def append : Handler :=
  keyArgumentHandler .append fun clock key value => .database (.append key value clock.unixSecs)

def incr : Handler := keyHandler .incr fun clock key => .incr key clock.unixSecs

/-- Missing terms end without an answer. -/
def incrby : Handler := fun clock token terms =>
  if terms.length ≠ 3 then incorrectNumberOfArguments token .incrby
  else
    match terms.drop 1 with
    | key :: number :: _ =>
        match bytesToI64 number with
        | .error _ => incorrectUsage token .incrby
        | .ok number => pray token (.database (.incrby key number clock.unixSecs))
    | _ => []

def decr : Handler := keyHandler .decr fun clock key => .decr key clock.unixSecs

def strlen : Handler := keyHandler .strlen fun clock key => .strlen key clock.unixSecs

/-! ### Keys -/

def del : Handler := keysHandler .del fun clock keys => .database (.del keys clock.unixSecs)

def «exists» : Handler :=
  keysHandler .exists fun clock keys => .database (.exists keys clock.unixSecs)

def expire : Handler := fun clock token terms =>
  if terms.length ≠ 3 then incorrectNumberOfArguments token .expire
  else
    match terms.drop 1 with
    | key :: expiry :: _ =>
        match bytesToU64 expiry with
        | .error _ => incorrectUsage token .expire
        | .ok expiry =>
            pray token (.database
              (.expire key (wrapU64 (clock.unixSecs + expiry)) clock.unixSecs))
    | _ => incorrectNumberOfArguments token .expire

/-- The one command that is given the clock with its nanoseconds. -/
def ttl : Handler := keyHandler .ttl fun clock key => .ttl key clock

def mset : Handler := fun _ token terms =>
  if terms.length < 3 ∨ terms.length % 2 = 0 then incorrectNumberOfArguments token .mset
  else pray token (.database (.mset (terms.drop 1)))

def mget : Handler := keysHandler .mget fun clock keys => .database (.mget keys clock.unixSecs)

/-! ### Hashes -/

/-- `while let (Some(field), Some(value)) = (terms_iter.next(), terms_iter.next())`. -/
def fieldValuePairs : List Bytes → List (Bytes × Bytes)
  | field :: value :: rest => (field, value) :: fieldValuePairs rest
  | _ => []

def hset : Handler := fun clock token terms =>
  if terms.length < 4 ∨ ¬ terms.length % 2 = 0 then incorrectNumberOfArguments token .hset
  else
    match terms.drop 1 with
    | key :: rest => pray token (.database (.hset key (fieldValuePairs rest) clock.unixSecs))
    | [] => []

def hget : Handler :=
  keyArgumentHandler .hget fun clock key field => .database (.hget key field clock.unixSecs)

def hmget : Handler :=
  keyListHandler .hmget fun clock key fields => .hmget key fields clock.unixSecs

def hdel : Handler := keyListHandler .hdel fun clock key fields => .hdel key fields clock.unixSecs

def hexists : Handler :=
  keyArgumentHandler .hexists fun clock key field => .database (.hexists key field clock.unixSecs)

def hlen : Handler := keyHandler .hlen fun clock key => .hlen key clock.unixSecs

def hgetall : Handler := keyHandler .hgetall fun clock key => .hgetall key clock.unixSecs

/-! ### Lists -/

def lpush : Handler :=
  keyListHandler .lpush fun clock key elements => .lpush key elements clock.unixSecs

def lpop : Handler :=
  popHandler .lpop (fun clock key => .lpop key clock.unixSecs)
    fun clock key count => .lpopM key count clock.unixSecs

def rpush : Handler :=
  keyListHandler .rpush fun clock key elements => .rpush key elements clock.unixSecs

def rpop : Handler :=
  popHandler .rpop (fun clock key => .rpop key clock.unixSecs)
    fun clock key count => .rpopM key count clock.unixSecs

def llen : Handler := keyHandler .llen fun clock key => .llen key clock.unixSecs

def lrange : Handler := fun clock token terms =>
  if terms.length ≠ 4 then incorrectNumberOfArguments token .lrange
  else
    match terms.drop 1 with
    | key :: startingIndex :: endingIndex :: _ =>
        match bytesToI32 startingIndex, bytesToI32 endingIndex with
        | .ok startingIndex, .ok endingIndex =>
            pray token (.database (.lrange key startingIndex endingIndex clock.unixSecs))
        | _, _ => incorrectUsage token .lrange
    | _ => incorrectNumberOfArguments token .lrange

/-- The arity check is `if len != 3 && tx.send(..).is_err() { return }`: with an open channel
the error is sent and the handler goes on. -/
def lindex : Handler := fun clock token terms =>
  (if terms.length ≠ 3 then incorrectNumberOfArguments token .lindex else []) ++
    match terms.drop 1 with
    | key :: index :: _ =>
        match bytesToI32 index with
        | .ok index => pray token (.database (.lindex key index clock.unixSecs))
        | .error _ => incorrectUsage token .lindex
    | _ => incorrectNumberOfArguments token .lindex

def lset : Handler :=
  indexHandler .lset fun clock key index element => .lset key index element clock.unixSecs

def lrem : Handler :=
  indexHandler .lrem fun clock key count element => .lrem key count element clock.unixSecs

/-! ### Sets -/

def sadd : Handler := keyListHandler .sadd fun clock key values => .sadd key values clock.unixSecs

def srem : Handler := keyListHandler .srem fun clock key values => .srem key values clock.unixSecs

def sismember : Handler :=
  keyArgumentHandler .sismember fun clock key value =>
    .database (.sismember key value clock.unixSecs)

def smembers : Handler := keyHandler .smembers fun clock key => .smembers key clock.unixSecs

/-! ### Events -/

def subscribe : Handler := keysHandler .subscribe fun _ events => .broadcast (.subscribe events)

def publish : Handler :=
  keyArgumentHandler .publish fun _ event message => .broadcast (.publish event message)

def unsubscribe : Handler := fun _ token terms =>
  pray token (.broadcast (.unsubscribe (terms.drop 1)))

/-! ### The server -/

def config : Handler := fun _ token terms =>
  if terms.length < 3 then incorrectNumberOfArguments token .config
  else
    match terms.drop 1 with
    | cmd :: properties =>
        if !eqIgnoreAsciiCase cmd (ascii "GET") then incorrectUsage token .config
        else pray token (.database (.configGet properties))
    | [] => incorrectNumberOfArguments token .config

/-- `terms.len() != 1`, then a constant answer of the worker. -/
def constantHandler (cmd : Command) (info : InfoType) : Handler := fun _ token terms =>
  if terms.length ≠ 1 then incorrectNumberOfArguments token cmd else reply token (.info info)

def ping : Handler := constantHandler .ping .pong

def command : Handler := constantHandler .command .command

def quit : Handler := fun _ token _ => reply token (.info .ok)

/-! ### Dispatch -/

/-- The words of the dispatch, in the order in which they are tried. -/
def handlers : List (Bytes × Handler) :=
  [(ascii "SET", set), (ascii "GET", get), (ascii "PING", ping), (ascii "DEL", del),
    (ascii "EXISTS", «exists»), (ascii "INCRBY", incrby), (ascii "INCR", incr),
    (ascii "DECR", decr), (ascii "APPEND", append), (ascii "HSET", hset), (ascii "HGET", hget),
    (ascii "HMGET", hmget), (ascii "STRLEN", strlen), (ascii "HDEL", hdel),
    (ascii "HEXISTS", hexists), (ascii "HLEN", hlen), (ascii "LPUSH", lpush),
    (ascii "LPOP", lpop), (ascii "RPUSH", rpush), (ascii "RPOP", rpop), (ascii "LLEN", llen),
    (ascii "LRANGE", lrange), (ascii "LINDEX", lindex), (ascii "LSET", lset),
    (ascii "LREM", lrem), (ascii "EXPIRE", expire), (ascii "TTL", ttl),
    (ascii "SUBSCRIBE", subscribe), (ascii "PUBLISH", publish), (ascii "MSET", mset),
    (ascii "MGET", mget), (ascii "SADD", sadd), (ascii "SREM", srem),
    (ascii "SISMEMBER", sismember), (ascii "HGETALL", hgetall), (ascii "SMEMBERS", smembers),
    (ascii "UNSUBSCRIBE", unsubscribe), (ascii "CONFIG", config), (ascii "QUIT", quit),
    (ascii "COMMAND", command)]

/-- The handler of a word; the words are compared without regard to case. -/
def handlerOf (cmd : Bytes) : Option (Bytes × Handler) :=
  handlers.find? fun entry => eqIgnoreAsciiCase cmd entry.1

/-! ### `now + expiry` -/

/-- What `set` adds to the second of the clock. -/
def setExpiry : List Bytes → Option ℕ
  | [_, _, _, cmd, expiry] =>
      if eqIgnoreAsciiCase cmd (ascii "EX") then (bytesToU64 expiry).toOption else none
  | _ => none

/-- What `expire` adds to the second of the clock. -/
def expireExpiry : List Bytes → Option ℕ
  | [_, _, expiry] => (bytesToU64 expiry).toOption
  | _ => none

/-- What the handler of the command adds to the second of the clock. -/
def expiryOf (terms : List Bytes) (h : terms ≠ []) : Option ℕ :=
  match handlerOf (terms.head h) with
  | some (word, _) =>
      if word = ascii "SET" then setExpiry terms
      else if word = ascii "EXPIRE" then expireExpiry terms
      else none
  | none => none

end Grant

open Grant in
/-- `grant` on a nonempty list of terms. -/
def grant (terms : List Bytes) (h : terms ≠ []) (clock : SystemTime) (token : Token) :
    List Emission :=
  match handlerOf (terms.head h) with
  | some (_, handler) => handler clock token terms
  | none => reply token (.error .unknownCommand)

/-! ### A command from end to end -/

namespace Temple

/-- Let the temple and egress take the messages of one command; the result is the temple's state
and the decrees egress receives. -/
def handle : Temple → List Emission → Temple × Except Panic (List Decree)
  | t, [] => (t, .ok [])
  | t, .toEgress decree :: emissions =>
      let (t, decrees) := t.handle emissions
      (t, decrees.map (decree :: ·))
  | t, .toTemple wish :: emissions =>
      match t.turn wish with
      | (t, .error panic) => (t, .error panic)
      | (t, .ok decree) =>
          let (t, decrees) := t.handle emissions
          (t, decrees.map (decree :: ·))

end Temple
end Heaven
