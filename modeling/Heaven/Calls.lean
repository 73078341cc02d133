import Heaven.Locality

/-! # Store commands as calls

A store command calls one method of the store and answers with what it makes of the result
(`database_call`); CONFIG GET calls none.  So the keys of a command are those of its method, and
what holds of every method holds of every command. -/

namespace Heaven

/-- A method of the store, and what the command loop makes of its result. -/
structure Call where
  {Result : Type}
  method : Soul.Method Result
  answer : Result → Except Panic Response

namespace Call

def run (call : Call) (s : Soul) : Soul × Except Panic Response :=
  ((call.method.run s).1, call.answer (call.method.run s).2)

/-- The result is sent as it is. -/
def always {ρ : Type} (method : Soul.Method ρ) (answer : ρ → Response) : Call where
  method := method
  answer result := .ok (answer result)

/-- An error of the store is sent as an error. -/
def replies {ρ : Type} (method : Soul.Method (Except Sacrilege ρ)) (answer : ρ → Response) :
    Call where
  method := method
  answer result := .ok (replyTo answer result)

/-- The method can panic. -/
def panics {ρ : Type} (method : Soul.Method (Except Panic (Except Sacrilege ρ)))
    (answer : ρ → Response) : Call where
  method := method
  answer result := result.map (replyTo answer)

/-- A call concerns no keys but those of its method. -/
theorem concerns (call : Call) : Dict.Local {k | k ∈ call.method.keys} call.run :=
  call.method.concerns.bind fun result => Dict.local_return (call.answer result)

end Call

namespace DatabaseCommand

/-- The call of the command. -/
def call? : DatabaseCommand → Option Call
  | .get key time => some (.replies (.get key time) .bulkString)
  | .set key value => some (.always (.set key value) fun _ => .info .ok)
  | .del keys time => some (.always (.del keys time) .amount)
  | .append key value time => some (.replies (.append key value time) .length)
  | .incr key time => some (.replies (.incr key time) .number)
  | .incrby key number time => some (.replies (.incrby key number time) .number)
  | .decr key time => some (.replies (.decr key time) .number)
  | .strlen key time => some (.replies (.strlen key time) .length)
  | .exists keys time => some (.always (.exists keys time) .amount)
  | .hset key fieldValuePairs time => some (.replies (.hset key fieldValuePairs time) .amount)
  | .hget key field time => some (.replies (.hget key field time) .bulkString)
  | .hmget key fields time => some (.replies (.hmget key fields time) .bulkStringArray)
  | .hdel key fields time => some (.replies (.hdel key fields time) .amount)
  | .hexists key field time => some (.replies (.hexists key field time) .amount)
  | .hlen key time => some (.replies (.hlen key time) .length)
  | .lpush key elements time => some (.replies (.lpush key elements time) .length)
  | .lpop key time => some (.replies (.lpop key time) .bulkString)
  | .lpopM key count time => some (.replies (.lpopM key count time) .bulkStringArray)
  | .rpush key elements time => some (.replies (.rpush key elements time) .length)
  | .rpop key time => some (.replies (.rpop key time) .bulkString)
  | .rpopM key count time => some (.replies (.rpopM key count time) .bulkStringArray)
  | .llen key time => some (.replies (.llen key time) .length)
  | .lrange key startingIndex endingIndex time =>
      some (.panics (.lrange key startingIndex endingIndex time) .bulkStringArray)
  | .lindex key index time => some (.replies (.lindex key index time) .bulkString)
  | .lset key index element time =>
      some (.panics (.lset key index element time) fun _ => .info .ok)
  | .lrem key count element time => some (.panics (.lrem key count element time) .length)
  | .expire key expiry time => some (.always (.expire key expiry time) .amount)
  | .ttl key time => some ⟨.ttl key time, fun result => result.map .number⟩
  | .mset termsIter => some (.always (.mset termsIter) fun _ => .info .ok)
  | .mget termsIter time => some (.always (.mget termsIter time) .bulkStringArray)
  | .sadd key values time => some (.replies (.sadd key values time) .length)
  | .srem key values time => some (.replies (.srem key values time) .length)
  | .sismember key value time => some (.replies (.sismember key value time) .length)
  | .hgetall key time => some (.replies (.hgetall key time) .bulkStringArray)
  | .smembers key time => some (.replies (.smembers key time) .bulkStringArray)
  | .configGet _ => none

/-- The keys that the command names. -/
def keys (cmd : DatabaseCommand) : List Bytes :=
  match cmd.call? with
  | some call => call.method.keys
  | none => []

end DatabaseCommand

variable {s : Soul} {config : Config} {cmd : DatabaseCommand}

/-- **A store command is its call.** -/
theorem database_call {call : Call} (h : cmd.call? = some call) (s : Soul) (config : Config) :
    database s config cmd = call.run s := by
  cases cmd with
  | configGet properties => cases h
  | _ =>
      cases h
      rfl

theorem database_no_call (config : Config) (h : cmd.call? = none) :
    ∃ response, ∀ s, database s config cmd = (s, .ok response) := by
  cases cmd with
  | configGet properties => exact ⟨_, fun _ => rfl⟩
  | _ => cases h

/-- A command concerns no keys but those it names. -/
theorem database_concerns (config : Config) (cmd : DatabaseCommand) :
    Dict.Local {k | k ∈ cmd.keys} fun s : Soul => database s config cmd := by
  unfold DatabaseCommand.keys
  cases hcall : cmd.call? with
  | none =>
      obtain ⟨response, hresponse⟩ := database_no_call config hcall
      simp only [hresponse]
      exact Dict.local_return _
  | some call =>
      simp only [database_call hcall]
      exact call.concerns

end Heaven
