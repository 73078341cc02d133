import Heaven.Temple

/-! # The methods of the store as data

`Method ρ` lists the methods of `Soul` whose result has type `ρ`, with their arguments, and `run`
calls them.  A statement about every method is a statement about `Method`.

`database_eq_run` ties the list to the command loop: every store command runs one method and maps
its result to the response. -/

namespace Heaven
namespace Soul

/-- A method of `Soul` and its arguments. -/
inductive Method : Type → Type
  | get (key : Bytes) (now : ℕ) : Method (Except Sacrilege (Option Bytes))
  | set (key : Bytes) (val : Entry) : Method Unit
  | append (key incomingValue : Bytes) (now : ℕ) : Method (Except Sacrilege ℕ)
  | incr (key : Bytes) (now : ℕ) : Method (Except Sacrilege ℤ)
  | incrby (key : Bytes) (numberToIncrementBy : ℤ) (now : ℕ) : Method (Except Sacrilege ℤ)
  | decr (key : Bytes) (now : ℕ) : Method (Except Sacrilege ℤ)
  | strlen (key : Bytes) (now : ℕ) : Method (Except Sacrilege ℕ)
  | del (keys : List Bytes) (now : ℕ) : Method ℕ
  | exists (keys : List Bytes) (now : ℕ) : Method ℕ
  | hset (key : Bytes) (fieldValuePairs : List (Bytes × Bytes)) (now : ℕ) :
      Method (Except Sacrilege ℕ)
  | hget (key field : Bytes) (now : ℕ) : Method (Except Sacrilege (Option Bytes))
  | hmget (key : Bytes) (fields : List Bytes) (now : ℕ) :
      Method (Except Sacrilege (Option (List (Option Bytes))))
  | hdel (key : Bytes) (fields : List Bytes) (now : ℕ) : Method (Except Sacrilege ℕ)
  | hexists (key field : Bytes) (now : ℕ) : Method (Except Sacrilege ℕ)
  | hlen (key : Bytes) (now : ℕ) : Method (Except Sacrilege ℕ)
  | hgetall (key : Bytes) (now : ℕ) : Method (Except Sacrilege (Option (List (Option Bytes))))
  | lpush (key : Bytes) (elements : List Bytes) (now : ℕ) : Method (Except Sacrilege ℕ)
  | lpop (key : Bytes) (now : ℕ) : Method (Except Sacrilege (Option Bytes))
  | lpopM (key : Bytes) (count now : ℕ) :
      Method (Except Sacrilege (Option (List (Option Bytes))))
  | rpush (key : Bytes) (elements : List Bytes) (now : ℕ) : Method (Except Sacrilege ℕ)
  | rpop (key : Bytes) (now : ℕ) : Method (Except Sacrilege (Option Bytes))
  | rpopM (key : Bytes) (count now : ℕ) :
      Method (Except Sacrilege (Option (List (Option Bytes))))
  | llen (key : Bytes) (now : ℕ) : Method (Except Sacrilege ℕ)
  | lrange (key : Bytes) (startingIndex endingIndex : ℤ) (now : ℕ) :
      Method (Except Panic (Except Sacrilege (Option (List (Option Bytes)))))
  | lindex (key : Bytes) (index : ℤ) (now : ℕ) : Method (Except Sacrilege (Option Bytes))
  | lset (key : Bytes) (index : ℤ) (element : Bytes) (now : ℕ) :
      Method (Except Panic (Except Sacrilege Unit))
  | lrem (key : Bytes) (count : ℤ) (element : Bytes) (now : ℕ) :
      Method (Except Panic (Except Sacrilege ℕ))
  | expire (key : Bytes) (expiry now : ℕ) : Method ℕ
  | ttl (key : Bytes) (now : SystemTime) : Method (Except Panic ℤ)
  | mset (termsIter : List Bytes) : Method Unit
  | mget (terms : List Bytes) (now : ℕ) : Method (Option (List (Option Bytes)))
  | sadd (key : Bytes) (values : List Bytes) (now : ℕ) : Method (Except Sacrilege ℕ)
  | srem (key : Bytes) (values : List Bytes) (now : ℕ) : Method (Except Sacrilege ℕ)
  | sismember (key value : Bytes) (now : ℕ) : Method (Except Sacrilege ℕ)
  | smembers (key : Bytes) (now : ℕ) : Method (Except Sacrilege (Option (List (Option Bytes))))

namespace Method

variable {ρ : Type}

/-- Call the method. -/
def run : {ρ : Type} → Method ρ → Soul → Soul × ρ
  | _, .get key now, s => s.get key now
  | _, .set key val, s => (s.set key val, ())
  | _, .append key incomingValue now, s => s.append key incomingValue now
  | _, .incr key now, s => s.incr key now
  | _, .incrby key number now, s => s.incrby key number now
  | _, .decr key now, s => s.decr key now
  | _, .strlen key now, s => s.strlen key now
  | _, .del keys now, s => s.del keys now
  | _, .exists keys now, s => s.exists keys now
  | _, .hset key fieldValuePairs now, s => s.hset key fieldValuePairs now
  | _, .hget key field now, s => s.hget key field now
  | _, .hmget key fields now, s => s.hmget key fields now
  | _, .hdel key fields now, s => s.hdel key fields now
  | _, .hexists key field now, s => s.hexists key field now
  | _, .hlen key now, s => s.hlen key now
  | _, .hgetall key now, s => s.hgetall key now
  | _, .lpush key elements now, s => s.lpush key elements now
  | _, .lpop key now, s => s.lpop key now
  | _, .lpopM key count now, s => s.lpopM key count now
  | _, .rpush key elements now, s => s.rpush key elements now
  | _, .rpop key now, s => s.rpop key now
  | _, .rpopM key count now, s => s.rpopM key count now
  | _, .llen key now, s => s.llen key now
  | _, .lrange key startingIndex endingIndex now, s => s.lrange key startingIndex endingIndex now
  | _, .lindex key index now, s => s.lindex key index now
  | _, .lset key index element now, s => s.lset key index element now
  | _, .lrem key count element now, s => s.lrem key count element now
  | _, .expire key expiry now, s => s.expire key expiry now
  | _, .ttl key now, s => s.ttl key now
  | _, .mset termsIter, s => (s.mset termsIter, ())
  | _, .mget terms now, s => s.mget terms now
  | _, .sadd key values now, s => s.sadd key values now
  | _, .srem key values now, s => s.srem key values now
  | _, .sismember key value now, s => s.sismember key value now
  | _, .smembers key now, s => s.smembers key now

/-- The second a method is given as `now: u64`; SET, MSET and TTL have no such argument. -/
def now? : {ρ : Type} → Method ρ → Option ℕ
  | _, .get _ now | _, .append _ _ now | _, .incr _ now | _, .incrby _ _ now | _, .decr _ now
  | _, .strlen _ now | _, .del _ now | _, .exists _ now | _, .hset _ _ now | _, .hget _ _ now
  | _, .hmget _ _ now | _, .hdel _ _ now | _, .hexists _ _ now | _, .hlen _ now
  | _, .hgetall _ now | _, .lpush _ _ now | _, .lpop _ now | _, .lpopM _ _ now
  | _, .rpush _ _ now | _, .rpop _ now | _, .rpopM _ _ now | _, .llen _ now
  | _, .lrange _ _ _ now | _, .lindex _ _ now | _, .lset _ _ _ now | _, .lrem _ _ _ now
  | _, .expire _ _ now | _, .mget _ now | _, .sadd _ _ now | _, .srem _ _ now
  | _, .sismember _ _ now | _, .smembers _ now => some now
  | _, .set _ _ | _, .ttl _ _ | _, .mset _ => none

/-- The key of a pop. -/
def popKey? : {ρ : Type} → Method ρ → Option Bytes
  | _, .lpop key _ | _, .lpopM key _ _ | _, .rpop key _ | _, .rpopM key _ _ => some key
  | _, _ => none

end Method

/-- **A store command runs one method of the store and answers with its result.** -/
theorem database_eq_run (s : Soul) (config : Config) :
    ∀ cmd : DatabaseCommand, (∀ properties, cmd ≠ .configGet properties) →
      ∃ (ρ : Type) (m : Method ρ) (answer : ρ → Except Panic Response),
        database s config cmd = ((m.run s).1, answer (m.run s).2)
  | .get key time, _ => ⟨_, .get key time, fun r => .ok (replyTo .bulkString r), rfl⟩
  | .set key value, _ => ⟨_, .set key value, fun _ => .ok (.info .ok), rfl⟩
  | .del keys time, _ => ⟨_, .del keys time, fun n => .ok (.amount n), rfl⟩
  | .append key value time, _ => ⟨_, .append key value time, fun r => .ok (replyTo .length r), rfl⟩
  | .incr key time, _ => ⟨_, .incr key time, fun r => .ok (replyTo .number r), rfl⟩
  | .incrby key number time, _ =>
      ⟨_, .incrby key number time, fun r => .ok (replyTo .number r), rfl⟩
  | .decr key time, _ => ⟨_, .decr key time, fun r => .ok (replyTo .number r), rfl⟩
  | .strlen key time, _ => ⟨_, .strlen key time, fun r => .ok (replyTo .length r), rfl⟩
  | .exists keys time, _ => ⟨_, .exists keys time, fun n => .ok (.amount n), rfl⟩
  | .hset key pairs time, _ => ⟨_, .hset key pairs time, fun r => .ok (replyTo .amount r), rfl⟩
  | .hget key field time, _ => ⟨_, .hget key field time, fun r => .ok (replyTo .bulkString r), rfl⟩
  | .hmget key fields time, _ =>
      ⟨_, .hmget key fields time, fun r => .ok (replyTo .bulkStringArray r), rfl⟩
  | .hdel key fields time, _ => ⟨_, .hdel key fields time, fun r => .ok (replyTo .amount r), rfl⟩
  | .hexists key field time, _ =>
      ⟨_, .hexists key field time, fun r => .ok (replyTo .amount r), rfl⟩
  | .hlen key time, _ => ⟨_, .hlen key time, fun r => .ok (replyTo .length r), rfl⟩
  | .lpush key elements time, _ =>
      ⟨_, .lpush key elements time, fun r => .ok (replyTo .length r), rfl⟩
  | .lpop key time, _ => ⟨_, .lpop key time, fun r => .ok (replyTo .bulkString r), rfl⟩
  | .lpopM key count time, _ =>
      ⟨_, .lpopM key count time, fun r => .ok (replyTo .bulkStringArray r), rfl⟩
  | .rpush key elements time, _ =>
      ⟨_, .rpush key elements time, fun r => .ok (replyTo .length r), rfl⟩
  | .rpop key time, _ => ⟨_, .rpop key time, fun r => .ok (replyTo .bulkString r), rfl⟩
  | .rpopM key count time, _ =>
      ⟨_, .rpopM key count time, fun r => .ok (replyTo .bulkStringArray r), rfl⟩
  | .llen key time, _ => ⟨_, .llen key time, fun r => .ok (replyTo .length r), rfl⟩
  | .lrange key start stop time, _ =>
      ⟨_, .lrange key start stop time, fun r => r.map (replyTo .bulkStringArray), rfl⟩
  | .lindex key index time, _ =>
      ⟨_, .lindex key index time, fun r => .ok (replyTo .bulkString r), rfl⟩
  | .lset key index element time, _ =>
      ⟨_, .lset key index element time, fun r => r.map (replyTo fun _ => .info .ok), rfl⟩
  | .lrem key count element time, _ =>
      ⟨_, .lrem key count element time, fun r => r.map (replyTo .length), rfl⟩
  | .expire key expiry time, _ => ⟨_, .expire key expiry time, fun n => .ok (.amount n), rfl⟩
  | .ttl key time, _ => ⟨_, .ttl key time, fun r => r.map .number, rfl⟩
  | .mset terms, _ => ⟨_, .mset terms, fun _ => .ok (.info .ok), rfl⟩
  | .mget terms time, _ => ⟨_, .mget terms time, fun r => .ok (.bulkStringArray r), rfl⟩
  | .sadd key values time, _ => ⟨_, .sadd key values time, fun r => .ok (replyTo .length r), rfl⟩
  | .srem key values time, _ => ⟨_, .srem key values time, fun r => .ok (replyTo .length r), rfl⟩
  | .sismember key value time, _ =>
      ⟨_, .sismember key value time, fun r => .ok (replyTo .length r), rfl⟩
  | .hgetall key time, _ => ⟨_, .hgetall key time, fun r => .ok (replyTo .bulkStringArray r), rfl⟩
  | .smembers key time, _ => ⟨_, .smembers key time, fun r => .ok (replyTo .bulkStringArray r), rfl⟩
  | .configGet properties, h => absurd rfl (h properties)

end Soul
end Heaven
