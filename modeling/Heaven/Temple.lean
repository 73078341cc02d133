import Heaven.SoulCells

/-! # The temple

`temple.rs`: the two subscription maps and the command loop of the thread that owns the store.
A turn of the loop takes one `Wish` and sends one `Decree` to egress.  `database` is the match
over the store commands and answers with the store and the response; `turn` adds the branch for
SUBSCRIBE, UNSUBSCRIBE and PUBLISH and the gate that refuses store commands to subscribers, which
stands in front of `database` only.

The server's own commands (saving a snapshot) end the loop or answer another thread; they come with
the shutdown of the process. -/

namespace Heaven

open Decimal (ascii)

/-! ### Subscriptions -/

/-- Who listens to an event. -/
abbrev ClientMap := Dict Bytes (HashSet Token)

/-- What a client listens to. -/
abbrev EventMap := Dict Token (HashSet Bytes)

namespace ClientMap

def subscribe (m : ClientMap) (token : Token) (events : List Bytes) : ClientMap :=
  events.foldl (fun m event =>
    match m.get? event with
    | some set => m.insert event (set.insert token)
    | none => m.insert event (HashSet.empty.insert token)) m

def unsubscribe (m : ClientMap) (token : Token) : Option (List (Bytes × ℕ)) → ClientMap
  | none => m
  | some events =>
      events.foldl (fun m e =>
        match m.get? e.1 with
        | some set =>
            let set := set.remove token
            if set.isEmpty then m.erase e.1 else m.insert e.1 set
        | none => m) m

def publish (m : ClientMap) (event : Bytes) : List Token :=
  match m.get? event with
  | some clients => clients.elems
  | none => []

end ClientMap

namespace EventMap

/-- Only events that are new to the set are confirmed. -/
def subscribeLoop : HashSet Bytes → ℕ → List (Bytes × ℕ) → List Bytes →
    HashSet Bytes × List (Bytes × ℕ)
  | set, _, result, [] => (set, result)
  | set, count, result, event :: events =>
      if set.contains event then subscribeLoop set count result events
      else
        subscribeLoop (set.insert event) (count + 1) (result ++ [(event, count + 1)]) events

def subscribe (m : EventMap) (token : Token) (events : List Bytes) :
    EventMap × List (Bytes × ℕ) :=
  match m.get? token with
  | some set =>
      let (set, result) := subscribeLoop set set.len [] events
      (m.insert token set, result)
  | none =>
      let (set, result) := subscribeLoop HashSet.empty 0 [] events
      (m.insert token set, result)

/-- The loop over the events of the request; each is confirmed, subscribed or not. -/
def unsubscribeLoop : HashSet Bytes → ℕ → List (Bytes × ℕ) → List Bytes →
    HashSet Bytes × List (Bytes × ℕ)
  | existing, _, result, [] => (existing, result)
  | existing, count, result, event :: events =>
      let count := if existing.contains event then count - 1 else count
      unsubscribeLoop (existing.remove event) count (result ++ [(event, count)]) events

/-- The loop over all events of the client. -/
def unsubscribeAllLoop : ℕ → List (Bytes × ℕ) → List Bytes → List (Bytes × ℕ)
  | _, result, [] => result
  | count, result, event :: events =>
      unsubscribeAllLoop (count - 1) (result ++ [(event, count - 1)]) events

def unsubscribe (m : EventMap) (events : List Bytes) (token : Token)
    (subscribedClients : HashSet Token) :
    EventMap × HashSet Token × Option (List (Bytes × ℕ)) :=
  match m.get? token with
  | some existing =>
      if !events.isEmpty then
        let (existing, result) := unsubscribeLoop existing existing.len [] events
        if existing.isEmpty then (m.erase token, subscribedClients.remove token, some result)
        else (m.insert token existing, subscribedClients, some result)
      else
        (m.erase token, subscribedClients.remove token,
          some (unsubscribeAllLoop existing.len [] existing.elems))
  | none => (m, subscribedClients, none)

end EventMap

/-! ### Configuration -/

abbrev Config := FieldMap

def initializeConfig (dir dbfilename ipv4Address port ioThreads eventCapacity maxMemory
    appendOnly : Bytes) : Config :=
  let config : Config := ∅
  let config := config.insert (ascii "dir") dir
  let config := config.insert (ascii "dbfilename") dbfilename
  let config := config.insert (ascii "ipv4_address") ipv4Address
  let config := config.insert (ascii "port") port
  let config := config.insert (ascii "io_threads") ioThreads
  let config := config.insert (ascii "max_memory") maxMemory
  let config := config.insert (ascii "event_capacity") eventCapacity
  config.insert (ascii "append_only") appendOnly

def databases : List (Option Bytes) := [some (ascii "databases"), some (ascii "1")]

def configGet (config : Config) (properties : List Bytes) : List (Option Bytes) :=
  if ascii "*" ∈ properties then
    config.entries.flatMap (fun e => [some e.1, some e.2]) ++ databases
  else
    (properties.flatMap fun property =>
      match config.lookup property with
      | some value => [some property, some value]
      | none => []) ++
    if ascii "databases" ∈ properties then databases else []

/-! ### The command loop -/

variable {α : Type}

/-- `match result { Ok(x) => answer(x), Err(sacrilege) => Response::Error(sacrilege) }`. -/
def replyTo (answer : α → Response) : Except Sacrilege α → Response
  | .ok x => answer x
  | .error sacrilege => .error sacrilege

/-- Call a method of the store and send the reply to its result. -/
def respond (answer : α → Response) (called : Soul × Except Sacrilege α) :
    Soul × Except Panic Response :=
  (called.1, .ok (replyTo answer called.2))

/-- `respond` for a method that can panic; the thread is then gone. -/
def respondOrPanic (answer : α → Response) (called : Soul × Except Panic (Except Sacrilege α)) :
    Soul × Except Panic Response :=
  (called.1, called.2.map (replyTo answer))

/-- The match over the store commands. -/
def database (soul : Soul) (config : Config) :
    DatabaseCommand → Soul × Except Panic Response
  | .get key time => respond .bulkString (soul.get key time)
  | .set key value => (soul.set key value, .ok (.info .ok))
  | .del keys time => ((soul.del keys time).1, .ok (.amount (soul.del keys time).2))
  | .append key value time => respond .length (soul.append key value time)
  | .incr key time => respond .number (soul.incr key time)
  | .incrby key number time => respond .number (soul.incrby key number time)
  | .decr key time => respond .number (soul.decr key time)
  | .strlen key time => respond .length (soul.strlen key time)
  | .exists keys time => ((soul.exists keys time).1, .ok (.amount (soul.exists keys time).2))
  | .hset key fieldValuePairs time => respond .amount (soul.hset key fieldValuePairs time)
  | .hget key field time => respond .bulkString (soul.hget key field time)
  | .hmget key fields time => respond .bulkStringArray (soul.hmget key fields time)
  | .hdel key fields time => respond .amount (soul.hdel key fields time)
  | .hexists key field time => respond .amount (soul.hexists key field time)
  | .hlen key time => respond .length (soul.hlen key time)
  | .lpush key elements time => respond .length (soul.lpush key elements time)
  | .lpop key time => respond .bulkString (soul.lpop key time)
  | .lpopM key count time => respond .bulkStringArray (soul.lpopM key count time)
  | .rpush key elements time => respond .length (soul.rpush key elements time)
  | .rpop key time => respond .bulkString (soul.rpop key time)
  | .rpopM key count time => respond .bulkStringArray (soul.rpopM key count time)
  | .llen key time => respond .length (soul.llen key time)
  | .lrange key startingIndex endingIndex time =>
      respondOrPanic .bulkStringArray (soul.lrange key startingIndex endingIndex time)
  | .lindex key index time => respond .bulkString (soul.lindex key index time)
  | .lset key index element time =>
      respondOrPanic (fun _ => .info .ok) (soul.lset key index element time)
  | .lrem key count element time => respondOrPanic .length (soul.lrem key count element time)
  | .expire key expiry time =>
      ((soul.expire key expiry time).1, .ok (.amount (soul.expire key expiry time).2))
  | .ttl key time => ((soul.ttl key time).1, (soul.ttl key time).2.map .number)
  | .mset termsIter => (soul.mset termsIter, .ok (.info .ok))
  | .mget termsIter time =>
      ((soul.mget termsIter time).1, .ok (.bulkStringArray (soul.mget termsIter time).2))
  | .sadd key values time => respond .length (soul.sadd key values time)
  | .srem key values time => respond .length (soul.srem key values time)
  | .sismember key value time => respond .length (soul.sismember key value time)
  | .hgetall key time => respond .bulkStringArray (soul.hgetall key time)
  | .smembers key time => respond .bulkStringArray (soul.smembers key time)
  | .configGet properties => (soul, .ok (.bulkStringArray (some (configGet config properties))))

/-- What the temple's thread owns. -/
structure Temple where
  soul : Soul
  clientMap : ClientMap
  eventMap : EventMap
  subscribedClients : HashSet Token
  config : Config

namespace Temple

/-- The temple at the start of its loop, without a snapshot to load. -/
def worship (config : Config) : Temple where
  soul := Soul.new
  clientMap := Dict.empty
  eventMap := Dict.empty
  subscribedClients := HashSet.empty
  config := config

def deliver (token : Token) (response : Response) : Decree := .deliver ⟨token, response⟩

/-- One turn of the loop: the new state and the decree sent to egress. -/
def turn (t : Temple) (wish : Wish) : Temple × Except Panic Decree :=
  let token := wish.token
  match wish.command with
  | .broadcast (.subscribe events) =>
      let subscribedClients := t.subscribedClients.insert token
      let (eventMap, subscribedChannels) := EventMap.subscribe t.eventMap token events
      let clientMap := ClientMap.subscribe t.clientMap token events
      ({ t with clientMap, eventMap, subscribedClients },
        .ok (deliver token (.subscribedChannels subscribedChannels)))
  | .broadcast (.unsubscribe terms) =>
      let (eventMap, subscribedClients, unsubscribedEvents) :=
        EventMap.unsubscribe t.eventMap terms token t.subscribedClients
      let clientMap := ClientMap.unsubscribe t.clientMap token unsubscribedEvents
      ({ t with clientMap, eventMap, subscribedClients },
        .ok (deliver token (.unsubscribedChannels unsubscribedEvents)))
  | .broadcast (.publish event message) =>
      (t, .ok (.broadcast token event message (ClientMap.publish t.clientMap event)))
  | .database cmd =>
      if t.subscribedClients.contains token then
        (t, .ok (deliver token (.error .subscriberOnlyMode)))
      else
        let (soul, response) := database t.soul t.config cmd
        ({ t with soul }, response.map (deliver token))

end Temple
end Heaven
