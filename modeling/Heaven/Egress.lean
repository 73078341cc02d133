import Heaven.Lib.Dict
import Heaven.Send

/-! # Egress

`egress.rs`: the thread that owns the writing ends of the connections.  A `Welcome` brings a
stream, a `Goodbye` drops it, and the other decrees are written to the streams of the clients
they are meant for.

A stream stands for a connection and is known by its number, the number of streams before it.  The
sockets are nonblocking: the `n`-th write of egress puts at most `room n` bytes on the wire, and
`write_all` is successful if that is the whole packet.  `log` is the history of all writes.
`process_log` says what one decree adds to it.

When a write fails, `egress` keeps the stream and goes on writing to it. -/

namespace Heaven

/-- The number of a stream. -/
abbrev Stream := ℕ

/-- A call of `write_all` and the number of bytes it has sent. -/
structure Write where
  stream : Stream
  packet : Packet
  sent : ℕ
  sent_le : sent ≤ packet.bytes.length

namespace Write

/-- The bytes on the wire. -/
def onWire (w : Write) : Bytes := w.packet.bytes.take w.sent

/-- `write_all` has answered with an error. -/
def Failed (w : Write) : Prop := w.sent < w.packet.bytes.length

instance (w : Write) : Decidable w.Failed := inferInstanceAs (Decidable (_ < _))

end Write

/-- What the egress thread owns, and the history of its writes. -/
structure Egress where
  egressMap : Dict Token Stream
  /-- How many streams there have been. -/
  accepted : ℕ
  log : List Write
  /-- The messages to the server loop, over `egress_tx`. -/
  notices : List Token

namespace Egress

def start : Egress := ⟨Dict.empty, 0, [], []⟩

/-- The `n`-th write. -/
def write (room : ℕ → ℕ) (n : ℕ) (stream : Stream) (packet : Packet) : Write :=
  ⟨stream, packet, min (room n) packet.bytes.length, Nat.min_le_right _ _⟩

theorem write_failed (room : ℕ → ℕ) (n : ℕ) (stream : Stream) (packet : Packet) :
    (write room n stream packet).Failed ↔ room n < packet.bytes.length := by
  show min (room n) packet.bytes.length < packet.bytes.length ↔ _
  omega

/-- `stream.write_all(..)`, and whether it is successful. -/
def writeAll (room : ℕ → ℕ) (e : Egress) (stream : Stream) (packet : Packet) : Egress × Bool :=
  let w := write room e.log.length stream packet
  ({ e with log := e.log ++ [w] }, decide (w.sent = packet.bytes.length))

/-- `if let Some(stream) = egress_map.get_mut(&client) && stream.write_all(..).is_err()`; the error
is only printed. -/
def writeTo (room : ℕ → ℕ) (packet : Packet) (e : Egress) (client : Token) : Egress :=
  match e.egressMap.get? client with
  | some stream => (e.writeAll room stream packet).1
  | none => e

/-- A decree is taken from the channel. -/
def process (room : ℕ → ℕ) (e : Egress) : Decree → Egress
  | .welcome token =>
      { e with egressMap := e.egressMap.insert token e.accepted, accepted := e.accepted + 1 }
  | .goodbye token =>
      { e with egressMap := e.egressMap.erase token, notices := e.notices ++ [token] }
  | .deliver gift =>
      match e.egressMap.get? gift.token with
      | some stream =>
          let (e, sent) := e.writeAll room stream (.reply gift.response)
          if sent then e else { e with notices := e.notices ++ [gift.token] }
      | none => e
  | .broadcast token event message clients =>
      let clientsLen := clients.length
      let e := clients.foldl (writeTo room (.message event message)) e
      writeTo room (.receivers clientsLen) e token

end Egress

/-! ### What a decree writes -/

/-- The packets of a decree and the clients they are meant for, in the order of the writes. -/
def Decree.packets : Decree → List (Token × Packet)
  | .welcome _ => []
  | .goodbye _ => []
  | .deliver gift => [(gift.token, .reply gift.response)]
  | .broadcast token event message clients =>
      clients.map (·, .message event message) ++ [(token, .receivers clients.length)]

namespace Egress

variable {room : ℕ → ℕ} {e : Egress}

/-- The writes that egress attempts for packets, when it knows the connections of `m`. -/
def attempts (m : Dict Token Stream) (packets : List (Token × Packet)) :
    List (Stream × Packet) :=
  packets.filterMap fun p => (m.get? p.1).map (·, p.2)

/-- The writes, numbered from `n`. -/
def writes (room : ℕ → ℕ) (n : ℕ) (attempts : List (Stream × Packet)) : List Write :=
  (attempts.zipIdx n).map fun a => write room a.2 a.1.1 a.1.2

theorem attempts_cons (m : Dict Token Stream) (p : Token × Packet)
    (packets : List (Token × Packet)) :
    attempts m (p :: packets) =
      ((m.get? p.1).elim [] fun stream => [(stream, p.2)]) ++ attempts m packets := by
  unfold attempts
  rw [List.filterMap_cons]
  cases m.get? p.1 <;> rfl

theorem attempts_append (m : Dict Token Stream) (packets packets' : List (Token × Packet)) :
    attempts m (packets ++ packets') = attempts m packets ++ attempts m packets' :=
  List.filterMap_append

theorem length_writes (room : ℕ → ℕ) (n : ℕ) (attempts : List (Stream × Packet)) :
    (writes room n attempts).length = attempts.length := by
  simp [writes]

theorem writes_append (room : ℕ → ℕ) (n : ℕ) (attempts attempts' : List (Stream × Packet)) :
    writes room n (attempts ++ attempts') =
      writes room n attempts ++ writes room (n + attempts.length) attempts' := by
  unfold writes
  rw [List.zipIdx_append, List.map_append]

theorem writeTo_eq (room : ℕ → ℕ) (packet : Packet) (e : Egress) (client : Token) :
    writeTo room packet e client =
      { e with
        log := e.log ++ writes room e.log.length (attempts e.egressMap [(client, packet)]) } := by
  unfold writeTo
  rw [attempts_cons]
  cases e.egressMap.get? client with
  | none => simp [attempts, writes]
  | some stream => rfl

/-- Writing to one client after the other. -/
theorem foldl_writeTo (room : ℕ → ℕ) (packet : Packet) (e : Egress) (clients : List Token) :
    clients.foldl (writeTo room packet) e =
      { e with
        log := e.log ++ writes room e.log.length
          (attempts e.egressMap (clients.map (·, packet))) } := by
  induction clients generalizing e with
  | nil => simp [attempts, writes]
  | cons client clients ih =>
      have hsplit : (client :: clients).map (·, packet) =
          [(client, packet)] ++ clients.map (·, packet) := rfl
      rw [List.foldl_cons, ih, writeTo_eq, hsplit, attempts_append, writes_append]
      simp only [List.length_append, length_writes, List.append_assoc]

/-- **A decree adds its packets to the log, for those of its clients that have a stream.** -/
theorem process_log (room : ℕ → ℕ) (e : Egress) (decree : Decree) :
    (e.process room decree).log =
      e.log ++ writes room e.log.length (attempts e.egressMap decree.packets) := by
  cases decree with
  | welcome token => exact (List.append_nil _).symm
  | goodbye token => exact (List.append_nil _).symm
  | deliver gift =>
      have hwrite := writeTo_eq room (.reply gift.response) e gift.token
      have hlog : (e.process room (.deliver gift)).log =
          (writeTo room (.reply gift.response) e gift.token).log := by
        cases hstream : e.egressMap.get? gift.token with
        | none => simp only [process, writeTo, hstream]
        | some stream =>
            simp only [process, writeTo, hstream]
            split_ifs <;> rfl
      rw [hlog, hwrite]
      rfl
  | broadcast token event message clients =>
      simp only [process, foldl_writeTo, writeTo_eq, Decree.packets, attempts_append,
        writes_append, List.length_append, length_writes, List.append_assoc]

/-- Only Welcome and Goodbye change the map of the streams, and only Welcome their number. -/
theorem process_map (room : ℕ → ℕ) (e : Egress) (decree : Decree) :
    ((e.process room decree).egressMap, (e.process room decree).accepted) =
      match decree with
      | .welcome token => (e.egressMap.insert token e.accepted, e.accepted + 1)
      | .goodbye token => (e.egressMap.erase token, e.accepted)
      | _ => (e.egressMap, e.accepted) := by
  cases decree with
  | welcome token => rfl
  | goodbye token => rfl
  | deliver gift =>
      cases hstream : e.egressMap.get? gift.token with
      | none => simp only [process, hstream]
      | some stream =>
          simp only [process, hstream]
          split_ifs <;> rfl
  | broadcast token event message clients =>
      simp only [process, foldl_writeTo, writeTo_eq]

theorem process_egressMap (room : ℕ → ℕ) (e : Egress) (decree : Decree) :
    (e.process room decree).egressMap =
      match decree with
      | .welcome token => e.egressMap.insert token e.accepted
      | .goodbye token => e.egressMap.erase token
      | _ => e.egressMap := by
  have hmap := congrArg Prod.fst (e.process_map room decree)
  cases decree <;> exact hmap

theorem process_accepted (room : ℕ → ℕ) (e : Egress) (decree : Decree) :
    (e.process room decree).accepted =
      match decree with
      | .welcome _ => e.accepted + 1
      | _ => e.accepted := by
  have hmap := congrArg Prod.snd (e.process_map room decree)
  cases decree <;> exact hmap

/-! ### What a connection has been sent -/

def on (e : Egress) (stream : Stream) : List Write :=
  e.log.filter fun w => decide (w.stream = stream)

/-- The bytes on the wire of a connection. -/
def sentOn (e : Egress) (stream : Stream) : Bytes := (e.on stream).flatMap Write.onWire

end Egress

end Heaven
