import Heaven.Data
import Heaven.Lib.Resp

/-! # What egress writes

`egress/send.rs`, and the two frames that `egress.rs` writes for a PUBLISH.  `send` is the content
of the buffer that is written for a response; `messageFrame` goes to every subscriber and
`countFrame` to the publisher.  What egress writes at once is a `Packet`.

A response denotes RESP2 replies (`Response.replies`): mostly one, and for confirmations one per
channel.  Apart from the table of COMMAND, the bytes of a packet are the encoding of its replies
(`Packet.bytes_eq`), so that whoever reads the connection gets exactly these replies
(`packets_read`). -/

namespace Heaven

open Decimal (ascii print printInt)

/-! ### The bytes -/

/-- The constant answer to COMMAND. -/
def commandTable : Bytes :=
  ["*37\r\n",
    "*6\r\n$3\r\nset\r\n:-3\r\n*2\r\n+write\r\n+denyoom\r\n:1\r\n:1\r\n:1\r\n",
    "*6\r\n$3\r\nget\r\n:2\r\n*2\r\n+readonly\r\n+fast\r\n:1\r\n:1\r\n:1\r\n",
    "*6\r\n$6\r\nappend\r\n:3\r\n*2\r\n+write\r\n+denyoom\r\n:1\r\n:1\r\n:1\r\n",
    "*6\r\n$4\r\nincr\r\n:2\r\n*2\r\n+write\r\n+denyoom\r\n:1\r\n:1\r\n:1\r\n",
    "*6\r\n$4\r\ndecr\r\n:2\r\n*2\r\n+write\r\n+denyoom\r\n:1\r\n:1\r\n:1\r\n",
    "*6\r\n$6\r\nstrlen\r\n:2\r\n*2\r\n+readonly\r\n+fast\r\n:1\r\n:1\r\n:1\r\n",
    "*6\r\n$5\r\nlpush\r\n:-3\r\n*2\r\n+write\r\n+denyoom\r\n:1\r\n:1\r\n:1\r\n",
    "*6\r\n$5\r\nrpush\r\n:-3\r\n*2\r\n+write\r\n+denyoom\r\n:1\r\n:1\r\n:1\r\n",
    "*6\r\n$4\r\nlpop\r\n:-2\r\n*2\r\n+write\r\n+fast\r\n:1\r\n:1\r\n:1\r\n",
    "*6\r\n$4\r\nrpop\r\n:-2\r\n*2\r\n+write\r\n+fast\r\n:1\r\n:1\r\n:1\r\n",
    "*6\r\n$6\r\nlrange\r\n:4\r\n*2\r\n+readonly\r\n+fast\r\n:1\r\n:1\r\n:1\r\n",
    "*6\r\n$4\r\nlrem\r\n:4\r\n*2\r\n+write\r\n+fast\r\n:1\r\n:1\r\n:1\r\n",
    "*6\r\n$6\r\nlindex\r\n:3\r\n*2\r\n+readonly\r\n+fast\r\n:1\r\n:1\r\n:1\r\n",
    "*6\r\n$4\r\nllen\r\n:2\r\n*2\r\n+readonly\r\n+fast\r\n:1\r\n:1\r\n:1\r\n",
    "*6\r\n$4\r\nlset\r\n:4\r\n*2\r\n+write\r\n+denyoom\r\n:1\r\n:1\r\n:1\r\n",
    "*6\r\n$4\r\nhset\r\n:-4\r\n*2\r\n+write\r\n+denyoom\r\n:1\r\n:1\r\n:1\r\n",
    "*6\r\n$5\r\nhmget\r\n:-3\r\n*2\r\n+readonly\r\n+fast\r\n:1\r\n:1\r\n:1\r\n",
    "*6\r\n$4\r\nhget\r\n:3\r\n*2\r\n+readonly\r\n+fast\r\n:1\r\n:1\r\n:1\r\n",
    "*6\r\n$4\r\nhdel\r\n:-3\r\n*2\r\n+write\r\n+fast\r\n:1\r\n:1\r\n:1\r\n",
    "*6\r\n$7\r\nhexists\r\n:3\r\n*2\r\n+readonly\r\n+fast\r\n:1\r\n:1\r\n:1\r\n",
    "*6\r\n$4\r\nhlen\r\n:2\r\n*2\r\n+readonly\r\n+fast\r\n:1\r\n:1\r\n:1\r\n",
    "*6\r\n$7\r\nhgetall\r\n:2\r\n*2\r\n+readonly\r\n+fast\r\n:1\r\n:1\r\n:1\r\n",
    "*6\r\n$4\r\nsadd\r\n:-3\r\n*2\r\n+write\r\n+denyoom\r\n:1\r\n:1\r\n:1\r\n",
    "*6\r\n$4\r\nsrem\r\n:-3\r\n*2\r\n+write\r\n+fast\r\n:1\r\n:1\r\n:1\r\n",
    "*6\r\n$9\r\nsismember\r\n:3\r\n*2\r\n+readonly\r\n+fast\r\n:1\r\n:1\r\n:1\r\n",
    "*6\r\n$8\r\nsmembers\r\n:2\r\n*2\r\n+readonly\r\n+sort_for_script\r\n:1\r\n:1\r\n:1\r\n",
    "*6\r\n$6\r\nexists\r\n:-2\r\n*2\r\n+readonly\r\n+fast\r\n:1\r\n-1\r\n:1\r\n",
    "*6\r\n$3\r\ndel\r\n:-2\r\n*2\r\n+write\r\n+fast\r\n:1\r\n-1\r\n:1\r\n",
    "*6\r\n$3\r\nttl\r\n:2\r\n*2\r\n+readonly\r\n+fast\r\n:1\r\n:1\r\n:1\r\n",
    "*6\r\n$6\r\nexpire\r\n:3\r\n*2\r\n+write\r\n+fast\r\n:1\r\n:1\r\n:1\r\n",
    "*6\r\n$7\r\npublish\r\n:3\r\n*3\r\n+pubsub\r\n+loading\r\n+stale\r\n:0\r\n:0\r\n:0\r\n",
    "*6\r\n$4\r\nping\r\n:-1\r\n*2\r\n+stale\r\n+fast\r\n:0\r\n:0\r\n:0\r\n",
    "*6\r\n$9\r\nsubscribe\r\n:-2\r\n*3\r\n+pubsub\r\n+loading\r\n+stale\r\n:0\r\n:0\r\n:0\r\n",
    "*6\r\n$11\r\nunsubscribe\r\n:-1\r\n*3\r\n+pubsub\r\n+loading\r\n+stale\r\n:0\r\n:0\r\n:0\r\n",
    "*6\r\n$4\r\nmset\r\n:-3\r\n*2\r\n+write\r\n+denyoom\r\n:1\r\n:1\r\n:1\r\n",
    "*6\r\n$4\r\nmget\r\n:-2\r\n*2\r\n+readonly\r\n+fast\r\n:1\r\n:1\r\n:1\r\n",
    "*6\r\n$6\r\nincrby\r\n:3\r\n*2\r\n+write\r\n+denyoom\r\n:1\r\n:1\r\n:1\r\n"].flatMap ascii

/-- The name of the command in an arity error. -/
def Command.name : Command → String
  | .ping => "ping"
  | .set => "set"
  | .get => "get"
  | .ex => "ex"
  | .incr => "incr"
  | .incrby => "incrby"
  | .decr => "decr"
  | .append => "append"
  | .strlen => "strlen"
  | .exists => "exists"
  | .del => "del"
  | .hset => "hset"
  | .hget => "hget"
  | .hmget => "hmget"
  | .hdel => "hdel"
  | .hexists => "hexists"
  | .hlen => "hlen"
  | .lpush => "lpush"
  | .lpop => "lpop"
  | .rpush => "rpush"
  | .rpop => "rpop"
  | .llen => "llen"
  | .lrange => "lrange"
  | .lindex => "lindex"
  | .lset => "lset"
  | .lrem => "lrem"
  | .expire => "expire"
  | .ttl => "ttl"
  | .subscribe => "subscribe"
  | .publish => "publish"
  | .mset => "mset"
  | .mget => "mget"
  | .sadd => "sadd"
  | .srem => "srem"
  | .sismember => "sismember"
  | .hgetall => "hgetall"
  | .smembers => "smembers"
  | .config => "config"
  | .command => "command"

/-- The error between its marker and its CRLF. -/
def Sacrilege.text : Sacrilege → Bytes
  | .unknownCommand => ascii "ERR unknown command"
  | .incorrectUsage cmd =>
      match cmd with
      | .incr | .decr | .incrby => ascii "ERR value is not an integer or out of range"
      | .lset | .lindex => ascii "ERR index out of range"
      | .config => ascii "ERR Unknown Command after 'config'"
      | _ => ascii "WRONGTYPE Operation against a key holding the wrong kind of value"
  | .incorrectNumberOfArguments cmd =>
      ascii "ERR wrong number of arguments for '" ++ ascii cmd.name ++ ascii "' command"
  | .subscriberOnlyMode =>
      ascii "ERR only SUBSCRIBE / UNSUBSCRIBE / PING / QUIT allowed in this context"

def writeBulkString : Option Bytes → Bytes
  | some value => ascii "$" ++ print value.length ++ ascii "\r\n" ++ value ++ ascii "\r\n"
  | none => ascii "$-1\r\n"

/-- The confirmation of a channel; `head` is everything in front of the length of its name. -/
def writeChannel (head : Bytes) (channel : Bytes × ℕ) : Bytes :=
  head ++ print channel.1.length ++ ascii "\r\n" ++ channel.1 ++ ascii "\r\n:" ++
    print channel.2 ++ ascii "\r\n"

/-- The buffer that is written for a response. -/
def send : Response → Bytes
  | .info .ok => ascii "+OK\r\n"
  | .info .pong => ascii "+PONG\r\n"
  | .info .command => commandTable
  | .bulkString bulkString => writeBulkString bulkString
  | .bulkStringArray (some bulkStringArray) =>
      ascii "*" ++ print bulkStringArray.length ++ ascii "\r\n" ++
        bulkStringArray.flatMap writeBulkString
  | .bulkStringArray none => ascii "$-1\r\n"
  | .amount amount => ascii ":" ++ print amount ++ ascii "\r\n"
  | .number number => ascii ":" ++ printInt number ++ ascii "\r\n"
  | .length length => ascii ":" ++ print length ++ ascii "\r\n"
  | .subscribedChannels subscribedChannels =>
      subscribedChannels.flatMap (writeChannel (ascii "*3\r\n$9\r\nsubscribe\r\n$"))
  | .unsubscribedChannels (some unsubscribedChannels) =>
      unsubscribedChannels.flatMap (writeChannel (ascii "*3\r\n$11\r\nunsubscribe\r\n$"))
  | .unsubscribedChannels none => ascii "*3\r\n$11\r\nunsubscribe\r\n$-1\r\n:0\r\n"
  | .error sacrilege => ascii "-" ++ sacrilege.text ++ ascii "\r\n"

/-- What a PUBLISH writes to each subscriber. -/
def messageFrame (event message : Bytes) : Bytes :=
  ascii "*3\r\n$7\r\nmessage\r\n$" ++ print event.length ++ ascii "\r\n" ++ event ++
    ascii "\r\n$" ++ print message.length ++ ascii "\r\n" ++ message ++ ascii "\r\n"

/-- What a PUBLISH writes to the publisher. -/
def countFrame (clientsLen : ℕ) : Bytes := ascii ":" ++ print clientsLen ++ ascii "\r\n"

/-- What egress writes at once. -/
inductive Packet where
  | reply (response : Response)
  | message (event message : Bytes)
  | receivers (count : ℕ)
deriving DecidableEq

def Packet.bytes : Packet → Bytes
  | .reply response => send response
  | .message event text => messageFrame event text
  | .receivers count => countFrame count

/-! ### The meaning -/

def bulkOrNil : Option Bytes → Resp
  | some value => .bulk value
  | none => .nil

/-- A frame of three elements: what happened to which channel, and a count. -/
def channelReply (word : Bytes) (channel : Option Bytes) (count : ℕ) : Resp :=
  .array [.bulk word, bulkOrNil channel, .integer count]

/-- The replies that a response denotes. -/
def Response.replies : Response → List Resp
  | .info .ok => [.simple (ascii "OK")]
  | .info .pong => [.simple (ascii "PONG")]
  | .info .command => []
  | .bulkString value => [bulkOrNil value]
  | .bulkStringArray (some values) => [.array (values.map bulkOrNil)]
  | .bulkStringArray none => [.nil]
  | .amount n => [.integer n]
  | .number i => [.integer i]
  | .length n => [.integer n]
  | .subscribedChannels channels =>
      channels.map fun c => channelReply (ascii "subscribe") (some c.1) c.2
  | .unsubscribedChannels (some channels) =>
      channels.map fun c => channelReply (ascii "unsubscribe") (some c.1) c.2
  | .unsubscribedChannels none => [channelReply (ascii "unsubscribe") none 0]
  | .error sacrilege => [.error sacrilege.text]

def messageReply (event message : Bytes) : Resp :=
  .array [.bulk (ascii "message"), .bulk event, .bulk message]

/-- The replies in a packet; the table of COMMAND is not described. -/
def Packet.replies : Packet → List Resp
  | .reply response => response.replies
  | .message event text => [messageReply event text]
  | .receivers count => [.integer count]

/-- The packet is the table of COMMAND. -/
def Packet.IsTable (p : Packet) : Prop := p = .reply (.info .command)

instance (p : Packet) : Decidable p.IsTable := inferInstanceAs (Decidable (_ = _))

/-! ### The round trip -/

theorem cr_notMem_text (sacrilege : Sacrilege) : 13 ∉ sacrilege.text := by
  cases sacrilege with
  | unknownCommand => decide
  | subscriberOnlyMode => decide
  | incorrectUsage cmd => cases cmd <;> decide
  | incorrectNumberOfArguments cmd =>
      have hname : 13 ∉ ascii cmd.name := by cases cmd <;> decide
      rw [Sacrilege.text, List.mem_append, List.mem_append, not_or, not_or]
      exact ⟨⟨by decide, hname⟩, by decide⟩

theorem writeBulkString_eq (value : Option Bytes) :
    writeBulkString value = (bulkOrNil value).encode := by
  cases value with
  | none => rfl
  | some value =>
      simp only [writeBulkString, bulkOrNil, Resp.encode, List.append_assoc]
      rfl

theorem flatMap_writeBulkString (values : List (Option Bytes)) :
    values.flatMap writeBulkString = Resp.encodeAll (values.map bulkOrNil) := by
  induction values with
  | nil => rfl
  | cons value values ih =>
      rw [List.flatMap_cons, List.map_cons, Resp.encodeAll, ih, writeBulkString_eq]

/-- The head of a confirmation, up to the length of the channel's name. -/
theorem writeChannel_eq {head word : Bytes}
    (h : head = 42 :: (print 3 ++ Resp.crlf ++ (Resp.bulk word).encode ++ [36]))
    (c : Bytes × ℕ) : writeChannel head c = (channelReply word (some c.1) c.2).encode := by
  have hcount : printInt (c.2 : ℤ) = print c.2 := by simp [printInt]
  simp only [writeChannel, channelReply, bulkOrNil, h, Resp.encode, Resp.encodeAll, hcount,
    List.append_assoc, List.cons_append]
  simp only [List.length_cons, List.length_nil, List.append_nil, List.nil_append]
  rfl

theorem flatMap_writeChannel {head word : Bytes}
    (h : head = 42 :: (print 3 ++ Resp.crlf ++ (Resp.bulk word).encode ++ [36]))
    (channels : List (Bytes × ℕ)) :
    channels.flatMap (writeChannel head) =
      Resp.encodeAll (channels.map fun c => channelReply word (some c.1) c.2) := by
  induction channels with
  | nil => rfl
  | cons c channels ih =>
      rw [List.flatMap_cons, List.map_cons, Resp.encodeAll, ih, writeChannel_eq h]

/-- An integer line. -/
theorem write_integer (n : ℕ) :
    ascii ":" ++ print n ++ ascii "\r\n" = Resp.encodeAll [.integer n] := by
  have hprint : printInt (n : ℤ) = print n := by simp [printInt]
  simp only [Resp.encodeAll, Resp.encode, hprint, List.append_nil]
  rfl

theorem send_eq {response : Response} (h : response ≠ .info .command) :
    send response = Resp.encodeAll response.replies := by
  cases response with
  | error sacrilege => simp [send, Response.replies, Resp.encodeAll, Resp.encode]; rfl
  | info info =>
      cases info with
      | ok => rfl
      | pong => rfl
      | command => exact absurd rfl h
  | bulkString value =>
      simp only [send, Response.replies, Resp.encodeAll, List.append_nil, writeBulkString_eq]
  | bulkStringArray values =>
      cases values with
      | none => rfl
      | some values =>
          simp only [send, Response.replies, Resp.encodeAll, Resp.encode, List.append_nil,
            flatMap_writeBulkString, List.length_map]
          rfl
  | amount n => exact write_integer n
  | number i =>
      simp only [send, Response.replies, Resp.encodeAll, Resp.encode, List.append_nil]
      rfl
  | length n => exact write_integer n
  | subscribedChannels channels => exact flatMap_writeChannel (by decide) channels
  | unsubscribedChannels channels =>
      cases channels with
      | none => rfl
      | some channels => exact flatMap_writeChannel (by decide) channels

theorem messageFrame_eq (event text : Bytes) :
    messageFrame event text = (messageReply event text).encode := by
  have hhead : ascii "*3\r\n$7\r\nmessage\r\n$" =
      42 :: (print 3 ++ Resp.crlf ++ (Resp.bulk (ascii "message")).encode ++ [36]) := by decide
  simp only [messageFrame, messageReply, hhead, Resp.encode, Resp.encodeAll, List.append_assoc,
    List.cons_append, List.length_cons, List.length_nil, List.append_nil, List.nil_append]
  rfl

theorem Packet.bytes_eq {p : Packet} (h : ¬ p.IsTable) : p.bytes = Resp.encodeAll p.replies := by
  cases p with
  | reply response =>
      apply send_eq
      rintro rfl
      exact h rfl
  | message event text =>
      simp only [Packet.bytes, Packet.replies, Resp.encodeAll, List.append_nil, messageFrame_eq]
  | receivers count => exact write_integer count

theorem bulkOrNil_wellFormed (value : Option Bytes) : (bulkOrNil value).WellFormed := by
  cases value with
  | none => exact .nil
  | some value => exact .bulk value

theorem wellFormed_three {a b c : Resp} (ha : a.WellFormed) (hb : b.WellFormed)
    (hc : c.WellFormed) : (Resp.array [a, b, c]).WellFormed := by
  apply Resp.WellFormed.array
  rw [List.forall_mem_cons, List.forall_mem_cons, List.forall_mem_singleton]
  exact ⟨ha, hb, hc⟩

theorem channelReply_wellFormed (word : Bytes) (channel : Option Bytes) (count : ℕ) :
    (channelReply word channel count).WellFormed :=
  wellFormed_three (.bulk word) (bulkOrNil_wellFormed channel) (.integer count)

theorem Response.replies_wellFormed (response : Response) :
    ∀ reply ∈ response.replies, reply.WellFormed := by
  have hchannels : ∀ (word : Bytes) (channels : List (Bytes × ℕ)),
      ∀ reply ∈ channels.map fun c => channelReply word (some c.1) c.2, reply.WellFormed := by
    intro word channels reply hreply
    obtain ⟨c, -, rfl⟩ := List.mem_map.mp hreply
    exact channelReply_wellFormed word (some c.1) c.2
  cases response with
  | error sacrilege => exact List.forall_mem_singleton.mpr (.error (cr_notMem_text sacrilege))
  | info info =>
      cases info with
      | ok => exact List.forall_mem_singleton.mpr (.simple (by decide))
      | pong => exact List.forall_mem_singleton.mpr (.simple (by decide))
      | command => exact fun _ h => nomatch h
  | bulkString value => exact List.forall_mem_singleton.mpr (bulkOrNil_wellFormed value)
  | bulkStringArray values =>
      cases values with
      | none => exact List.forall_mem_singleton.mpr .nil
      | some values =>
          refine List.forall_mem_singleton.mpr (.array ?_)
          intro reply hreply
          obtain ⟨value, -, rfl⟩ := List.mem_map.mp hreply
          exact bulkOrNil_wellFormed value
  | amount n => exact List.forall_mem_singleton.mpr (.integer n)
  | number i => exact List.forall_mem_singleton.mpr (.integer i)
  | length n => exact List.forall_mem_singleton.mpr (.integer n)
  | subscribedChannels channels => exact hchannels _ channels
  | unsubscribedChannels channels =>
      cases channels with
      | none => exact List.forall_mem_singleton.mpr (channelReply_wellFormed _ _ _)
      | some channels => exact hchannels _ channels

theorem Packet.replies_wellFormed (p : Packet) : ∀ reply ∈ p.replies, reply.WellFormed := by
  cases p with
  | reply response => exact response.replies_wellFormed
  | message event text =>
      have hmessage : (messageReply event text).WellFormed :=
        wellFormed_three (.bulk (ascii "message")) (.bulk event) (.bulk text)
      exact List.forall_mem_singleton.mpr hmessage
  | receivers count => exact List.forall_mem_singleton.mpr (.integer count)

theorem flatMap_bytes {packets : List Packet} (h : ∀ p ∈ packets, ¬ p.IsTable) :
    packets.flatMap Packet.bytes = Resp.encodeAll (packets.flatMap Packet.replies) := by
  induction packets with
  | nil => rfl
  | cons p packets ih =>
      rw [List.forall_mem_cons] at h
      rw [List.flatMap_cons, List.flatMap_cons, Resp.encodeAll_append, Packet.bytes_eq h.1, ih h.2]

theorem readAll_flatMap {packets : List Packet} (h : ∀ p ∈ packets, ¬ p.IsTable) :
    Resp.readAll (packets.flatMap Packet.bytes) = some (packets.flatMap Packet.replies) := by
  rw [flatMap_bytes h]
  apply Resp.readAll_encodeAll
  intro reply hreply
  obtain ⟨p, -, hp⟩ := List.mem_flatMap.mp hreply
  exact p.replies_wellFormed reply hp

/-- **What is written for a packet is read back as its replies, whatever is written behind it; so a
sequence of packets is read back as the sequence of their replies.** -/
theorem packets_read (packets : List Packet) (h : ∀ p ∈ packets, ¬ p.IsTable) :
    (∀ p ∈ packets, ∀ rest,
      Resp.readMany p.replies.length (p.bytes ++ rest) = some (p.replies, rest)) ∧
      Resp.readAll (packets.flatMap Packet.bytes) = some (packets.flatMap Packet.replies) := by
  refine ⟨?_, readAll_flatMap h⟩
  intro p hp rest
  rw [Packet.bytes_eq (h p hp)]
  exact Resp.readMany_encodeAll p.replies_wellFormed rest

/-- A bulk string that looks like a reply, and a message. -/
theorem packets_read_crlf :
    Resp.readAll ([.reply (.bulkString (some (ascii "a\r\n+OK\r\n"))),
        .message (ascii "e") (ascii "\r\n")].flatMap Packet.bytes) =
      some [.bulk (ascii "a\r\n+OK\r\n"), messageReply (ascii "e") (ascii "\r\n")] :=
  (packets_read [.reply (.bulkString (some (ascii "a\r\n+OK\r\n"))),
    .message (ascii "e") (ascii "\r\n")] (by decide)).2

end Heaven
