import Heaven.Grant
import Heaven.Lib.Runs
import Heaven.Wish

/-! # The server

`server.rs`, `choir.rs` and the threads they start: the server loop with its `ingress_map`, the
pool of angels that sing songs (calls of `wish`) from one queue, the channel on which a song
returns its pilgrim, the temple behind the channel of wishes, and egress behind the channel of
decrees.  Channels are FIFO queues.  Any party may take a step at any time: what the server loop
does in one turn comes here as single actions in any order, a song goes on by one pass of the loop
of `wish` or by one message at a time, and egress may report any connection to the server.

* `build` is the build profile of the worker: the parser and the handlers panic in `dev` where an
  addition overflows.  The arithmetic of the temple is that of `release`.
* `streams` gives the connection of each token its input.
* The socket of a pilgrim is ready whenever the server is told so, whether or not it has input.
* A step is an error when the party has nothing to do, or when it ends the process. -/

namespace Heaven

open Decimal (ascii)
open Runs

/-! ### Songs -/

/-- Where a song is: in front of the first read of `wish`, in its loop, or behind its end. -/
inductive Stage where
  | entry (pilgrim : Pilgrim)
  | loop (worker : Worker)
  | exit (pilgrim : Pilgrim) (result : Except Sin Unit)

/-- A song that an angel is singing. -/
structure Song where
  token : Token
  stage : Stage
  /-- The messages of the last request that are still to be sent. -/
  outbox : List Emission

inductive Angel where
  | idle
  | singing (song : Song)
  /-- The thread has panicked, and its pilgrim is lost. -/
  | gone

/-- Where a song is after a step of `wish`. -/
def WishJump.stage (worker : Worker) : WishJump → Stage
  | .again => .loop worker
  | .leave result => .exit worker.pilgrim result

/-- The messages for the requests, granted at one time. -/
def emissionsFor (token : Token) (clock : SystemTime) (requests : List Request) : List Emission :=
  requests.flatMap fun ⟨terms, h⟩ => grant terms h clock token

/-- The handler of the request panics on `now + expiry`, which only a build with overflow checks
does.  An `u64` is as wide as an `usize`. -/
def Request.panics (build : Build) (clock : SystemTime) : Request → Bool := fun ⟨terms, h⟩ =>
  (Grant.expiryOf terms h).any fun expiry => !(addUsize build clock.unixSecs expiry).isOk

/-- A song goes on inside `wish`: the first read, or a pass of the loop. -/
def Song.advance (build : Build) (clock : SystemTime) (song : Song) : Except Panic Song :=
  match song.stage with
  | .entry pilgrim =>
      (readMore build pilgrim.worker).map fun (worker, jump) =>
        { song with stage := jump.stage worker }
  | .loop worker =>
      match pass build worker with
      | .ok (worker', jump) =>
          let requests := worker'.granted.drop worker.granted.length
          -- before the handler has sent anything
          if requests.any (Request.panics build clock) then .error .addOverflow
          else
            .ok { song with
              stage := jump.stage worker', outbox := emissionsFor song.token clock requests }
      | .error panic => .error panic
  | .exit _ _ => .ok song

/-! ### The server and its threads -/

structure Server where
  ingressMap : Dict Token Pilgrim
  /-- `pilgrim_counter`, the token of the next connection. -/
  pilgrimCounter : Token
  /-- The songs that no angel has taken yet. -/
  songs : List (Token × Pilgrim)
  angels : List Angel
  /-- The channel on which songs return their pilgrims. -/
  returned : List (Token × Pilgrim)
  wishes : List Wish
  /-- `none` after a panic of the temple's thread. -/
  temple : Option Temple
  /-- The wishes the temple has taken, with what it has sent to egress. -/
  executed : List (Wish × Except Panic Decree)
  /-- All decrees that have been sent to egress. -/
  decrees : List Decree

inductive Server.Action where
  /-- The server loop takes a pilgrim from the channel. -/
  | collect
  /-- The server loop takes a token from egress, whose write to the client has failed. -/
  | notice (token : Token)
  /-- The server loop accepts a connection. -/
  | accept
  /-- The server loop finds a token among its events. -/
  | ready (token : Token)
  /-- An angel takes a song. -/
  | pick (i : ℕ)
  /-- An angel goes on with its song. -/
  | sing (i : ℕ) (clock : SystemTime)
  /-- The temple takes a wish. -/
  | turn

namespace Server

/-- Token 0 is the listener's; the temple may have loaded a snapshot. -/
def start (ioThreads : ℕ) (soul : Soul) (config : Config) : Server where
  ingressMap := Dict.empty
  pilgrimCounter := 1
  songs := []
  angels := List.replicate ioThreads .idle
  returned := []
  wishes := []
  temple := some { Temple.worship config with soul }
  executed := []
  decrees := []

/-- The token has been given to a connection. -/
def Known (s : Server) (token : Token) : Prop := 1 ≤ token ∧ token < s.pilgrimCounter

/-- A message goes into the channel of its receiver. -/
def post (s : Server) : Emission → Server
  | .toTemple wish => { s with wishes := s.wishes ++ [wish] }
  | .toEgress decree => { s with decrees := s.decrees ++ [decree] }

def setAngel (s : Server) (i : ℕ) (angel : Angel) : Server :=
  { s with angels := s.angels.set i angel }

/-- An angel goes on: it sends the next message, returns the pilgrim or says goodbye at the end of
`wish`, or goes on inside `wish`. -/
def sing (build : Build) (clock : SystemTime) (s : Server) (i : ℕ) (song : Song) : Server :=
  match song.outbox, song.stage with
  | emission :: outbox, _ => (s.setAngel i (.singing { song with outbox })).post emission
  | [], .exit pilgrim (.ok ()) =>
      { s.setAngel i .idle with returned := s.returned ++ [(song.token, pilgrim)] }
  | [], .exit _ (.error _) => (s.setAngel i .idle).post (.toEgress (.goodbye song.token))
  | [], _ =>
      match song.advance build clock with
      | .ok song => s.setAngel i (.singing song)
      | .error _ => s.setAngel i .gone

/-- The temple takes a wish; a panic is the end of its thread. -/
def serve (s : Server) (temple : Temple) (wish : Wish) (wishes : List Wish) : Server :=
  match temple.turn wish with
  | (temple, .ok decree) =>
      { s with
        wishes
        temple := some temple
        executed := s.executed ++ [(wish, .ok decree)]
        decrees := s.decrees ++ [decree] }
  | (_, .error panic) =>
      { s with wishes, temple := none, executed := s.executed ++ [(wish, .error panic)] }

/-- A step of a party. -/
def step (build : Build) (streams : Token → TcpStream) (s : Server) : Action → Except Unit Server
  | .collect =>
      match s.returned with
      | (token, pilgrim) :: returned =>
          .ok { s with returned, ingressMap := s.ingressMap.insert token pilgrim }
      | [] => .error ()
  | .notice token =>
      -- the listener's token is the signal to exit
      if token = 0 then .error () else .ok { s with ingressMap := s.ingressMap.erase token }
  | .accept =>
      .ok { s with
        ingressMap := s.ingressMap.insert s.pilgrimCounter (.new (streams s.pilgrimCounter))
        pilgrimCounter := s.pilgrimCounter + 1
        decrees := s.decrees ++ [.welcome s.pilgrimCounter] }
  | .ready token =>
      match s.ingressMap.get? token with
      | some pilgrim =>
          -- without a receiver the send panics, and the process ends
          if ∀ angel ∈ s.angels, angel matches .gone then .error ()
          else
            .ok { s with
              ingressMap := s.ingressMap.erase token, songs := s.songs ++ [(token, pilgrim)] }
      | none => .ok s
  | .pick i =>
      match s.angels[i]?, s.songs with
      | some .idle, (token, pilgrim) :: songs =>
          .ok { s with songs, angels := s.angels.set i (.singing ⟨token, .entry pilgrim, []⟩) }
      | _, _ => .error ()
  | .sing i clock =>
      match s.angels[i]? with
      | some (.singing song) => .ok (s.sing build clock i song)
      | _ => .error ()
  | .turn =>
      match s.temple, s.wishes with
      | some temple, wish :: wishes => .ok (s.serve temple wish wishes)
      | _, _ => .error ()

end Server
end Heaven
