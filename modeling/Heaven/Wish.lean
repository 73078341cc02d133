import Heaven.Lib.Loops
import Heaven.Util

/-! # Reading requests

`wish.rs`: the buffer of a connection (`Virtue`), the loop that cuts requests out of it (`wish`),
and repeated calls of `wish` on one connection (`calls`).

* The socket is the list of what its reads meet, `TcpStream`.  Bytes that arrive together are
  handed out in pieces when they do not fit into the free room of the buffer.
* Index arithmetic is that of `usize`, in both builds: `dev` panics when an addition or a
  subtraction overflows, `release` wraps.  A slice or an index out of range panics in both.
* `Pilgrim.granted` lists the terms passed to `grant::grant`, in order.
* An error ends the connection and its state is dropped, so the state that is returned with an
  error is the one before the operation that failed. -/

namespace Heaven

open Loops (Jump)

/-! ### The socket -/

/-- What a read of the socket meets. -/
inductive Arrival where
  /-- Bytes that arrive together; there is at least one. -/
  | data (first : UInt8) (rest : Bytes)
  | wouldBlock
  /-- The end of the input: `Ok(0)`. -/
  | closed
  /-- Any other error. -/
  | failed
deriving DecidableEq

abbrev TcpStream := List Arrival

inductive ReadResult where
  | ok (bytes : Bytes)
  | wouldBlock
  | failed
deriving DecidableEq

namespace TcpStream

/-- `stream.read(buffer)`, for a buffer of `room` bytes. -/
def read (room : ℕ) : TcpStream → ReadResult × TcpStream
  | [] => (.wouldBlock, [])
  | .data first rest :: later =>
      match (first :: rest).drop room with
      | [] => (.ok (first :: rest), later)
      | next :: rest' => (.ok ((first :: rest).take room), .data next rest' :: later)
  | .wouldBlock :: later => (.wouldBlock, later)
  | .closed :: later => (.ok [], later)
  | .failed :: later => (.failed, later)

/-- The bytes that are still to be read. -/
def payload : TcpStream → Bytes
  | [] => []
  | .data first rest :: later => first :: rest ++ payload later
  | _ :: later => payload later

/-- The input neither ends nor fails. -/
def Open (stream : TcpStream) : Prop := ∀ arrival ∈ stream, arrival ≠ .closed ∧ arrival ≠ .failed

instance (stream : TcpStream) : Decidable stream.Open :=
  inferInstanceAs (Decidable (∀ arrival ∈ stream, _))

end TcpStream

/-! ### Indices and slices -/

/-- The two build profiles; they differ in their overflow checks. -/
inductive Build where
  | dev | release
deriving DecidableEq

def addUsize (build : Build) (a b : ℕ) : Except Panic ℕ :=
  if a + b < 2 ^ 64 then .ok (a + b)
  else
    match build with
    | .dev => .error .addOverflow
    | .release => .ok (wrapU64 (a + b))

def subUsize (build : Build) (a b : ℕ) : Except Panic ℕ :=
  if b ≤ a then .ok (a - b)
  else
    match build with
    | .dev => .error .subOverflow
    | .release => .ok (wrapU64 (a + 2 ^ 64 - b))

/-- `&bytes[start..stop]`. -/
def slice (bytes : Bytes) (start stop : ℕ) : Except Panic Bytes :=
  if start ≤ stop ∧ stop ≤ bytes.length then .ok ((bytes.take stop).drop start)
  else .error .rangeOutOfBounds

/-- `bytes[i]`. -/
def index (bytes : Bytes) (i : ℕ) : Except Panic UInt8 :=
  match bytes[i]? with
  | some b => .ok b
  | none => .error .indexOutOfBounds

/-- `bytes.copy_within(start..stop, dest)`. -/
def copyWithin (bytes : Bytes) (start stop dest : ℕ) : Except Panic Bytes := do
  let moved ← slice bytes start stop
  if dest ≤ bytes.length - moved.length then
    return bytes.take dest ++ moved ++ bytes.drop (dest + moved.length)
  else throw .rangeOutOfBounds

/-- `bytes.resize(size, 0)`. -/
def resize (bytes : Bytes) (size : ℕ) : Bytes :=
  bytes.take size ++ List.replicate (size - bytes.length) 0

/-! ### The buffer -/

inductive Phase where
  | idle
  | awaitingTermCount
  | graspingMarker
  | awaitingBulkStringLength
  | awaitingBulkString (len : ℕ)
deriving DecidableEq

structure Virtue where
  backlog : Bytes
  readIdx : ℕ
  writeIdx : ℕ
  terms : List Bytes
  expectedTerms : ℕ
  phase : Phase
deriving DecidableEq

namespace Virtue

def new : Virtue where
  backlog := List.replicate 4096 0
  readIdx := 0
  writeIdx := 0
  terms := []
  expectedTerms := 0
  phase := .idle

def compact (build : Build) (virtue : Virtue) : Except Panic Virtue :=
  if virtue.readIdx > 0 then do
    let len ← subUsize build virtue.writeIdx virtue.readIdx
    let backlog ← copyWithin virtue.backlog virtue.readIdx virtue.writeIdx 0
    return { virtue with backlog, readIdx := 0, writeIdx := len }
  else return virtue

/-- The first half of `potentially_resize_and_read`: at least 1024 free bytes, or the error. -/
def potentiallyResize (build : Build) (virtue : Virtue) : Except Panic (Except Sin Virtue) := do
  if virtue.writeIdx > (← subUsize build virtue.backlog.length 1024) then
    let virtue ← virtue.compact build
    if virtue.writeIdx > (← subUsize build virtue.backlog.length 1024) then
      -- the length of a `Vec` is below `2 ^ 63`, so the product cannot overflow
      let newSize := virtue.backlog.length * 2
      if newSize > 64 * 1024 * 1024 then return .error .blasphemy
      else return .ok { virtue with backlog := resize virtue.backlog newSize }
    else return .ok virtue
  else return .ok virtue

/-- `true` when the read would block. -/
def potentiallyResizeAndRead (build : Build) (virtue : Virtue) (stream : TcpStream) :
    Except Panic (Except Sin (Virtue × TcpStream × Bool)) := do
  match ← virtue.potentiallyResize build with
  | .error sin => return .error sin
  | .ok virtue =>
      let room ← slice virtue.backlog virtue.writeIdx virtue.backlog.length
      match stream.read room.length with
      | (.ok [], _) => return .error .disconnected
      | (.ok bytes, stream) =>
          let backlog := virtue.backlog.take virtue.writeIdx ++ bytes ++
            virtue.backlog.drop (virtue.writeIdx + bytes.length)
          let writeIdx ← addUsize build virtue.writeIdx bytes.length
          return .ok ({ virtue with backlog, writeIdx }, stream, false)
      | (.wouldBlock, stream) => return .ok (virtue, stream, true)
      | (.failed, _) => return .error .disconnected

end Virtue

/-! ### The loop -/

/-- What `wish` hands to `grant`: at least one term. -/
abbrev Request := { terms : List Bytes // terms ≠ [] }

/-- The state of the loop of `wish`. -/
structure Worker where
  virtue : Virtue
  stream : TcpStream
  granted : List Request
deriving DecidableEq

/-- What `wish` returns when it leaves its loop. -/
abbrev WishJump := Jump (Except Sin Unit)

/-- `if virtue.potentially_resize_and_read(..)? { return Ok(()); }`, and then the loop goes on. -/
def readMore (build : Build) (worker : Worker) : Except Panic (Worker × WishJump) := do
  match ← worker.virtue.potentiallyResizeAndRead build worker.stream with
  | .error sin => return (worker, .leave (.error sin))
  | .ok (virtue, stream, true) => return ({ worker with virtue, stream }, .leave (.ok ()))
  | .ok (virtue, stream, false) => return ({ worker with virtue, stream }, .again)

namespace Phase

/-! The branches of the loop, for the bytes `activeWindow` that are not yet consumed. -/

def onIdle (build : Build) (worker : Worker) (first : UInt8) :
    Except Panic (Worker × WishJump) := do
  let virtue := worker.virtue
  if first = 42 then
    let readIdx ← addUsize build virtue.readIdx 1
    return ({ worker with virtue := { virtue with phase := .awaitingTermCount, readIdx } }, .again)
  else return (worker, .leave (.error .blasphemy))

/-- A line with a number; `set` puts the number to use. -/
def onNumber (build : Build) (worker : Worker) (activeWindow : Bytes)
    (set : Virtue → ℕ → Virtue) : Except Panic (Worker × WishJump) := do
  match findCrlf activeWindow with
  | some i =>
      match bytesToUsize (← slice activeWindow 0 i) with
      | .error sin => return (worker, .leave (.error sin))
      | .ok number =>
          let virtue := set worker.virtue number
          let readIdx ← addUsize build virtue.readIdx (← addUsize build i 2)
          return ({ worker with virtue := { virtue with readIdx } }, .again)
  | none => readMore build worker

def onAwaitingTermCount (build : Build) (worker : Worker) (activeWindow : Bytes) :
    Except Panic (Worker × WishJump) :=
  onNumber build worker activeWindow fun virtue expectedTerms =>
    { virtue with
      expectedTerms, phase := if expectedTerms = 0 then .idle else .graspingMarker }

def onAwaitingBulkStringLength (build : Build) (worker : Worker) (activeWindow : Bytes) :
    Except Panic (Worker × WishJump) :=
  onNumber build worker activeWindow fun virtue len =>
    { virtue with phase := .awaitingBulkString len }

/-- A byte that is not the marker is skipped, and more is read. -/
def onGraspingMarker (build : Build) (worker : Worker) (first : UInt8) :
    Except Panic (Worker × WishJump) := do
  let virtue := worker.virtue
  let readIdx ← addUsize build virtue.readIdx 1
  if first = 36 then
    return ({ worker with virtue :=
      { virtue with phase := .awaitingBulkStringLength, readIdx } }, .again)
  else readMore build { worker with virtue := { virtue with readIdx } }

/-- `active_window[len] != b'\r' || active_window[len + 1] != b'\n'`. -/
def lacksCrlf (build : Build) (activeWindow : Bytes) (len : ℕ) : Except Panic Bool := do
  if (← index activeWindow len) ≠ 13 then return true
  else return decide ((← index activeWindow (← addUsize build len 1)) ≠ 10)

def onAwaitingBulkString (build : Build) (worker : Worker) (activeWindow : Bytes) (len : ℕ) :
    Except Panic (Worker × WishJump) := do
  let virtue := worker.virtue
  if activeWindow.length ≥ (← addUsize build len 2) then
    if ← lacksCrlf build activeWindow len then return (worker, .leave (.error .blasphemy))
    else
      let terms := virtue.terms ++ [← slice activeWindow 0 len]
      let readIdx ← addUsize build virtue.readIdx (← addUsize build len 2)
      if terms.length = virtue.expectedTerms then
        return ({ worker with
          virtue := { virtue with terms := [], readIdx, phase := .idle }
          granted := worker.granted ++ [⟨terms, List.append_ne_nil_of_right_ne_nil _ nofun⟩] },
          .again)
      else
        return ({ worker with virtue := { virtue with terms, readIdx, phase := .graspingMarker } },
          .again)
  else readMore build worker

end Phase

/-- One pass of the loop. -/
def pass (build : Build) (worker : Worker) : Except Panic (Worker × WishJump) := do
  let virtue := worker.virtue
  match ← slice virtue.backlog virtue.readIdx virtue.writeIdx with
  | [] => return (worker, .leave (.ok ()))
  | first :: rest =>
      match virtue.phase with
      | .idle => Phase.onIdle build worker first
      | .awaitingTermCount => Phase.onAwaitingTermCount build worker (first :: rest)
      | .graspingMarker => Phase.onGraspingMarker build worker first
      | .awaitingBulkStringLength => Phase.onAwaitingBulkStringLength build worker (first :: rest)
      | .awaitingBulkString len => Phase.onAwaitingBulkString build worker (first :: rest) len

/-! ### Calls -/

/-- A connection between two calls of `wish`. -/
structure Pilgrim where
  stream : TcpStream
  virtue : Option Virtue
  granted : List Request
deriving DecidableEq

namespace Pilgrim

/-- A connection as the server accepts it. -/
def new (stream : TcpStream) : Pilgrim := ⟨stream, none, []⟩

/-- `pilgrim.virtue.get_or_insert_with(Virtue::new)`. -/
def worker (pilgrim : Pilgrim) : Worker :=
  ⟨pilgrim.virtue.getD .new, pilgrim.stream, pilgrim.granted⟩

end Pilgrim

namespace Worker

def pilgrim (worker : Worker) : Pilgrim := ⟨worker.stream, some worker.virtue, worker.granted⟩

/-- A pass of the loop reads a byte or consumes one. -/
def measure (worker : Worker) : ℕ :=
  2 * worker.stream.payload.length + (worker.virtue.writeIdx - worker.virtue.readIdx)

/-- The loop of `wish`, with enough fuel. -/
def loop (build : Build) (worker : Worker) : Option (Except Panic (Worker × Except Sin Unit)) :=
  Loops.run (pass build) (worker.measure + 1) worker

end Worker

/-- A call of `wish`; `none` stands for a loop that does not end. -/
def wish (build : Build) (pilgrim : Pilgrim) :
    Option (Except Panic (Pilgrim × Except Sin Unit)) :=
  match readMore build pilgrim.worker with
  | .error panic => some (.error panic)
  | .ok (worker, .leave result) => some (.ok (worker.pilgrim, result))
  | .ok (worker, .again) =>
      (worker.loop build).map fun out => out.map fun (worker, result) => (worker.pilgrim, result)

/-- The state after a number of calls.  A connection is not called again after an error. -/
def calls (build : Build) (pilgrim : Pilgrim) :
    ℕ → Option (Except Panic (Pilgrim × Except Sin Unit))
  | 0 => some (.ok (pilgrim, .ok ()))
  | n + 1 =>
      match calls build pilgrim n with
      | some (.ok (pilgrim, .ok ())) => wish build pilgrim
      | out => out

end Heaven
