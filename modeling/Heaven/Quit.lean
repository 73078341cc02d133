import Heaven.Capacity
import Heaven.Receiving
import Heaven.Server
import Heaven.SubscriberMode
import Mathlib.Data.List.TakeWhile

/-! # QUIT

The handler of QUIT answers OK and does no more: no goodbye goes to egress, and `wish` takes the
next request out of its buffer.  So what a client sends behind a QUIT is executed, and its
connection stays open, unless the QUIT is never reached because a request before it is too large
for the buffer (`quitEnds_iff`). -/

namespace Heaven

open Decimal (ascii)
open Grant

def IsQuit : Request → Prop := fun ⟨terms, h⟩ => IsCommand (ascii "QUIT") terms h

instance : DecidablePred IsQuit := fun ⟨terms, h⟩ =>
  inferInstanceAs (Decidable (IsCommand (ascii "QUIT") terms h))

/-- The connection is closed behind the request: a goodbye is among its messages, or the song says
goodbye because `wish` ends with an error. -/
def Closes (request : Request) (result : Except Sin Unit) : Prop :=
  (∀ token clock, .toEgress (.goodbye token) ∈ emissionsFor token clock [request]) ∨
    result ≠ .ok ()

/-- After every call on the connection: nothing is granted behind a QUIT, and the connection is
closed. -/
def QuitEnds (build : Build) (stream : TcpStream) : Prop :=
  ∀ n pilgrim result, calls build (.new stream) n = some (.ok (pilgrim, result)) →
    ∀ before quit after, pilgrim.granted = before ++ quit :: after → IsQuit quit →
      after = [] ∧ Closes quit result

/-! ### What is granted -/

variable (build : Build) {requests : List Request} {stream : TcpStream}

/-- Only the requests of the client are granted. -/
theorem granted_of_calls (hbytes : stream.payload = encodeAll requests) {n : ℕ}
    {pilgrim : Pilgrim} {result : Except Sin Unit}
    (h : calls build (.new stream) n = some (.ok (pilgrim, result))) :
    pilgrim.granted <+: requests := by
  have hnew : ∃ todo, Within requests [] todo (Pilgrim.new stream).worker := by
    refine ⟨requests, within_new ?_⟩
    rw [List.append_nil, hbytes]
  obtain ⟨todo, hwithin⟩ := calls_invariant
    (I := fun worker => ∃ todo, Within requests [] todo worker)
    (fun _ _ _ _ ⟨todo, hworker⟩ hread => ⟨todo, hworker.readMore build hread⟩)
    (fun _ _ _ _ ⟨_, hworker⟩ hpass => hworker.pass build hpass)
    (Pilgrim.wellFormed_new stream) hnew h
  exact hwithin.granted

/-! ### What follows a QUIT -/

/-- The messages of a QUIT are its answer. -/
theorem emissionsFor_quit {request : Request} (h : IsQuit request) (token : Token)
    (clock : SystemTime) : emissionsFor token clock [request] = reply token (.info .ok) := by
  obtain ⟨terms, hterms⟩ := request
  have hgrant := grant_of_isCommand h rfl clock token
  rw [emissionsFor, List.flatMap_singleton]
  exact hgrant

theorem not_closes_quit {request : Request} (h : IsQuit request) : ¬ Closes request (.ok ()) := by
  rintro (hgoodbye | hresult)
  · have hmem := hgoodbye 0 .unixEpoch
    rw [emissionsFor_quit h, reply, List.mem_singleton] at hmem
    cases hmem
  · exact hresult rfl

/-- The first of the requests that can be granted: with the first that is too large the connection
ends. -/
def grantables (requests : List Request) : List Request :=
  requests.takeWhile fun request => decide request.Grantable

theorem grantable_of_mem {request : Request} (h : request ∈ grantables requests) :
    request.Grantable := by
  have hdecided : decide request.Grantable = true :=
    List.mem_takeWhile_imp (p := fun request : Request => decide request.Grantable) h
  exact of_decide_eq_true hdecided

/-- What is granted comes before the first request that is too large. -/
theorem granted_grantables (hbytes : stream.payload = encodeAll requests) {n : ℕ}
    {pilgrim : Pilgrim} {result : Except Sin Unit}
    (h : calls build (.new stream) n = some (.ok (pilgrim, result))) :
    pilgrim.granted <+: grantables requests := by
  obtain ⟨rest, hrequests⟩ := granted_of_calls build hbytes h
  have hall : ∀ request ∈ pilgrim.granted, decide request.Grantable = true := by
    intro request hrequest
    exact decide_eq_true (grantable_of_calls h request hrequest)
  rw [grantables, ← hrequests, List.takeWhile_append_of_pos hall]
  exact List.prefix_append _ _

/-- **QUIT ends a connection, however the bytes are cut, if and only if** none is among the requests
before the first one that is too large for the buffer: then no QUIT is granted.  A QUIT that can
be granted ends nothing. -/
theorem quitEnds_iff :
    (∀ stream : TcpStream, stream.payload = encodeAll requests → QuitEnds build stream) ↔
      ∀ request ∈ grantables requests, ¬ IsQuit request := by
  constructor
  · intro hends request hmem hquit
    -- the pieces in which all of them are granted
    obtain ⟨stream, hpayload, n, pilgrim, hcalls, hgranted⟩ := exists_granted build
      (fun _ h => grantable_of_mem h) (encodeAll (requests.drop (grantables requests).length))
    have hsplit : grantables requests ++ requests.drop (grantables requests).length = requests :=
      (List.prefix_append_drop (List.takeWhile_prefix _)).symm
    rw [← encodeAll_append, hsplit] at hpayload
    obtain ⟨before, after, hbefore⟩ := List.append_of_mem hmem
    have hquits := hends stream hpayload n pilgrim _ hcalls before request after
      (hgranted.trans hbefore) hquit
    exact not_closes_quit hquit hquits.2
  · intro hnone stream hbytes n pilgrim result hcalls before quit after hgranted hquit
    have hmem : quit ∈ pilgrim.granted := by
      rw [hgranted]
      exact List.mem_append_right _ List.mem_cons_self
    exact absurd hquit (hnone quit ((granted_grantables build hbytes hcalls).subset hmem))

/-- A SET behind a QUIT, in one read. -/
def quitThenSet : List Request :=
  [⟨[ascii "QUIT"], List.cons_ne_nil _ _⟩,
    ⟨[ascii "SET", ascii "k", ascii "v"], List.cons_ne_nil _ _⟩]

/-- It is granted. -/
theorem set_executed_after_quit :
    ¬ ∀ (build : Build) (requests : List Request) (stream : TcpStream), stream.Open →
      stream.payload = encodeAll requests → QuitEnds build stream := by
  intro h
  let stream : TcpStream :=
    [.data 42 (ascii "1\r\n$4\r\nQUIT\r\n*3\r\n$3\r\nSET\r\n$1\r\nk\r\n$1\r\nv\r\n")]
  have hends := h .release quitThenSet stream (by decide) (by decide)
  obtain ⟨pilgrim, result, hcalls, hgranted⟩ := exists_calls
    (by decide +kernel : (calls .release (.new stream) 1).map (·.map fun out =>
      decide (out.1.granted = quitThenSet)) = some (.ok true))
  have hquit := hends 1 pilgrim result hcalls [] ⟨[ascii "QUIT"], List.cons_ne_nil _ _⟩
    [⟨[ascii "SET", ascii "k", ascii "v"], List.cons_ne_nil _ _⟩] (of_decide_eq_true hgranted)
    (by decide)
  exact absurd hquit.1 (List.cons_ne_nil _ _)

end Heaven
