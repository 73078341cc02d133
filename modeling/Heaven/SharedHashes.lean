import Heaven.HashFields
import Heaven.Lib.Registers
import Heaven.Objects

/-! # Hashes as registers

The fields of a hash are registers that all clients share (`hash_last_written`): what a client reads
of a field is what has last been written to it, by whichever client, in the order in which the
commands are executed.

Two answers depend on more than the values of the fields, namely on whether there is a hash at the
key.  HSET writes with loops of their own to a fresh hash and to an existing one, and counts
differently; HMGET answers with nil where there is no hash.  HDEL leaves an empty hash behind, so
that there is one from the first HSET on (`isSome_plays`). -/

namespace Heaven

open Decimal (ascii)
open Registers
open Runs
open Serial
open Soul

/-- The commands on a hash. -/
inductive HashOp where
  | hset (pairs : List (Bytes × Bytes))
  | hget (field : Bytes)
  | hmget (fields : List Bytes)
  | hdel (fields : List Bytes)
  | hexists (field : Bytes)
  | hlen
deriving DecidableEq

namespace HashOp

/-- What the command puts into a field. -/
def writes : HashOp → Bytes → Option (Option Bytes)
  | .hset pairs, field => (lastValue pairs field).map some
  | .hdel fields, field => if fields.contains field then some none else none
  | _, _ => none

/-- The command on a hash, or where there is none. -/
def step : HashOp → Option FieldMap → Option FieldMap × Response
  | .hset pairs, none =>
      (some (hsetFreshLoop ∅ 0 pairs).1, .amount (hsetFreshLoop ∅ 0 pairs).2)
  | .hset pairs, some map => (some (hsetLoop map 0 pairs).1, .amount (hsetLoop map 0 pairs).2)
  | .hget field, map? => (map?, .bulkString (map?.bind fun map => map.lookup field))
  | .hmget fields, map? =>
      (map?, .bulkStringArray (map?.map fun map => fields.map fun field => map.lookup field))
  | .hdel _, none => (none, .amount 0)
  | .hdel fields, some map => (some (hdelLoop map 0 fields).1, .amount (hdelLoop map 0 fields).2)
  | .hexists field, map? =>
      (map?, .amount (if (map?.bind fun map => map.lookup field).isSome then 1 else 0))
  | .hlen, none => (none, .length 0)
  | .hlen, some map => (some map, .length map.entries.length)

def isHset : HashOp → Bool
  | .hset _ => true
  | _ => false

/-- The answer is right where the fields have the values of `view`, and `present` says whether there
is a hash.  HSET counts the fields that are new to a hash, but all pairs of a fresh one, and HMGET
answers with nil where there is none.  The counts of HSET and HDEL are 32-bit integers. -/
def RightIn (present : Bool) (view : Bytes → Option Bytes) : HashOp → Response → Prop
  | .hset pairs, answer =>
      match present with
      | true => ∃ new : Finset Bytes,
          (∀ field, field ∈ new ↔ field ∈ listed pairs ∧ view field = none) ∧
            answer = .amount (wrapU32 new.card)
      | false => answer = .amount (wrapU32 pairs.length)
  | .hget field, answer => answer = .bulkString (view field)
  | .hmget fields, answer =>
      answer = .bulkStringArray (if present then some (fields.map view) else none)
  | .hdel fields, answer =>
      ∃ old : Finset Bytes, (∀ field, field ∈ old ↔ field ∈ fields ∧ (view field).isSome) ∧
        answer = .amount (wrapU32 old.card)
  | .hexists field, answer => answer = .amount (if (view field).isSome then 1 else 0)
  | .hlen, answer =>
      ∃ all : Finset Bytes, (∀ field, field ∈ all ↔ (view field).isSome) ∧
        answer = .length all.card

end HashOp

/-- The value of a field. -/
def fieldIn (map? : Option FieldMap) (field : Bytes) : Option Bytes :=
  map?.bind fun map => map.lookup field

/-! ### The table -/

theorem lookup_hdelLoop (map : FieldMap) (deleted : ℕ) (fields : List Bytes) (field : Bytes) :
    (hdelLoop map deleted fields).1.lookup field =
      if field ∈ fields then none else map.lookup field := by
  induction fields generalizing map deleted with
  | nil => simp [hdelLoop]
  | cons first fields ih =>
      rw [hdelLoop, ih]
      by_cases hfirst : field = first
      · subst hfirst
        simp [AList.lookup_erase]
      · simp [AList.lookup_erase_ne hfirst, hfirst]

theorem getD_map_some {α : Type} (new old : Option α) : (new.map some).getD old = new.or old := by
  cases new <;> rfl

/-- A command writes to the fields what it should. -/
theorem hash_stores : Stores HashOp.step HashOp.writes fieldIn := by
  intro op map? field
  cases op with
  | hset pairs =>
      rw [HashOp.writes, getD_map_some]
      cases map? with
      | none =>
          have hloop := hsetFreshLoop_fst ∅ 0 0 pairs
          simp [HashOp.step, fieldIn, hloop, lookup_hsetLoop]
      | some map => simp [HashOp.step, fieldIn, lookup_hsetLoop]
  | hdel fields =>
      cases map? with
      | none => by_cases hmem : field ∈ fields <;> simp [HashOp.step, HashOp.writes, fieldIn, hmem]
      | some map =>
          by_cases hmem : field ∈ fields <;>
            simp [HashOp.step, HashOp.writes, fieldIn, hmem, lookup_hdelLoop]
  | hget field' => rfl
  | hmget fields => rfl
  | hexists field' => rfl
  | hlen => cases map? <;> rfl

/-- What the command answers is right for the values before it. -/
theorem hash_right (op : HashOp) (map? : Option FieldMap) :
    op.RightIn map?.isSome (fieldIn map?) (op.step map?).2 := by
  cases op with
  | hset pairs =>
      cases map? with
      | none =>
          show _ = Response.amount (wrapU32 pairs.length)
          rw [HashOp.step, hsetFreshLoop_spec ∅ (by norm_num), zero_add]
      | some map =>
          refine ⟨listed pairs \ fieldsOf map, ?_, ?_⟩
          · intro field
            simp [mem_fieldsOf, fieldIn]
          · rw [HashOp.step, hsetLoop_spec map (by norm_num), zero_add]
  | hget field => rfl
  | hmget fields => cases map? <;> rfl
  | hdel fields =>
      cases map? with
      | none => exact ⟨∅, by simp [fieldIn], rfl⟩
      | some map =>
          refine ⟨fields.toFinset ∩ fieldsOf map, ?_, ?_⟩
          · intro field
            simp [mem_fieldsOf, fieldIn]
          · rw [HashOp.step, hdelLoop_spec map (by norm_num), zero_add]
  | hexists field => rfl
  | hlen =>
      cases map? with
      | none => exact ⟨∅, by simp [fieldIn], rfl⟩
      | some map =>
          refine ⟨fieldsOf map, ?_, ?_⟩
          · intro field
            simp [mem_fieldsOf, fieldIn]
          · rw [HashOp.step, card_fieldsOf]

/-- An HSET has been carried out. -/
def hashed (log : List (HashOp × Response)) : Bool := log.any fun e => e.1.isHset

/-- **There is a hash from the first HSET on.** -/
theorem isSome_plays {map? map?' : Option FieldMap} {log : List (HashOp × Response)}
    (h : Plays HashOp.step map? log map?') : map?'.isSome = (map?.isSome || hashed log) := by
  induction log generalizing map? with
  | nil =>
      rw [plays_nil] at h
      rw [h, hashed, List.any_nil, Bool.or_false]
  | cons e log ih =>
      obtain ⟨op, answer⟩ := e
      obtain ⟨-, hrest⟩ := plays_cons.mp h
      have hstep : (op.step map?).1.isSome = (map?.isSome || op.isHset) := by
        cases op <;> cases map? <;> rfl
      have hcons : hashed ((op, answer) :: log) = (op.isHset || hashed log) := List.any_cons
      rw [ih hrest, hstep, hcons, Bool.or_assoc]

/-! ### The hash at a key -/

/-- The key and the command on the hash. -/
def hashUse? : DatabaseCommand → Option (Bytes × HashOp)
  | .hset key pairs _ => some (key, .hset pairs)
  | .hget key field _ => some (key, .hget field)
  | .hmget key fields _ => some (key, .hmget fields)
  | .hdel key fields _ => some (key, .hdel fields)
  | .hexists key field _ => some (key, .hexists field)
  | .hlen key _ => some (key, .hlen)
  | _ => none

/-- The entry of a hash without a deadline. -/
def hashCell (map? : Option FieldMap) : Option Entry := map?.map fun map => (.hash map, none)

theorem lasting_hashCell (map? : Option FieldMap) : Lasting (hashCell map?) := by
  intro entry h
  obtain ⟨map, -, rfl⟩ := Option.map_eq_some_iff.mp h
  rfl

theorem hash_executes (cmd : DatabaseCommand) (key : Bytes) (op : HashOp)
    (huse : hashUse? cmd = some (key, op)) (map? : Option FieldMap) (s : Soul) (config : Config)
    (h : s.get? key = hashCell map?) :
    (database s config cmd).2 = .ok (op.step map?).2 ∧
      (database s config cmd).1.get? key = hashCell (op.step map?).1 := by
  have hlasting : Lasting (s.get? key) := h ▸ lasting_hashCell map?
  cases cmd with
  | hset key' pairs time =>
      cases huse
      obtain ⟨hcell, hanswer⟩ := onLive_lasting hlasting time
        (updateCell Value.hash? .hash (misuse .hset)
          (some (.hash (hsetFreshLoop ∅ 0 pairs).1, none), .ok (hsetFreshLoop ∅ 0 pairs).2)
          fun map => ((hsetLoop map 0 pairs).1, .ok (hsetLoop map 0 pairs).2))
      simp only [database, respond, hset_eq_onLive, hcell, hanswer, h]
      cases map? <;> exact ⟨rfl, rfl⟩
  | hdel key' fields time =>
      cases huse
      obtain ⟨hcell, hanswer⟩ := onLive_lasting hlasting time
        (updateCell Value.hash? .hash (misuse .hdel) (none, .ok 0)
          fun map => ((hdelLoop map 0 fields).1, .ok (hdelLoop map 0 fields).2))
      simp only [database, respond, hdel_eq_onLive, hcell, hanswer, h]
      cases map? <;> exact ⟨rfl, rfl⟩
  | hget key' field time =>
      cases huse
      simp only [database, respond, Soul.hget, query_keeps hlasting,
        query_lasting hlasting, h]
      cases map? <;> exact ⟨rfl, rfl⟩
  | hmget key' fields time =>
      cases huse
      simp only [database, respond, Soul.hmget, query_keeps hlasting,
        query_lasting hlasting, h]
      cases map? <;> exact ⟨rfl, rfl⟩
  | hexists key' field time =>
      cases huse
      simp only [database, respond, Soul.hexists, query_keeps hlasting,
        query_lasting hlasting, h]
      cases map? <;> exact ⟨rfl, rfl⟩
  | hlen key' time =>
      cases huse
      simp only [database, respond, Soul.hlen, query_keeps hlasting,
        query_lasting hlasting, h]
      cases map? <;> exact ⟨rfl, rfl⟩
  | _ => cases huse

def hashObject : KeyObject (Option FieldMap) HashOp Response where
  step := HashOp.step
  answer := id
  use? := hashUse?
  Holds map? o := o = hashCell map?
  answer_ne := by
    intro op map? h
    cases op <;> cases map? <;> cases h
  lasting := by
    rintro map? _ rfl
    exact lasting_hashCell map?
  executes := hash_executes

namespace Server

variable {build : Build} {streams : Token → TcpStream} {s : Server}

/-- The value that has last been put into the field was listed by some HSET, and since then no
command has named the field to change it. -/
theorem lastWritten_hset {log : List (HashOp × Response)} {field value : Bytes}
    (h : lastWritten HashOp.writes none log field = some value) :
    ∃ before pairs answer after, log = before ++ (.hset pairs, answer) :: after ∧
      lastValue pairs field = some value ∧ ∀ e ∈ after, e.1.writes field = none := by
  obtain ⟨before, ⟨op, answer⟩, after, hlog, hwrites, hafter⟩ := lastWritten_eq_some_iff.mp h
  cases op with
  | hset pairs =>
      obtain ⟨listed, hlast, ⟨⟩⟩ := Option.map_eq_some_iff.mp hwrites
      exact ⟨before, pairs, answer, after, hlog, hlast, hafter⟩
  | hdel fields =>
      rw [HashOp.writes, Option.ite_none_right_eq_some] at hwrites
      obtain ⟨-, ⟨⟩⟩ := hwrites
  | hget _ | hmget _ | hexists _ | hlen => cases hwrites

/-- **A hash shows to all clients what has last been written to its fields.**  Where the commands on
the key are those of a hash, every answer is the right one for the values that the HSETs and HDELs
before it have put into the fields, in the order of execution, where there is a hash if and only if
there has been an HSET; a value that HGET answers was written
by an HSET, and has not been changed since; and the values that were written last are found in the
end. -/
theorem hash_last_written {ioThreads : ℕ} {soul : Soul} {config : Config} {actions : List Action}
    {key : Bytes} (hrun : Run (step build streams) (start ioThreads soul config) actions s)
    (hhash : ∀ token, ∀ request ∈ asked (streams token).payload,
      request.Only (hashObject.Allows key) token)
    (hkey : soul.get? key = none) :
    (∀ before op answer after,
      hashObject.accesses key s.executed = before ++ (op, answer) :: after →
        op.RightIn (hashed before) (lastWritten HashOp.writes none before) answer) ∧
      (∀ before field value after, hashObject.accesses key s.executed =
        before ++ (.hget field, .bulkString (some value)) :: after →
          ∃ first pairs answer rest, before = first ++ (.hset pairs, answer) :: rest ∧
            lastValue pairs field = some value ∧ ∀ e ∈ rest, e.1.writes field = none) ∧
      ∀ temple, s.temple = some temple → ∀ field now, (temple.soul.hget key field now).2 =
        .ok (lastWritten HashOp.writes none (hashObject.accesses key s.executed) field) := by
  have hstart : hashObject.Holds none (soul.get? key) := hkey
  obtain ⟨log, map?, hlog, hplays, hleft⟩ := plays_run hrun hhash hstart
  have haccesses : hashObject.accesses key s.executed = log := by
    rw [hlog]
    exact List.map_id log
  have hfields : ∀ (part : List (HashOp × Response)) (map? : Option FieldMap),
      Plays HashOp.step none part map? → fieldIn map? = lastWritten HashOp.writes none part := by
    intro part map? hpart
    funext field
    exact hash_stores.plays hpart field
  rw [haccesses]
  have hright : ∀ before op answer after, log = before ++ (op, answer) :: after →
      op.RightIn (hashed before) (lastWritten HashOp.writes none before) answer := by
    rintro before op answer after rfl
    obtain ⟨map?, hbefore, hafter⟩ := plays_append.mp hplays
    obtain ⟨rfl, -⟩ := plays_cons.mp hafter
    have hpresent : map?.isSome = hashed before := isSome_plays hbefore
    rw [← hfields before map? hbefore, ← hpresent]
    exact hash_right op map?
  refine ⟨hright, ?_, ?_⟩
  · intro before field value after hlog
    have hvalue := hright before (.hget field) (.bulkString (some value)) after hlog
    rw [HashOp.RightIn, Response.bulkString.injEq] at hvalue
    exact lastWritten_hset hvalue.symm
  · intro temple htemple field now
    have hcell : temple.soul.get? key = hashCell map? := hleft temple htemple
    have hlasting : Lasting (temple.soul.get? key) := hcell ▸ lasting_hashCell map?
    rw [← hfields log map? hplays, Soul.hget, query_lasting hlasting, hcell]
    cases map? <;> rfl

/-- HSET h f 1. -/
def hsetF : Request := ⟨[ascii "HSET", ascii "h", ascii "f", ascii "1"], List.cons_ne_nil _ _⟩

/-- HGET h f. -/
def hgetF : Request := ⟨[ascii "HGET", ascii "h", ascii "f"], List.cons_ne_nil _ _⟩

/-- Client 1 writes, and client 2 reads. -/
def writeReadActions : List Action :=
  [.accept, .accept, .ready 1, .pick 0] ++ singing 0 18 ++ [.collect, .turn, .ready 2, .pick 0] ++
    singing 0 15 ++ [.collect, .turn]

theorem allows_writeRead (token : Token) :
    ∀ request ∈ oneEach hsetF hgetF token,
      request.Only (hashObject.Allows (ascii "h")) token := by
  apply only_oneEach
  · refine Request.only_of_grant
      (fun clock => .hset (ascii "h") [(ascii "f", ascii "1")] clock.unixSecs) (fun _ => rfl) ?_
    exact fun clock _ => .inl rfl
  · refine Request.only_of_grant (fun clock => .hget (ascii "h") (ascii "f") clock.unixSecs)
      (fun _ => rfl) ?_
    exact fun clock _ => .inl rfl

/-- What is executed, and answered. -/
def writeRead : List (HashOp × Response) :=
  [(.hset [(ascii "f", ascii "1")], .amount 1),
    (.hget (ascii "f"), .bulkString (some (ascii "1")))]

/-- Client 2 reads what client 1 has written. -/
theorem hash_last_written_writeRead :
    ∃ s, Run (step .release fun token => asStream (encodeAll (oneEach hsetF hgetF token)))
        (start 1 Soul.new ∅) writeReadActions s ∧
      hashObject.accesses (ascii "h") s.executed = writeRead ∧
      (HashOp.hget (ascii "f")).RightIn (hashed (writeRead.take 1))
        (lastWritten HashOp.writes none (writeRead.take 1)) (.bulkString (some (ascii "1"))) := by
  let streams : Token → TcpStream := fun token => asStream (encodeAll (oneEach hsetF hgetF token))
  have hhash : ∀ token, ∀ request ∈ asked (streams token).payload,
      request.Only (hashObject.Allows (ascii "h")) token := by
    intro token request hrequest
    exact allows_writeRead token request (mem_of_asked_asStream hrequest)
  obtain ⟨s, hrun, hseen⟩ := exists_run (start 1 Soul.new ∅) writeReadActions
    (fun s => decide (hashObject.accesses (ascii "h") s.executed = writeRead))
    (by decide +kernel : (runAll (step .release streams) _ _).map _ = .ok true)
  obtain ⟨hright, -, -⟩ := hash_last_written hrun hhash (Dict.get?_empty _)
  have haccesses := of_decide_eq_true hseen
  exact ⟨s, hrun, haccesses, hright (writeRead.take 1) _ _ [] haccesses⟩

end Server
end Heaven
