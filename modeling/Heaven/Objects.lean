import Heaven.Calls
import Heaven.Lib.Parts
import Heaven.SerialOrder
import Heaven.SubscriberMode

/-! # Objects at a key

A key that all clients use for one kind of value is an object that they share.  `KeyObject` says
what such an object is: its operations and their answers, the commands they stand for, and the
entries that hold it.  In every run the commands on the key, in the order of execution and with the
answers that were sent, are a transcript of the object (`plays_run`), whatever is done with other
keys between them and whichever clients issue them.

The entry of an object has no deadline, so the times of the commands do not matter. -/

namespace Heaven

open Runs
open Serial
open Soul

/-! ### Reading -/

/-- The command only reads. -/
def DatabaseCommand.reads : DatabaseCommand → Bool
  | .get .. | .strlen .. | .exists .. | .hget .. | .hmget .. | .hexists .. | .hlen .. | .hgetall ..
  | .llen .. | .lrange .. | .lindex .. | .ttl .. | .mget .. | .sismember .. | .smembers ..
  | .configGet .. => true
  | _ => false

/-- The entry has no deadline. -/
def Lasting (o : Option Entry) : Prop := ∀ entry, o = some entry → entry.2 = none

theorem Lasting.filter {o : Option Entry} (h : Lasting o) (now : ℕ) : o.filter (live now) = o := by
  rcases o with _ | ⟨value, expiry⟩
  · rfl
  · obtain rfl : expiry = none := h _ rfl
    rfl

namespace Soul

variable {α β ρ : Type} {s : Soul} {key : Bytes}

/-- A method on an entry without a deadline. -/
theorem onLive_lasting (h : Lasting (s.get? key)) (now : ℕ)
    (g : Option Entry → Option Entry × ρ) :
    (s.onLive key now g).1.get? key = (g (s.get? key)).1 ∧
      (s.onLive key now g).2 = (g (s.get? key)).2 := by
  rw [get?_onLive, if_pos rfl, onLive_snd, get?_purge, h.filter]
  exact ⟨rfl, rfl⟩

theorem query_keeps (h : Lasting (s.get? key)) (key' : Bytes) (now : ℕ)
    (view : Value → Option α) (wrongType absent : ρ) (found : α → ρ) :
    (s.query key' now view wrongType absent found).1.get? key = s.get? key := by
  rw [query_eq_onLive, get?_onLive]
  by_cases hkey : key = key'
  · rw [if_pos hkey, ← hkey, h.filter, queryCell_fst]
  · rw [if_neg hkey]

theorem query_lasting (h : Lasting (s.get? key)) (now : ℕ) (view : Value → Option α)
    (wrongType absent : ρ) (found : α → ρ) :
    (s.query key now view wrongType absent found).2 =
      (queryCell view wrongType absent found (s.get? key)).2 := by
  rw [query_snd, get?_purge, h.filter]

theorem getValidValue_keeps (h : Lasting (s.get? key)) (key' : Bytes) (now : ℕ) :
    (s.getValidValue key' now).1.get? key = s.get? key := by
  rw [getValidValue_eq_onLive, get?_onLive]
  by_cases hkey : key = key'
  · rw [if_pos hkey, ← hkey, h.filter]
  · rw [if_neg hkey]

theorem forKeys_keeps (h : Lasting (s.get? key)) (now : ℕ) (visit : β → Option Value → β)
    (keys : List Bytes) (acc : β) :
    (forKeys (fun s key => s.getValidValue key now) visit s acc keys).1.get? key = s.get? key := by
  induction keys generalizing s acc with
  | nil => rfl
  | cons key' keys ih =>
      have hfirst := getValidValue_keeps h key' now
      rw [← hfirst] at h
      exact (ih h _).trans hfirst

theorem ttl_keeps (h : Lasting (s.get? key)) (key' : Bytes) (now : SystemTime) :
    (s.ttl key' now).1.get? key = s.get? key := by
  rw [ttl_eq_onCell]
  by_cases hkey : key = key'
  · subst hkey
    rw [Dict.onCell_get?_self]
    rcases hcell : s.get? key with _ | ⟨value, expiry⟩
    · rfl
    · obtain rfl : expiry = none := h _ hcell
      rfl
  · exact Dict.onCell_get?_ne s _ hkey

end Soul

/-- **A command that only reads leaves an entry without a deadline alone.** -/
theorem database_reads {s : Soul} {key : Bytes} (h : Lasting (s.get? key)) (config : Config)
    {cmd : DatabaseCommand} (hreads : cmd.reads = true) :
    (database s config cmd).1.get? key = s.get? key := by
  cases cmd
  case get | strlen | hget | hmget | hexists | hlen | hgetall | llen | lrange | lindex
      | sismember | smembers =>
    exact query_keeps h _ _ _ _ _ _
  case «exists» | mget => exact forKeys_keeps h _ _ _ _
  case ttl => exact ttl_keeps h _ _
  case configGet => rfl
  all_goals cases hreads

/-! ### Objects -/

/-- A kind of value with operations of its own, and how the store keeps it at a key. -/
structure KeyObject (A O R : Type) where
  step : O → A → A × R
  answer : R → Response
  /-- The key and the operation of the command. -/
  use? : DatabaseCommand → Option (Bytes × O)
  Holds : A → Option Entry → Prop
  answer_ne : ∀ o a, answer (step o a).2 ≠ .error .subscriberOnlyMode
  lasting : ∀ a o, Holds a o → Lasting o
  executes : ∀ cmd key o, use? cmd = some (key, o) → ∀ a s config, Holds a (Dict.get? s key) →
    (database s config cmd).2 = .ok (answer (step o a).2) ∧
      Holds (step o a).1 ((database s config cmd).1.get? key)

variable {A O R : Type} {object : KeyObject A O R} {key : Bytes}

/-- The operation of the command, if it is one on the key. -/
def KeyObject.op? (object : KeyObject A O R) (key : Bytes) (cmd : DatabaseCommand) : Option O :=
  ((object.use? cmd).filter fun use => decide (use.1 = key)).map Prod.snd

theorem KeyObject.use_of_op {cmd : DatabaseCommand} {o : O} (h : object.op? key cmd = some o) :
    object.use? cmd = some (key, o) := by
  obtain ⟨⟨key', o'⟩, hfilter, rfl⟩ := Option.map_eq_some_iff.mp h
  obtain ⟨huse, hkey⟩ := Option.filter_eq_some_iff.mp hfilter
  obtain rfl : key' = key := of_decide_eq_true hkey
  exact huse

/-- If the command names the key, it is an operation, or only reads. -/
def KeyObject.Allows (object : KeyObject A O R) (key : Bytes) (cmd : DatabaseCommand) : Prop :=
  key ∈ cmd.keys → (object.op? key cmd).isSome ∨ cmd.reads = true

def Wish.Allowed (object : KeyObject A O R) (key : Bytes) (wish : Wish) : Prop :=
  ∀ cmd, wish.command = .database cmd → object.Allows key cmd

/-- All store commands that the client makes with the request satisfy `P`. -/
def Request.Only (P : DatabaseCommand → Prop) (token : Token) (request : Request) : Prop :=
  ∀ cmd, Makes token request ⟨token, .database cmd⟩ → P cmd

/-- The operation of a wish that has been executed, with the answer; the gate executes nothing. -/
def KeyObject.seen (object : KeyObject A O R) (key : Bytes) (e : Wish × Except Panic Decree) :
    Option (O × Response) :=
  match e.1.command, e.2 with
  | .database cmd, .ok (.deliver gift) =>
      if gift.response = .error .subscriberOnlyMode then none
      else (object.op? key cmd).map fun o => (o, gift.response)
  | _, _ => none

/-- The operations on the object that have been executed, with their answers. -/
def KeyObject.accesses (object : KeyObject A O R) (key : Bytes)
    (executed : List (Wish × Except Panic Decree)) : List (O × Response) :=
  executed.filterMap (object.seen key)

theorem KeyObject.mem_accesses {executed : List (Wish × Except Panic Decree)} {o : O}
    {response : Response} (h : (o, response) ∈ object.accesses key executed) :
    ∃ e ∈ executed, ∃ cmd, e.1.command = .database cmd ∧ object.op? key cmd = some o := by
  obtain ⟨⟨⟨token, command⟩, result⟩, hmem, hseen⟩ := List.mem_filterMap.mp h
  refine ⟨_, hmem, ?_⟩
  unfold KeyObject.seen at hseen
  split at hseen
  case h_1 cmd gift hcommand hresult =>
    split at hseen
    · cases hseen
    · obtain ⟨o', ho', heq⟩ := Option.map_eq_some_iff.mp hseen
      obtain ⟨rfl, -⟩ := Prod.mk.inj heq
      exact ⟨cmd, hcommand, ho'⟩
  case h_2 => cases hseen

/-- A command that is not an operation leaves the object alone. -/
theorem KeyObject.keeps {a : A} {s : Soul} (hholds : object.Holds a (s.get? key)) (config : Config)
    {cmd : DatabaseCommand} (hallows : object.Allows key cmd) (hop : object.op? key cmd = none) :
    (database s config cmd).1.get? key = s.get? key := by
  by_cases hkey : key ∈ cmd.keys
  · obtain hsome | hreads := hallows hkey
    · rw [hop] at hsome
      cases hsome
    · exact database_reads (object.lasting a _ hholds) config hreads
  · exact (database_concerns config cmd).frame s key hkey

/-- **The temple houses the object.** -/
theorem Temple.houses (object : KeyObject A O R) (key : Bytes) :
    Houses Temple.turn object.step object.answer (object.seen key) (Wish.Allowed object key)
      fun a t => object.Holds a (t.soul.get? key) where
  plays := by
    rintro t ⟨token, cmd | cmd⟩ a o response hallowed hholds hseen
    · by_cases hgate : token ∈ t.subscribedClients
      · rw [turn_gated hgate] at hseen
        simp [KeyObject.seen, deliver] at hseen
      · rw [turn_executes hgate] at hseen ⊢
        cases hop : object.op? key cmd with
        | none =>
            unfold KeyObject.seen at hseen
            split at hseen
            · rename_i hcommand _
              obtain rfl := ClientCommandType.database.inj hcommand
              rw [hop] at hseen
              split at hseen <;> cases hseen
            · cases hseen
        | some o' =>
            obtain ⟨hanswer, hnext⟩ :=
              object.executes cmd key o' (KeyObject.use_of_op hop) a t.soul t.config hholds
            rw [hanswer] at hseen
            simp only [KeyObject.seen, Except.map, deliver, object.answer_ne, if_false, hop,
              Option.map_some, Option.some.injEq, Prod.mk.injEq] at hseen
            obtain ⟨rfl, rfl⟩ := hseen
            exact ⟨rfl, hnext⟩
    · simp [KeyObject.seen] at hseen
  rests := by
    rintro t ⟨token, cmd | cmd⟩ a hallowed hholds hseen
    · by_cases hgate : token ∈ t.subscribedClients
      · rw [turn_gated hgate]
        exact hholds
      · rw [turn_executes hgate] at hseen ⊢
        cases hop : object.op? key cmd with
        | none =>
            simp only
            rw [object.keeps hholds t.config (hallowed cmd rfl) hop]
            exact hholds
        | some o =>
            obtain ⟨hanswer, -⟩ :=
              object.executes cmd key o (KeyObject.use_of_op hop) a t.soul t.config hholds
            rw [hanswer] at hseen
            simp [KeyObject.seen, Except.map, deliver, object.answer_ne, hop] at hseen
    · cases cmd <;> exact hholds

/-- A request with one store command. -/
theorem Request.only_of_grant {P : DatabaseCommand → Prop} {token : Token} {request : Request}
    (cmd : SystemTime → DatabaseCommand)
    (hgrant : ∀ clock, grant request.val request.ne_nil clock token =
      [.toTemple ⟨token, .database (cmd clock)⟩])
    (h : ∀ clock, P (cmd clock)) : request.Only P token := by
  rintro cmd' ⟨clock, hmem⟩
  rw [hgrant, List.mem_singleton] at hmem
  cases hmem
  exact h clock

/-- Clients 1 and 2 send one command each. -/
def oneEach (first second : Request) (token : Token) : List Request :=
  if token = 1 then [first]
  else if token = 2 then [second]
  else []

theorem only_oneEach {P : DatabaseCommand → Prop} {first second : Request}
    (hfirst : first.Only P 1) (hsecond : second.Only P 2) (token : Token) :
    ∀ request ∈ oneEach first second token, request.Only P token := by
  intro request hrequest
  unfold oneEach at hrequest
  split at hrequest
  case isTrue htoken =>
    rw [List.mem_singleton.mp hrequest, htoken]
    exact hfirst
  case isFalse =>
    split at hrequest
    case isTrue htoken =>
      rw [List.mem_singleton.mp hrequest, htoken]
      exact hsecond
    case isFalse => cases hrequest

namespace Server

variable {build : Build} {streams : Token → TcpStream} {s : Server}

/-- **The run lemma**: the commands on the key are a transcript of the object. -/
theorem plays_run {ioThreads : ℕ} {soul : Soul} {config : Config} {actions : List Action}
    {a : A} (hrun : Run (step build streams) (start ioThreads soul config) actions s)
    (hallowed : ∀ token, ∀ request ∈ asked (streams token).payload,
      request.Only (object.Allows key) token)
    (hstart : object.Holds a (soul.get? key)) :
    ∃ log a', object.accesses key s.executed = log.map (Prod.map id object.answer) ∧
      Plays object.step a log a' ∧
      ∀ temple, s.temple = some temple → object.Holds a' (temple.soul.get? key) := by
  have hproper : ∀ e ∈ s.executed, e.1.Allowed object key := by
    intro e hmem
    obtain ⟨request, hrequest, hmakes⟩ := (sound_run hrun).makes_of_executed hmem
    rintro cmd hcommand
    apply hallowed _ request hrequest cmd
    rw [← hcommand]
    exact hmakes
  exact (Temple.houses object key).plays_log hproper hstart (records_run hrun)

end Server
end Heaven
