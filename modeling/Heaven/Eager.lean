import Heaven.Calls
import Heaven.Expiry
import Heaven.SerialOrder
import Heaven.SubscriberMode

/-! # Expiry over whole runs

No thread removes expired entries.  The temple that is meant has one that does: it drops all of them
before each wish (`Temple.eagerTurn`).  While the clocks of the wishes do not go back, the two give
the same answers in every run, up to the first pop that meets an expired entry that is not a list
(`eager_iff`).  The order in which HGETALL, SMEMBERS and CONFIG GET list what they find is the
model's choice: a `HashMap` has none of its own, so these answers are the same up to the order. -/

namespace Heaven

open Decimal (ascii)
open Runs
open Serial

namespace Soul

variable {ρ : Type} {s s' : Soul} {now now' : ℕ}

/-! ### Purging -/

theorem live_of_le (hle : now ≤ now') {entry : Entry} (h : live now' entry = true) :
    live now entry = true := by
  obtain ⟨value, _ | expiry⟩ := entry
  · rfl
  · simp only [live, isExpired, Bool.not_eq_true', decide_eq_false_iff_not] at h ⊢
    omega

/-- What is purged later need not be purged before. -/
theorem purge_purge (s : Soul) (hle : now ≤ now') : (s.purge now).purge now' = s.purge now' := by
  ext1 key
  rw [get?_purge, get?_purge, get?_purge]
  cases s.get? key with
  | none => rfl
  | some entry =>
      cases hlive : live now entry with
      | true => simp [Option.filter, hlive]
      | false =>
          have hgone : live now' entry = false := by
            rw [← Bool.not_eq_true]
            intro h
            rw [live_of_le hle h] at hlive
            cases hlive
          simp [Option.filter, hlive, hgone]

theorem purge_eq_of_le (hle : now ≤ now') (h : s.purge now = s'.purge now) :
    s.purge now' = s'.purge now' := by
  rw [← purge_purge s hle, h, purge_purge s' hle]

/-! ### Methods without a second -/

theorem mset_purge (terms : List Bytes) (h : s.purge now = s'.purge now) :
    (s.mset terms).purge now = (s'.mset terms).purge now := by
  induction terms using msetKeys.induct generalizing s s' with
  | case1 key value terms ih =>
      apply ih
      unfold purge at h ⊢
      rw [Dict.insert_eq_put, Dict.insert_eq_put, Dict.filter_put, Dict.filter_put, h]
  | case2 terms hterms =>
      rcases terms with _ | ⟨key, _ | ⟨value, terms⟩⟩
      · exact h
      · exact h
      · exact absurd rfl (hterms key value terms)

/-! ### TTL -/

/-- What TTL does not find is what has expired for the other methods too. -/
theorem ttlCell_blind (t : SystemTime) : Dict.Blind (live t.unixSecs) (ttlCell t) := by
  intro o
  rcases o with _ | ⟨value, expiry⟩
  · exact ⟨rfl, rfl⟩
  · rw [filter_live_some]
    by_cases he : isExpired expiry t.unixSecs = true
    · rw [if_pos he]
      cases expiry with
      | none => cases he
      | some expiry =>
          have hlt : (expiry : ℤ) < t.secs := (isExpired_unixSecs expiry t).mp he
          have hmax := t.secs_le
          have hfit : expiry ≤ SystemTime.maxSecs := by
            unfold SystemTime.maxSecs
            omega
          have hcell := ttlCell_some value expiry t (by omega) hfit
          rw [if_pos (.inl hlt)] at hcell
          rw [hcell]
          exact ⟨rfl, rfl⟩
    · rw [if_neg he]
      exact ⟨rfl, rfl⟩

namespace Method

/-- The second in which the method is called. -/
def second? : {ρ : Type} → Method ρ → Option ℕ
  | _, .ttl _ time => some time.unixSecs
  | _, m => m.now?

end Method

/-- A pop is answered as on the purged store exactly when it does not meet an expired entry of
another kind. -/
theorem popWith_replies_iff (s : Soul) (key : Bytes) (now : ℕ) (cmd : Command) (absent : ρ)
    (pop : List Bytes → List Bytes × ρ) {answer : ρ → Response}
    (hanswer : ∀ r e, answer r ≠ .error e) :
    (replyTo answer (s.popWith key now cmd absent pop).2 =
        replyTo answer (popWith (s.purge now) key now cmd absent pop).2 ↔
      ¬ ExpiredOther s key now) ∧
    (¬ ExpiredOther s key now → purge (s.popWith key now cmd absent pop).1 now =
      purge (popWith (s.purge now) key now cmd absent pop).1 now) := by
  have hhides := popWith_hides_iff s key now cmd absent pop
  refine ⟨⟨?_, ?_⟩, ?_⟩
  · rintro hreply ⟨value, expiry, hs, he, hl⟩
    rw [popWith_eq_onCell, popWith_eq_onCell] at hreply
    simp only [Dict.onCell, get?_purge, hs, filter_live_some, he, if_true] at hreply
    rw [popCell_expired_other now cmd absent pop expiry hl] at hreply
    exact hanswer absent _ hreply.symm
  · intro h
    rw [(hhides.mpr h).1]
  · intro h
    exact (hhides.mpr h).2

/-- Whatever is not a pop cannot see expired entries. -/
theorem hides_of_not_pop (m : Method ρ) (s : Soul) (hnow : m.second? = some now)
    (hpop : m.popKey? = none) : HidesExpiry m s now := by
  have hoblivious : Dict.Oblivious (live now) m.run := by
    cases m with
    | ttl key time =>
        cases hnow
        have hcell : (fun s : Soul => s.ttl key time) = fun s => s.onCell key (ttlCell time) :=
          funext fun s => ttl_eq_onCell s key time
        show Dict.Oblivious _ fun s : Soul => s.ttl key time
        rw [hcell]
        exact Dict.onCell_oblivious (ttlCell_blind time) key
    | _ => exact Method.oblivious _ hnow hpop
  exact hoblivious.filter s

/-- A method without a second leaves the rest as it is. -/
theorem purge_run_congr (m : Method ρ) (hnow : m.second? = none)
    (h : s.purge now = s'.purge now) :
    (m.run s).2 = (m.run s').2 ∧ (m.run s).1.purge now = (m.run s').1.purge now := by
  cases m with
  | set key val =>
      refine ⟨rfl, ?_⟩
      show purge (Dict.insert s key val) now = purge (Dict.insert s' key val) now
      unfold purge at h ⊢
      rw [Dict.insert_eq_put, Dict.insert_eq_put, Dict.filter_put, Dict.filter_put, h]
  | mset terms => exact ⟨rfl, mset_purge terms h⟩
  | _ => cases hnow

end Soul

/-! ### Calls -/

namespace DatabaseCommand

/-- The second of the command. -/
def second? (cmd : DatabaseCommand) : Option ℕ := cmd.call?.bind fun call => call.method.second?

/-- The key of a pop. -/
def popKey? (cmd : DatabaseCommand) : Option Bytes := cmd.call?.bind fun call => call.method.popKey?

end DatabaseCommand

/-- The command is a pop, and its key holds an expired entry that is not a list. -/
def Soul.PopsExpired (s : Soul) (cmd : DatabaseCommand) : Prop :=
  ∃ key now, cmd.popKey? = some key ∧ cmd.second? = some now ∧ s.ExpiredOther key now

variable {s s' : Soul} {config : Config} {cmd : DatabaseCommand} {now : ℕ}

theorem popsExpired_iff {key : Bytes} (hpop : cmd.popKey? = some key)
    (hnow : cmd.second? = some now) : s.PopsExpired cmd ↔ s.ExpiredOther key now := by
  constructor
  · rintro ⟨key', now', hpop', hnow', h⟩
    cases hpop.symm.trans hpop'
    cases hnow.symm.trans hnow'
    exact h
  · intro h
    exact ⟨key, now, hpop, hnow, h⟩

/-- A command answers as on the purged store precisely if it does not meet such an entry, and then
leaves the same for the clients to see. -/
theorem database_purge (s : Soul) (config : Config) (hnow : cmd.second? = some now) :
    ((database s config cmd).2 = (database (s.purge now) config cmd).2 ↔ ¬ s.PopsExpired cmd) ∧
      (¬ s.PopsExpired cmd → (database s config cmd).1.purge now =
        (database (s.purge now) config cmd).1.purge now) := by
  cases hpop : cmd.popKey? with
  | none =>
      have hnever : ¬ s.PopsExpired cmd := by
        rintro ⟨key, now', hkey, -⟩
        rw [hpop] at hkey
        cases hkey
      cases hcall : cmd.call? with
      | none =>
          rw [DatabaseCommand.second?, hcall] at hnow
          cases hnow
      | some call =>
          rw [DatabaseCommand.second?, hcall] at hnow
          rw [DatabaseCommand.popKey?, hcall] at hpop
          obtain ⟨hresult, hpurge⟩ := Soul.hides_of_not_pop call.method s hnow hpop
          rw [database_call hcall, database_call hcall]
          refine ⟨iff_of_true ?_ hnever, fun _ => hpurge⟩
          simp only [Call.run, hresult]
  | some key =>
      rw [popsExpired_iff hpop hnow]
      have hbulk : ∀ r e, Response.bulkString r ≠ .error e := fun _ _ h => by cases h
      have harray : ∀ r e, Response.bulkStringArray r ≠ .error e := fun _ _ h => by cases h
      cases cmd with
      | lpop key' time =>
          cases hpop
          cases hnow
          obtain ⟨hreply, hpurge⟩ :=
            Soul.popWith_replies_iff s key now .lpop none Soul.popFront hbulk
          exact ⟨(iff_of_eq (Except.ok.injEq _ _)).trans hreply, hpurge⟩
      | lpopM key' count time =>
          cases hpop
          cases hnow
          obtain ⟨hreply, hpurge⟩ := Soul.popWith_replies_iff s key now .lpop none _ harray
          exact ⟨(iff_of_eq (Except.ok.injEq _ _)).trans hreply, hpurge⟩
      | rpop key' time =>
          cases hpop
          cases hnow
          obtain ⟨hreply, hpurge⟩ :=
            Soul.popWith_replies_iff s key now .rpop none Soul.popBack hbulk
          exact ⟨(iff_of_eq (Except.ok.injEq _ _)).trans hreply, hpurge⟩
      | rpopM key' count time =>
          cases hpop
          cases hnow
          obtain ⟨hreply, hpurge⟩ := Soul.popWith_replies_iff s key now .rpop none _ harray
          exact ⟨(iff_of_eq (Except.ok.injEq _ _)).trans hreply, hpurge⟩
      | _ => cases hpop

/-- A command without a second answers alike, and changes the same. -/
theorem database_congr (config : Config) (hnow : cmd.second? = none)
    (h : s.purge now = s'.purge now) :
    (database s config cmd).2 = (database s' config cmd).2 ∧
      (database s config cmd).1.purge now = (database s' config cmd).1.purge now := by
  cases hcall : cmd.call? with
  | none =>
      obtain ⟨response, hresponse⟩ := database_no_call config hcall
      rw [hresponse, hresponse]
      exact ⟨rfl, h⟩
  | some call =>
      rw [DatabaseCommand.second?, hcall] at hnow
      obtain ⟨hresult, hpurge⟩ := Soul.purge_run_congr call.method hnow h
      rw [database_call hcall, database_call hcall]
      exact ⟨by simp only [Call.run, hresult], hpurge⟩

/-! ### The temple -/

/-- The second in which the wish has been made. -/
def Wish.second? (wish : Wish) : Option ℕ :=
  match wish.command with
  | .database cmd => cmd.second?
  | .broadcast _ => none

namespace Temple

variable {t t' : Temple} {wish : Wish}

def purge (t : Temple) (now : ℕ) : Temple := { t with soul := t.soul.purge now }

/-- A turn of a temple that first removes all expired entries. -/
def eagerTurn (t : Temple) (wish : Wish) : Temple × Except Panic Decree :=
  match wish.second? with
  | some now => (t.purge now).turn wish
  | none => t.turn wish

/-- The wish is a pop that gets through the gate, and its key holds an expired entry that is not a
list. -/
def PopsExpired (t : Temple) (wish : Wish) : Prop :=
  wish.token ∉ t.subscribedClients ∧
    ∃ cmd, wish.command = .database cmd ∧ t.soul.PopsExpired cmd

/-- From the second on, clients see the same of both. -/
structure AgreeFrom (now : ℕ) (t t' : Temple) : Prop where
  rest : t' = { t with soul := t'.soul }
  soul : t.soul.purge now = t'.soul.purge now

theorem AgreeFrom.refl (t : Temple) : AgreeFrom 0 t t := ⟨rfl, rfl⟩

theorem AgreeFrom.purge (h : AgreeFrom now t t') {now' : ℕ} (hle : now ≤ now') :
    t'.purge now' = t.purge now' := by
  rw [h.rest]
  unfold Temple.purge
  rw [Soul.purge_eq_of_le hle h.soul]

theorem map_deliver_inj {token : Token} {a b : Except Panic Response} :
    a.map (deliver token) = b.map (deliver token) ↔ a = b := by
  cases a <;> cases b <;> simp [Except.map, deliver]

/-- A wish with a second is answered as by the purged temple exactly if it does not pop an expired
entry of another kind. -/
theorem turn_purge (t : Temple) (hnow : wish.second? = some now) :
    ((t.turn wish).2 = ((t.purge now).turn wish).2 ↔ ¬ t.PopsExpired wish) ∧
      (¬ t.PopsExpired wish → AgreeFrom now (t.turn wish).1 ((t.purge now).turn wish).1) := by
  obtain ⟨token, cmd | cmd⟩ := wish
  · by_cases hgate : token ∈ t.subscribedClients
    · have hnever : ¬ t.PopsExpired ⟨token, .database cmd⟩ := fun h => h.1 hgate
      have hgate' : token ∈ (t.purge now).subscribedClients := hgate
      rw [turn_gated hgate, turn_gated hgate']
      refine ⟨iff_of_true rfl hnever, fun _ => ⟨rfl, ?_⟩⟩
      exact (Soul.purge_purge t.soul le_rfl).symm
    · have hpops : t.PopsExpired ⟨token, .database cmd⟩ ↔ t.soul.PopsExpired cmd := by
        constructor
        · rintro ⟨-, cmd', ⟨⟩, h⟩
          exact h
        · intro h
          exact ⟨hgate, cmd, rfl, h⟩
      have hgate' : token ∉ (t.purge now).subscribedClients := hgate
      obtain ⟨hanswer, hpurge⟩ := database_purge t.soul t.config hnow
      rw [turn_executes hgate, turn_executes hgate', hpops]
      exact ⟨map_deliver_inj.trans hanswer, fun h => ⟨rfl, hpurge h⟩⟩
  · cases hnow

/-- A wish without a second is answered alike. -/
theorem turn_congr (hnow : wish.second? = none) (h : AgreeFrom now t t') :
    (t.turn wish).2 = (t'.turn wish).2 ∧ AgreeFrom now (t.turn wish).1 (t'.turn wish).1 := by
  obtain ⟨token, cmd | cmd⟩ := wish
  · rw [h.rest]
    by_cases hgate : token ∈ t.subscribedClients
    · have hgate' : token ∈ ({ t with soul := t'.soul } : Temple).subscribedClients := hgate
      rw [turn_gated hgate, turn_gated hgate']
      exact ⟨rfl, rfl, h.soul⟩
    · have hgate' : token ∉ ({ t with soul := t'.soul } : Temple).subscribedClients := hgate
      obtain ⟨hanswer, hpurge⟩ := database_congr t.config hnow h.soul
      rw [turn_executes hgate, turn_executes hgate']
      exact ⟨by rw [hanswer], rfl, hpurge⟩
  · rw [h.rest]
    cases cmd
    all_goals exact ⟨rfl, rfl, h.soul⟩

/-- What is left of the wishes comes after the second, and in order. -/
def InOrder (now : ℕ) (wishes : List Wish) : Prop :=
  (now :: wishes.filterMap Wish.second?).Pairwise (· ≤ ·)

/-- **The eager temple follows**, up to a pop of an expired entry of another kind. -/
theorem eager_lockstep : Lockstep Temple.turn eagerTurn
    (fun t wish => ¬ t.PopsExpired wish)
    fun t t' rest => ∃ now, AgreeFrom now t t' ∧ InOrder now rest := by
  rintro t t' wish rest ⟨now, hagree, horder⟩
  unfold InOrder at horder
  cases hnow : wish.second? with
  | none =>
      rw [List.filterMap_cons_none hnow] at horder
      have hnever : ¬ t.PopsExpired wish := by
        rintro ⟨-, cmd, hcmd, key, now', -, hsecond, -⟩
        simp only [Wish.second?, hcmd, hsecond] at hnow
        cases hnow
      obtain ⟨hanswer, hnext⟩ := turn_congr hnow hagree
      simp only [eagerTurn, hnow]
      exact ⟨iff_of_true hanswer hnever, fun _ => ⟨now, hnext, horder⟩⟩
  | some now' =>
      rw [List.filterMap_cons_some hnow] at horder
      have hle : now ≤ now' := List.rel_of_pairwise_cons horder List.mem_cons_self
      obtain ⟨hanswer, hnext⟩ := turn_purge t hnow
      simp only [eagerTurn, hnow]
      rw [hagree.purge hle]
      exact ⟨hanswer, fun h => ⟨now', hnext h, horder.of_cons⟩⟩

end Temple

namespace Server

variable {build : Build} {streams : Token → TcpStream} {server : Server}

/-- **Expired entries might as well be removed at once.**  While the clocks of the wishes do not go
back, the answers of the temple in a run are those of the eager temple, exactly if no pop meets an
expired entry that is not a list. -/
theorem eager_iff {ioThreads : ℕ} {soul : Soul} {actions : List Action}
    (hrun : Run (step build streams) (start ioThreads soul config) actions server)
    (horder : (server.executed.filterMap fun e => e.1.second?).Pairwise (· ≤ ·)) :
    (serveAll Temple.eagerTurn { Temple.worship config with soul }
        (server.executed.map Prod.fst)).2 = server.executed ↔
      ∀ before e after temple, server.executed = before ++ e :: after →
        Records Temple.turn { Temple.worship config with soul } before (some temple) →
        ¬ temple.PopsExpired e.1 := by
  have hrecords := records_run hrun
  have hfront : Temple.InOrder 0 (server.executed.map Prod.fst) := by
    unfold Temple.InOrder
    rw [List.filterMap_map, List.pairwise_cons]
    exact ⟨fun _ _ => Nat.zero_le _, horder⟩
  have hlog := Temple.eager_lockstep.log_eq_iff
    ⟨0, .refl { Temple.worship config with soul }, hfront⟩
  rw [hrecords.meets_iff] at hlog
  rw [← hlog, hrecords, eq_comm]

/-- Client 1 sends SET a 1 EX 5 and client 2, ten seconds later, GET a. -/
def setThenGet (token : Token) : List Request :=
  if token = 1 then
    [⟨[ascii "SET", ascii "a", ascii "1", ascii "EX", ascii "5"], List.cons_ne_nil _ _⟩]
  else if token = 2 then [⟨[ascii "GET", ascii "a"], List.cons_ne_nil _ _⟩]
  else []

def second10 : SystemTime := ⟨10, 0, by decide, by decide, by decide⟩

def setThenGetActions : List Action :=
  [.accept, .accept, .ready 1, .pick 0] ++ singing 0 21 ++ [.turn, .ready 2, .pick 0] ++
    List.replicate 11 (.sing 0 second10) ++ [.turn]

def setThenGetWishes : List Wish :=
  [⟨1, .database (.set (ascii "a") (.string (ascii "1"), some 5))⟩,
    ⟨2, .database (.get (ascii "a") 10)⟩]

/-- The entry has expired when it is read. -/
theorem eager_iff_setThenGet :
    ∃ s, Run (step .release fun token => asStream (encodeAll (setThenGet token)))
        (start 1 Soul.new ∅) setThenGetActions s ∧
      s.executed.map Prod.fst = setThenGetWishes ∧
      (serveAll Temple.eagerTurn (Temple.worship ∅) setThenGetWishes).2 = s.executed := by
  let streams : Token → TcpStream := fun token => asStream (encodeAll (setThenGet token))
  obtain ⟨s, hrun, hseen⟩ := exists_run (start 1 Soul.new ∅) setThenGetActions
    (fun s => decide (s.executed.map Prod.fst = setThenGetWishes))
    (by decide +kernel : (runAll (step .release streams) _ _).map _ = .ok true)
  have hwishes : s.executed.map Prod.fst = setThenGetWishes := of_decide_eq_true hseen
  have horder : (s.executed.filterMap fun e => e.1.second?).Pairwise (· ≤ ·) := by
    have hmap : (s.executed.filterMap fun e => e.1.second?) =
        (s.executed.map Prod.fst).filterMap Wish.second? := by
      rw [List.filterMap_map]
      rfl
    rw [hmap, hwishes]
    decide
  have hiff := eager_iff hrun horder
  rw [hwishes] at hiff
  refine ⟨s, hrun, hwishes, hiff.mpr ?_⟩
  -- neither of the two is a pop
  rintro before e after temple hsplit - ⟨-, cmd, hcmd, key, now, hpop, -⟩
  have hmem : e.1 ∈ setThenGetWishes := by
    rw [← hwishes, hsplit]
    simp
  obtain hset | hget : e.1 = _ ∨ e.1 = _ := by simpa [setThenGetWishes] using hmem
  · rw [hset] at hcmd
    cases hcmd
    cases hpop
  · rw [hget] at hcmd
    cases hcmd
    cases hpop

end Server
end Heaven
