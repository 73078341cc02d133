import Heaven.SerialOrder
import Heaven.Snapshot

/-! # Shutting down

The handler of Ctrl-C in `server.rs` and its talk with the temple (`Temple::save`), beside the
server.  The handler asks the temple for the path of the file, sends it `Save`, with which the
command loop ends, and sends the server loop the token that ends the process.  The channel of the
temple is the one for the wishes: a message of the handler waits until the wishes in front of it
have been executed.

The token that ends the process goes through the channel in which egress reports connections.
Reports that stand in front of it are not modelled: the event loop takes all of them in the turn in
which it takes the token, so that the bound of `shutdown_ends` counts one step for them together.

A save is a snapshot of one time: the file gets the store after the wishes that have been executed,
among them all that were sent before the signal, and nothing is executed after it
(`shutdown_durable`).  Sessions that are shut down well carry on one store
(`sessions_continue`).  Whatever the others do, the handler can come to the end of the process
(`shutdown_ends`). -/

namespace Heaven

open Decimal (ascii)
open Runs
open Serial

/-- The commands of the server itself, which the temple takes from the channel of the wishes. -/
inductive ServerCommand where
  | save (filePath : Bytes)
  | getFilePath
deriving DecidableEq

/-- Where the handler of Ctrl-C is. -/
inductive CtrlC where
  | waiting
  /-- The command is in the channel of the temple, behind `ahead` wishes. -/
  | asked (command : ServerCommand) (ahead : ℕ)
  | hasPath (filePath : Bytes)
  /-- `none`: the sender of the result is gone. -/
  | done (result : Option (Except ServerError Unit))
deriving DecidableEq

/-- Another party takes a step: the temple takes a wish only in front of the handler's command. -/
def CtrlC.beside : CtrlC → Server.Action → Option CtrlC
  | .asked _ 0, .turn => none
  | .asked command (ahead + 1), .turn => some (.asked command ahead)
  | handler, _ => some handler

structure Process where
  server : Server
  handler : CtrlC
  files : Files
  /-- The signal to exit is in the channel of the server loop. -/
  exiting : Bool
  exited : Bool

inductive Process.Action where
  /-- A step of the server. -/
  | server (action : Server.Action)
  /-- Ctrl-C: the handler sends `GetFilePath`. -/
  | signal
  /-- The temple takes `GetFilePath`; without a path its thread returns. -/
  | getFilePath
  /-- The handler sends `Save`. -/
  | sendSave
  /-- The temple takes `Save`, and its loop ends. -/
  | save (outcome : SaveOutcome)
  /-- The temple is gone, and the handler's message with it. -/
  | giveUp
  /-- The handler sends the server loop the token of the listener. -/
  | sendExit
  /-- The server loop takes it. -/
  | exit

/-- The path the handler has been given. -/
def CtrlC.filePath? : CtrlC → Option Bytes
  | .hasPath filePath | .asked (.save filePath) _ => some filePath
  | _ => none

/-- How many wishes the temple still takes before the handler's command or before the handler has
sent it. -/
def CtrlC.ahead? : CtrlC → Option ℕ
  | .asked _ ahead => some ahead
  | .hasPath _ => some 0
  | _ => none

theorem CtrlC.filePath?_beside {handler handler' : CtrlC} {action : Server.Action}
    (h : handler.beside action = some handler') : handler'.filePath? = handler.filePath? := by
  unfold beside at h
  split at h
  case h_1 => cases h
  case h_2 command ahead =>
    cases h
    cases command <;> rfl
  case h_3 => rw [Option.some.inj h]

theorem CtrlC.ahead?_beside {handler handler' : CtrlC}
    (h : handler.beside .turn = some handler') :
    handler'.ahead? = handler.ahead?.map (· - 1) := by
  cases handler with
  | asked command ahead =>
      cases ahead with
      | zero => cases h
      | succ ahead =>
          cases h
          rfl
  | _ =>
      cases h
      rfl

theorem CtrlC.beside_done {handler : CtrlC} {action : Server.Action}
    {result : Option (Except ServerError Unit)}
    (h : handler.beside action = some (.done result)) : handler = .done result := by
  unfold beside at h
  split at h
  case h_1 => cases h
  case h_2 => cases h
  case h_3 => exact Option.some.inj h

theorem CtrlC.beside_ne_turn {handler : CtrlC} {action : Server.Action} (hne : action ≠ .turn) :
    handler.beside action = some handler := by
  unfold beside
  split
  case h_1 => exact absurd rfl hne
  case h_2 => exact absurd rfl hne
  case h_3 => rfl

theorem Temple.turn_config (t : Temple) (wish : Wish) : (t.turn wish).1.config = t.config := by
  obtain ⟨token, cmd | cmd⟩ := wish
  · simp only [turn]
    split_ifs
    · rfl
    · rfl
  · cases cmd <;> rfl

namespace Server

variable {build : Build} {streams : Token → TcpStream} {s s' : Server}

/-- The thread of the temple has ended. -/
def endTemple (s : Server) : Server := { s with temple := none }

theorem step_turn (hstep : step build streams s .turn = .ok s') :
    ∃ temple wish wishes, s.temple = some temple ∧ s.wishes = wish :: wishes ∧
      s' = s.serve temple wish wishes := by
  unfold step at hstep
  simp only at hstep
  split at hstep
  case h_1 temple wish wishes htemple hwishes =>
    cases hstep
    exact ⟨temple, wish, wishes, htemple, hwishes, rfl⟩
  case h_2 => cases hstep

theorem serve_wishes (s : Server) (temple : Temple) (wish : Wish) (wishes : List Wish) :
    (s.serve temple wish wishes).wishes = wishes := by
  unfold serve
  split
  all_goals rfl

/-- The temple takes wishes, and the others send them. -/
structure Queues (s s' : Server) : Prop where
  executed : s'.executed = s.executed
  temple : s'.temple = s.temple
  wishes : s.wishes <+: s'.wishes

theorem Queues.of_eq (hexecuted : s'.executed = s.executed) (htemple : s'.temple = s.temple)
    (hwishes : s'.wishes = s.wishes) : Queues s s' :=
  ⟨hexecuted, htemple, hwishes ▸ List.prefix_rfl⟩

theorem queues_post (s : Server) (emission : Emission) : Queues s (s.post emission) := by
  cases emission with
  | toTemple wish => exact ⟨rfl, rfl, List.prefix_append _ _⟩
  | toEgress decree => exact .of_eq rfl rfl rfl

theorem queues_sing (clock : SystemTime) (i : ℕ) (song : Song) :
    Queues s (s.sing build clock i song) := by
  unfold sing
  split
  case h_1 _ emission outbox _ =>
    obtain ⟨hexecuted, htemple, hwishes⟩ :=
      queues_post (s.setAngel i (.singing { song with outbox })) emission
    exact ⟨hexecuted, htemple, hwishes⟩
  case h_2 => exact .of_eq rfl rfl rfl
  case h_3 => exact .of_eq rfl rfl rfl
  case h_4 =>
    split
    case h_1 => exact .of_eq rfl rfl rfl
    case h_2 => exact .of_eq rfl rfl rfl

theorem step_queues {action : Action} (hne : action ≠ .turn)
    (hstep : step build streams s action = .ok s') : Queues s s' := by
  cases action with
  | collect =>
      simp only [step] at hstep
      split at hstep
      case h_1 =>
        cases hstep
        exact .of_eq rfl rfl rfl
      case h_2 => cases hstep
  | notice token =>
      simp only [step] at hstep
      split at hstep
      case isTrue => cases hstep
      case isFalse =>
        cases hstep
        exact .of_eq rfl rfl rfl
  | accept =>
      cases hstep
      exact .of_eq rfl rfl rfl
  | ready token =>
      simp only [step] at hstep
      split at hstep
      case h_1 =>
        split at hstep
        case isTrue => cases hstep
        case isFalse =>
          cases hstep
          exact .of_eq rfl rfl rfl
      case h_2 =>
        cases hstep
        exact .of_eq rfl rfl rfl
  | pick i =>
      simp only [step] at hstep
      split at hstep
      case h_1 =>
        cases hstep
        exact .of_eq rfl rfl rfl
      case h_2 => cases hstep
  | sing i clock =>
      simp only [step] at hstep
      split at hstep
      case h_1 song _ =>
        cases hstep
        exact queues_sing clock i song
      case h_2 => cases hstep
  | turn => exact absurd rfl hne

end Server

namespace Process

variable {Archived : Type} (archive : Archive Archived) (build : Build)
  (streams : Token → TcpStream)

/-- The process starts with the store in its file. -/
def start (ioThreads : ℕ) (dir dbfilename : Bytes) (config : Config) (files : Files) : Process where
  server := Server.start ioThreads (loadSnapshot archive dir dbfilename files) config
  handler := .waiting
  files := files
  exiting := false
  exited := false

def step (p : Process) (action : Action) : Except Unit Process :=
  if p.exited then .error ()
  else
    match action with
    | .server action =>
        match p.handler.beside action with
        | some handler =>
            (Server.step build streams p.server action).map fun server =>
              { p with server, handler }
        | none => .error ()
    | .signal =>
        match p.handler with
        | .waiting => .ok { p with handler := .asked .getFilePath p.server.wishes.length }
        | _ => .error ()
    | .getFilePath =>
        match p.handler, p.server.temple with
        | .asked .getFilePath 0, some temple =>
            match Heaven.getFilePath temple.config with
            | .ok filePath => .ok { p with handler := .hasPath filePath }
            | .error _ => .ok { p with handler := .done none, server := p.server.endTemple }
        | _, _ => .error ()
    | .sendSave =>
        match p.handler with
        | .hasPath filePath =>
            .ok { p with handler := .asked (.save filePath) p.server.wishes.length }
        | _ => .error ()
    | .save outcome =>
        match p.handler, p.server.temple with
        | .asked (.save filePath) 0, some temple =>
            let (files, result) := temple.soul.save archive filePath p.files outcome
            .ok { p with files, handler := .done (some result), server := p.server.endTemple }
        | _, _ => .error ()
    | .giveUp =>
        match p.handler, p.server.temple with
        | .asked _ _, none => .ok { p with handler := .done none }
        | _, _ => .error ()
    | .sendExit =>
        match p.handler with
        | .done _ => .ok { p with handler := .waiting, exiting := true }
        | _ => .error ()
    | .exit => if p.exiting then .ok { p with exited := true } else .error ()

/-! ### The inversion lemma -/

/-- What a step does, and when. -/
inductive Takes (p : Process) : Action → Process → Prop
  | server {action : Server.Action} {server : Server} (hne : action ≠ .turn)
      (h : Server.step build streams p.server action = .ok server) :
      Takes p (.server action) { p with server }
  | turn {handler : CtrlC} {temple : Temple} {wish : Wish} {wishes : List Wish}
      (hhandler : p.handler.beside .turn = some handler) (htemple : p.server.temple = some temple)
      (hwishes : p.server.wishes = wish :: wishes) :
      Takes p (.server .turn) { p with server := p.server.serve temple wish wishes, handler }
  | signal (hhandler : p.handler = .waiting) :
      Takes p .signal { p with handler := .asked .getFilePath p.server.wishes.length }
  | path {temple : Temple} {filePath : Bytes} (hhandler : p.handler = .asked .getFilePath 0)
      (htemple : p.server.temple = some temple)
      (hpath : Heaven.getFilePath temple.config = .ok filePath) :
      Takes p .getFilePath { p with handler := .hasPath filePath }
  | noPath {temple : Temple} {e : ServerError} (hhandler : p.handler = .asked .getFilePath 0)
      (htemple : p.server.temple = some temple)
      (hpath : Heaven.getFilePath temple.config = .error e) :
      Takes p .getFilePath { p with handler := .done none, server := p.server.endTemple }
  | sendSave {filePath : Bytes} (hhandler : p.handler = .hasPath filePath) :
      Takes p .sendSave { p with handler := .asked (.save filePath) p.server.wishes.length }
  | save {temple : Temple} {filePath : Bytes} {files : Files} {result : Except ServerError Unit}
      (outcome : SaveOutcome) (hhandler : p.handler = .asked (.save filePath) 0)
      (htemple : p.server.temple = some temple)
      (hsave : temple.soul.save archive filePath p.files outcome = (files, result)) :
      Takes p (.save outcome)
        { p with files, handler := .done (some result), server := p.server.endTemple }
  | giveUp {command : ServerCommand} {ahead : ℕ} (hhandler : p.handler = .asked command ahead)
      (htemple : p.server.temple = none) : Takes p .giveUp { p with handler := .done none }
  | sendExit {result : Option (Except ServerError Unit)} (hhandler : p.handler = .done result) :
      Takes p .sendExit { p with handler := .waiting, exiting := true }
  | exit (hexiting : p.exiting = true) : Takes p .exit { p with exited := true }

variable {archive build streams} {p p' : Process}

theorem step_takes {action : Action} (hstep : step archive build streams p action = .ok p') :
    Takes archive build streams p action p' := by
  unfold step at hstep
  split at hstep
  · cases hstep
  · cases action with
    | server action =>
        simp only at hstep
        split at hstep
        case h_1 handler hhandler =>
          cases hserver : Server.step build streams p.server action with
          | error e =>
              rw [hserver] at hstep
              cases hstep
          | ok server =>
              rw [hserver] at hstep
              cases hstep
              by_cases hturn : action = .turn
              · subst hturn
                obtain ⟨temple, wish, wishes, htemple, hwishes, rfl⟩ := Server.step_turn hserver
                exact .turn hhandler htemple hwishes
              · rw [CtrlC.beside_ne_turn hturn] at hhandler
                cases hhandler
                exact .server hturn hserver
        case h_2 => cases hstep
    | signal =>
        simp only at hstep
        split at hstep
        case h_1 hhandler =>
          cases hstep
          exact .signal hhandler
        case h_2 => cases hstep
    | getFilePath =>
        simp only at hstep
        split at hstep
        case h_1 temple hhandler htemple =>
          split at hstep
          case h_1 filePath hpath =>
            cases hstep
            exact .path hhandler htemple hpath
          case h_2 e hpath =>
            cases hstep
            exact .noPath hhandler htemple hpath
        case h_2 => cases hstep
    | sendSave =>
        simp only at hstep
        split at hstep
        case h_1 filePath hhandler =>
          cases hstep
          exact .sendSave hhandler
        case h_2 => cases hstep
    | save outcome =>
        simp only at hstep
        split at hstep
        case h_1 filePath temple hhandler htemple =>
          cases hstep
          exact .save outcome hhandler htemple rfl
        case h_2 => cases hstep
    | giveUp =>
        simp only at hstep
        split at hstep
        case h_1 command ahead hhandler htemple =>
          cases hstep
          exact .giveUp hhandler htemple
        case h_2 => cases hstep
    | sendExit =>
        simp only at hstep
        split at hstep
        case h_1 result hhandler =>
          cases hstep
          exact .sendExit hhandler
        case h_2 => cases hstep
    | exit =>
        simp only at hstep
        split at hstep
        case isTrue hexiting =>
          cases hstep
          exact .exit hexiting
        case isFalse => cases hstep

/-! ### One save -/

/-- Once the temple is gone, nothing is executed and nothing is saved. -/
theorem Takes.closed {action : Action} (h : Takes archive build streams p action p')
    (hclosed : p.server.temple = none) :
    p'.server.temple = none ∧ p'.server.executed = p.server.executed ∧ p'.files = p.files := by
  cases h with
  | server hne hserver =>
      have hqueues := Server.step_queues hne hserver
      exact ⟨hqueues.temple.trans hclosed, hqueues.executed, rfl⟩
  | turn hhandler htemple hwishes =>
      rw [hclosed] at htemple
      cases htemple
  | path hhandler htemple hpath => exact ⟨hclosed, rfl, rfl⟩
  | noPath hhandler htemple hpath => exact ⟨rfl, rfl, rfl⟩
  | save outcome hhandler htemple hsave =>
      rw [hclosed] at htemple
      cases htemple
  | _ => exact ⟨hclosed, rfl, rfl⟩

/-- What the handler and the file have to do with the temple `t` and the files of the start. -/
structure Keeps (archive : Archive Archived) (t : Temple) (files : Files) (p : Process) : Prop where
  living : ∀ temple, p.server.temple = some temple →
    p.files = files ∧ temple.config = t.config ∧
      Records Temple.turn t p.server.executed (some temple)
  path : ∀ filePath, p.handler.filePath? = some filePath →
    Heaven.getFilePath t.config = .ok filePath
  /-- The file got the store after the executed wishes. -/
  saved : ∀ result, p.handler = .done (some result) → p.server.temple = none ∧
    ∃ temple outcome, Records Temple.turn t p.server.executed (some temple) ∧
      (p.files, result) = shutdown archive t.config temple.soul files outcome

theorem keeps_start (ioThreads : ℕ) (dir dbfilename : Bytes) (config : Config) (files : Files) :
    Keeps archive { Temple.worship config with soul := loadSnapshot archive dir dbfilename files }
      files (start archive ioThreads dir dbfilename config files) where
  living := by
    rintro _ ⟨⟩
    exact ⟨rfl, rfl, records_nil _ _⟩
  path := fun _ h => by cases h
  saved := fun _ h => by cases h

/-- The step lemma. -/
theorem Keeps.step {t : Temple} {files : Files} {action : Action} (h : Keeps archive t files p)
    (hstep : Takes archive build streams p action p') : Keeps archive t files p' := by
  cases hstep with
  | server hne hserver =>
      have hqueues := Server.step_queues hne hserver
      refine ⟨?_, h.path, ?_⟩
      · intro temple htemple
        rw [hqueues.executed]
        exact h.living temple (hqueues.temple ▸ htemple)
      · intro result hdone
        rw [hqueues.executed, hqueues.temple]
        exact h.saved result hdone
  | @turn handler temple wish wishes hhandler htemple hwishes =>
      obtain ⟨hfiles, hconfig, hrecords⟩ := h.living temple htemple
      refine ⟨?_, ?_, ?_⟩
      · intro temple' htemple'
        have hnext := (Server.serve_executed p.server temple wish wishes).2 temple' htemple'
        have hserved := Server.serve_records wish wishes hrecords
        simp only at htemple'
        rw [htemple'] at hserved
        refine ⟨hfiles, ?_, hserved⟩
        rw [hnext, Temple.turn_config, hconfig]
      · intro filePath hpath
        apply h.path
        rwa [CtrlC.filePath?_beside hhandler] at hpath
      · intro result hdone
        have hdone' : handler = .done (some result) := hdone
        rw [hdone'] at hhandler
        have hgone := (h.saved result (CtrlC.beside_done hhandler)).1
        rw [htemple] at hgone
        cases hgone
  | signal hhandler => exact ⟨h.living, (fun _ h => by cases h), (fun _ h => by cases h)⟩
  | @path temple filePath hhandler htemple hpath =>
      refine ⟨h.living, ?_, (fun _ h => by cases h)⟩
      rintro filePath' ⟨⟩
      rw [← (h.living temple htemple).2.1, hpath]
  | noPath hhandler htemple hpath =>
      exact ⟨(fun _ h => by cases h), (fun _ h => by cases h), (fun _ h => by cases h)⟩
  | sendSave hhandler =>
      refine ⟨h.living, ?_, (fun _ h => by cases h)⟩
      rintro filePath' ⟨⟩
      exact h.path _ (by rw [hhandler]; rfl)
  | @save temple filePath files' result outcome hhandler htemple hsave =>
      refine ⟨(fun _ h => by cases h), (fun _ h => by cases h), ?_⟩
      rintro result' ⟨⟩
      obtain ⟨hfiles, -, hrecords⟩ := h.living temple htemple
      refine ⟨rfl, temple, outcome, hrecords, ?_⟩
      rw [shutdown, h.path filePath (by rw [hhandler]; rfl), ← hfiles]
      exact hsave.symm
  | giveUp hhandler htemple =>
      exact ⟨h.living, (fun _ h => by cases h), (fun _ h => by cases h)⟩
  | sendExit hhandler =>
      exact ⟨h.living, (fun _ h => by cases h), (fun _ h => by cases h)⟩
  | exit hexiting => exact ⟨h.living, h.path, h.saved⟩

/-! ### What the save covers -/

/-- The wishes have been executed, or will be before the handler's command. -/
structure Covers (sent : List Wish) (p : Process) : Prop where
  living : ∀ temple, p.server.temple = some temple → ∃ ahead, p.handler.ahead? = some ahead ∧
    sent <+: p.server.executed.map Prod.fst ++ p.server.wishes.take ahead
  saved : ∀ result, p.handler = .done (some result) →
    p.server.temple = none ∧ sent <+: p.server.executed.map Prod.fst

theorem covers_signal (hstep : Takes archive build streams p .signal p') :
    Covers p.server.sent p' := by
  cases hstep
  refine ⟨?_, (fun _ h => by cases h)⟩
  intro temple _
  refine ⟨_, rfl, ?_⟩
  rw [List.take_length]
  exact List.prefix_rfl

/-- The temple's turn brings the handler's command one place to the front. -/
theorem Covers.turn {sent : List Wish} (h : Covers sent p) {handler : CtrlC} {temple : Temple}
    {wish : Wish} {wishes : List Wish} (hhandler : p.handler.beside .turn = some handler)
    (htemple : p.server.temple = some temple) (hwishes : p.server.wishes = wish :: wishes) :
    Covers sent { p with server := p.server.serve temple wish wishes, handler } := by
  obtain ⟨ahead, hahead, hsent⟩ := h.living temple htemple
  have hmap : (p.server.serve temple wish wishes).executed.map Prod.fst =
      p.server.executed.map Prod.fst ++ [wish] := by
    rw [(Server.serve_executed p.server temple wish wishes).1, List.map_append]
    rfl
  have hqueue := Server.serve_wishes p.server temple wish wishes
  refine ⟨?_, ?_⟩
  · intro temple' _
    refine ⟨ahead - 1, ?_, ?_⟩
    · rw [CtrlC.ahead?_beside hhandler, hahead]
      rfl
    · simp only [hmap, hqueue]
      rw [hwishes] at hsent
      cases ahead with
      | zero =>
          rw [List.take_zero, List.append_nil] at hsent
          rw [List.append_assoc]
          exact hsent.trans (List.prefix_append _ _)
      | succ ahead =>
          rw [List.take_succ_cons] at hsent
          rw [List.append_assoc]
          exact hsent
  · intro result hdone
    have hdone' : handler = .done (some result) := hdone
    rw [hdone'] at hhandler
    rw [CtrlC.beside_done hhandler] at hahead
    cases hahead

/-- The step lemma. -/
theorem Covers.step {sent : List Wish} {action : Action} (h : Covers sent p)
    (hstep : Takes archive build streams p action p') : Covers sent p' := by
  cases hstep with
  | server hne hserver =>
      obtain ⟨hexecuted, htemple, hwishes⟩ := Server.step_queues hne hserver
      refine ⟨?_, ?_⟩
      · intro temple htemple'
        obtain ⟨ahead, hahead, hsent⟩ := h.living temple (htemple ▸ htemple')
        refine ⟨ahead, hahead, hsent.trans ?_⟩
        rw [hexecuted, List.prefix_append_right_inj]
        exact hwishes.take ahead
      · intro result hdone
        rw [hexecuted, htemple]
        exact h.saved result hdone
  | turn hhandler htemple hwishes => exact h.turn hhandler htemple hwishes
  | signal hhandler =>
      refine ⟨?_, (fun _ h => by cases h)⟩
      intro temple htemple
      obtain ⟨ahead, hahead, -⟩ := h.living temple htemple
      rw [hhandler] at hahead
      cases hahead
  | @path temple filePath hhandler htemple hpath =>
      refine ⟨?_, (fun _ h => by cases h)⟩
      intro temple htemple
      obtain ⟨ahead, hahead, hsent⟩ := h.living temple htemple
      rw [hhandler] at hahead
      exact ⟨ahead, hahead, hsent⟩
  | noPath hhandler htemple hpath => exact ⟨(fun _ h => by cases h), (fun _ h => by cases h)⟩
  | sendSave hhandler =>
      refine ⟨?_, (fun _ h => by cases h)⟩
      intro temple htemple
      obtain ⟨ahead, hahead, hsent⟩ := h.living temple htemple
      rw [hhandler] at hahead
      cases hahead
      rw [List.take_zero, List.append_nil] at hsent
      exact ⟨_, rfl, hsent.trans (List.prefix_append _ _)⟩
  | @save temple filePath files' result outcome hhandler htemple hsave =>
      refine ⟨(fun _ h => by cases h), ?_⟩
      rintro result' ⟨⟩
      obtain ⟨ahead, hahead, hsent⟩ := h.living temple htemple
      rw [hhandler] at hahead
      cases hahead
      rw [List.take_zero, List.append_nil] at hsent
      exact ⟨rfl, hsent⟩
  | giveUp hhandler htemple =>
      refine ⟨?_, (fun _ h => by cases h)⟩
      intro temple htemple'
      rw [htemple] at htemple'
      cases htemple'
  | sendExit hhandler =>
      refine ⟨?_, (fun _ h => by cases h)⟩
      intro temple htemple
      obtain ⟨ahead, hahead, -⟩ := h.living temple htemple
      rw [hhandler] at hahead
      cases hahead
  | exit hexiting => exact ⟨h.living, h.saved⟩

/-! ### Runs -/

section Start

variable {ioThreads : ℕ} {dir dbfilename ipv4Address port threads eventCapacity maxMemory
  appendOnly : Bytes} {files : Files} {actions more later : List Action} {q r : Process}

theorem closed_run (hrun : Run (step archive build streams) p actions p')
    (hclosed : p.server.temple = none) :
    p'.server.temple = none ∧ p'.server.executed = p.server.executed ∧ p'.files = p.files := by
  apply hrun.invariant (I := fun p' => p'.server.temple = none ∧
    p'.server.executed = p.server.executed ∧ p'.files = p.files) (P := fun _ => True) _
    (fun _ _ => trivial) ⟨hclosed, rfl, rfl⟩
  rintro s action s' - ⟨hgone, hexecuted, hfiles⟩ hstep
  obtain ⟨hgone', hexecuted', hfiles'⟩ := (step_takes hstep).closed hgone
  exact ⟨hgone', hexecuted'.trans hexecuted, hfiles'.trans hfiles⟩

theorem keeps_run {t : Temple} (h : Keeps archive t files p)
    (hrun : Run (step archive build streams) p actions p') : Keeps archive t files p' :=
  hrun.invariant (P := fun _ => True) (fun _ _ _ _ h hstep => h.step (step_takes hstep))
    (fun _ _ => trivial) h

theorem covers_run {sent : List Wish} (h : Covers sent p)
    (hrun : Run (step archive build streams) p actions p') : Covers sent p' :=
  hrun.invariant (P := fun _ => True) (fun _ _ _ _ h hstep => h.step (step_takes hstep))
    (fun _ _ => trivial) h

/-- A save that succeeds has written the file. -/
theorem outcome_of_ok {config : Config} {soul : Soul} {outcome : SaveOutcome}
    (h : (shutdown archive config soul files outcome).2 = .ok ()) : outcome = .write .success := by
  unfold shutdown at h
  split at h
  case h_1 filePath _ =>
    rcases outcome with _ | _ | written | _
    · cases h
    · cases h
    · cases h
    · rfl
  case h_2 => cases h

/-- What the handler's result says of the file, then and later. -/
theorem saved_run {result : Except ServerError Unit}
    (hrun : Run (step archive build streams) (start archive ioThreads dir dbfilename
      (initializeConfig dir dbfilename ipv4Address port threads eventCapacity maxMemory appendOnly)
      files) actions q)
    (hdone : q.handler = .done (some result))
    (hlater : Run (step archive build streams) q later r) :
    let config :=
      initializeConfig dir dbfilename ipv4Address port threads eventCapacity maxMemory appendOnly
    let soul := loadSnapshot archive dir dbfilename files
    ∃ temple outcome,
      Records Temple.turn { Temple.worship config with soul } q.server.executed (some temple) ∧
      r.server.executed = q.server.executed ∧
      (r.files, result) = shutdown archive config temple.soul files outcome ∧
      (result = .ok () → archive.decode (archive.toBytes temple.soul) = some temple.soul →
        loadSnapshot archive dir dbfilename r.files = temple.soul) := by
  intro config soul
  have hkeeps := keeps_run (keeps_start ioThreads dir dbfilename config files) hrun
  obtain ⟨hgone, temple, outcome, hrecords, hsaved⟩ := hkeeps.saved result hdone
  obtain ⟨-, hexecuted, hfiles⟩ := closed_run hlater hgone
  rw [← hfiles] at hsaved
  refine ⟨temple, outcome, hrecords, hexecuted, hsaved, ?_⟩
  rintro rfl hdecodes
  have hwritten : r.files = (shutdown archive config temple.soul files outcome).1 :=
    congrArg Prod.fst hsaved
  have houtcome : outcome = .write .success := outcome_of_ok (congrArg Prod.snd hsaved).symm
  rw [hwritten, houtcome, loadSnapshot_success hdecodes]

/-- **A save is a snapshot of one time.**  When the handler has got the result of the save, the file
has been written once, with the store after the wishes executed until then; among these are all
wishes sent before the signal.  Nothing is executed later, and the file is left alone. -/
theorem shutdown_durable {result : Except ServerError Unit}
    (hrun : Run (step archive build streams) (start archive ioThreads dir dbfilename
      (initializeConfig dir dbfilename ipv4Address port threads eventCapacity maxMemory appendOnly)
      files) actions p)
    (hsignal : Run (step archive build streams) p (.signal :: more) q)
    (hdone : q.handler = .done (some result))
    (hlater : Run (step archive build streams) q later r) :
    let config :=
      initializeConfig dir dbfilename ipv4Address port threads eventCapacity maxMemory appendOnly
    let soul := loadSnapshot archive dir dbfilename files
    p.server.sent <+: q.server.executed.map Prod.fst ∧
    ∃ temple outcome,
      Records Temple.turn { Temple.worship config with soul } q.server.executed (some temple) ∧
      r.server.executed = q.server.executed ∧
      (r.files, result) = shutdown archive config temple.soul files outcome ∧
      (result = .ok () → archive.decode (archive.toBytes temple.soul) = some temple.soul →
        loadSnapshot archive dir dbfilename r.files = temple.soul) := by
  intro config soul
  have hcovers : Covers p.server.sent q := by
    cases hsignal with
    | cons hstep hrest => exact covers_run (covers_signal (step_takes hstep)) hrest
  exact ⟨(hcovers.saved result hdone).2, saved_run (hrun.append hsignal) hdone hlater⟩

/-- Client 1 sends SET a 1. -/
def setA : Request := ⟨[ascii "SET", ascii "a", ascii "1"], List.cons_ne_nil _ _⟩

def setsA (token : Token) : TcpStream :=
  if token = 1 then Server.asStream (encodeAll [setA]) else []

/-- The file is d/f, and there is none yet. -/
def configDF : Config := initializeConfig (ascii "d") (ascii "f") [] [] [] [] [] []

def startDF : Process := start archiveAB 1 (ascii "d") (ascii "f") configDF Dict.empty

def templeDF : Temple :=
  { Temple.worship configDF with soul := loadSnapshot archiveAB (ascii "d") (ascii "f") Dict.empty }

/-- The wish is sent. -/
def beforeSignal : List Action :=
  [.server .accept, .server (.ready 1), .server (.pick 0)] ++
    List.replicate 13 (.server (.sing 0 .unixEpoch))

/-- The wish comes before the handler's commands. -/
def signalAndSave : List Action :=
  [.signal, .server .turn, .getFilePath, .sendSave, .save (.write .success)]

theorem exists_saveA :
    ∃ p q, Run (step archiveAB .release setsA) startDF beforeSignal p ∧
      Run (step archiveAB .release setsA) p signalAndSave q ∧
      q.handler = .done (some (.ok ())) ∧ p.server.sent.length = 1 ∧ q.exited = false ∧
      ∀ temple, Records Temple.turn templeDF q.server.executed (some temple) →
        temple.soul = storeA := by
  obtain ⟨p, q, hrun, hsignal, hseen⟩ := exists_runs startDF beforeSignal signalAndSave
    (fun p q : Process => decide (p.server.sent.length = 1) &&
      decide (q.handler = .done (some (.ok ()))) && decide (q.exited = false) &&
      decide ((serveAll Temple.turn templeDF (q.server.executed.map Prod.fst)).1.map
        Temple.soul = some storeA))
    (by decide +kernel : ((runAll (step archiveAB .release setsA) _ _).bind fun p =>
      (runAll (step archiveAB .release setsA) p _).map _) = .ok true)
  simp only [Bool.and_eq_true, decide_eq_true_eq] at hseen
  obtain ⟨⟨⟨hsent, hdone⟩, hlive⟩, hstore⟩ := hseen
  refine ⟨p, q, hrun, hsignal, hdone, hsent, hlive, ?_⟩
  intro temple hrecords
  rw [congrArg Prod.fst hrecords] at hstore
  exact Option.some.inj hstore

/-- The store with SET a 1 is in the file. -/
theorem shutdown_durable_setA :
    ∃ p q, Run (step archiveAB .release setsA) startDF beforeSignal p ∧
      Run (step archiveAB .release setsA) p signalAndSave q ∧
      p.server.sent <+: q.server.executed.map Prod.fst ∧ p.server.sent.length = 1 ∧
      loadSnapshot archiveAB (ascii "d") (ascii "f") q.files = storeA := by
  obtain ⟨p, q, hrun, hsignal, hdone, hsent, -, hstore⟩ := exists_saveA
  obtain ⟨hall, temple, outcome, hrecords, -, -, hload⟩ :=
    shutdown_durable hrun hsignal hdone (.nil q)
  have hsoul := hstore temple hrecords
  refine ⟨p, q, hrun, hsignal, hall, hsent, ?_⟩
  rw [hload rfl (archiveAB_faithful (.inl hsoul)).decodes, hsoul]

end Start

/-! ### The end of the process -/

/-- A step of the temple, of the handler, or the last one of the server loop. -/
def Action.Own : Action → Prop
  | .server action => action = .turn
  | .signal => False
  | _ => True

theorem Takes.step_eq {action : Action} (h : Takes archive build streams p action p')
    (hlive : p.exited = false) : step archive build streams p action = .ok p' := by
  unfold Process.step
  cases h with
  | server hne hserver => simp [hlive, CtrlC.beside_ne_turn hne, hserver, Except.map]
  | turn hhandler htemple hwishes =>
      simp [hlive, hhandler, Server.step, htemple, hwishes, Except.map]
  | signal hhandler => simp [hlive, hhandler]
  | path hhandler htemple hpath => simp [hlive, hhandler, htemple, hpath]
  | noPath hhandler htemple hpath => simp [hlive, hhandler, htemple, hpath]
  | sendSave hhandler => simp [hlive, hhandler]
  | save outcome hhandler htemple hsave => simp [hlive, hhandler, htemple, hsave]
  | giveUp hhandler htemple => simp [hlive, hhandler, htemple]
  | sendExit hhandler => simp [hlive, hhandler]
  | exit hexiting => simp [hlive, hexiting]

/-- The process can come to its end in so many own steps. -/
def Ends (archive : Archive Archived) (build : Build) (streams : Token → TcpStream) (p : Process)
    (n : ℕ) : Prop :=
  ∃ more q, (∀ action ∈ more, action.Own) ∧ more.length ≤ n ∧
    Run (step archive build streams) p more q ∧ q.exited = true

theorem Ends.before {action : Action} {n : ℕ} (h : Ends archive build streams p' n)
    (htakes : Takes archive build streams p action p') (hlive : p.exited = false)
    (hown : action.Own) : Ends archive build streams p (n + 1) := by
  obtain ⟨more, q, hmore, hlength, hrun, hexited⟩ := h
  refine ⟨action :: more, q, ?_, Nat.succ_le_succ hlength, .cons (htakes.step_eq hlive) hrun,
    hexited⟩
  rw [List.forall_mem_cons]
  exact ⟨hown, hmore⟩

theorem Ends.mono {n m : ℕ} (h : Ends archive build streams p n) (hle : n ≤ m) :
    Ends archive build streams p m := by
  obtain ⟨more, q, hmore, hlength, hrun, hexited⟩ := h
  exact ⟨more, q, hmore, hlength.trans hle, hrun, hexited⟩

/-- The wishes in front of the handler's command are in the channel. -/
def Queued (p : Process) : Prop :=
  ∀ ahead, p.handler.ahead? = some ahead → ahead ≤ p.server.wishes.length

theorem ends_exiting (hlive : p.exited = false) (hexiting : p.exiting = true) :
    Ends archive build streams p 1 := by
  have hend : Ends archive build streams { p with exited := true } 0 :=
    ⟨[], _, (fun _ h => by cases h), Nat.le_refl 0, .nil _, rfl⟩
  exact hend.before (.exit hexiting) hlive trivial

theorem ends_done {result : Option (Except ServerError Unit)} (hlive : p.exited = false)
    (hhandler : p.handler = .done result) : Ends archive build streams p 2 :=
  (ends_exiting (p := { p with handler := .waiting, exiting := true }) hlive rfl).before
    (.sendExit hhandler) hlive trivial

theorem ends_gone {command : ServerCommand} {ahead : ℕ} (hlive : p.exited = false)
    (hhandler : p.handler = .asked command ahead) (htemple : p.server.temple = none) :
    Ends archive build streams p 3 :=
  (ends_done (p := { p with handler := .done none }) hlive rfl).before
    (.giveUp hhandler htemple) hlive trivial

/-- The temple takes the wishes in front of a command. -/
theorem ends_behind {command : ServerCommand} {n : ℕ} (hn : 3 ≤ n)
    (hnext : ∀ p : Process, p.exited = false → p.handler = .asked command 0 →
      p.server.temple ≠ none → Ends archive build streams p (p.server.wishes.length + n))
    {ahead : ℕ} (hlive : p.exited = false) (hhandler : p.handler = .asked command ahead)
    (hahead : ahead ≤ p.server.wishes.length) :
    Ends archive build streams p (p.server.wishes.length + n) := by
  induction ahead generalizing p with
  | zero =>
      by_cases htemple : p.server.temple = none
      · exact (ends_gone hlive hhandler htemple).mono (by omega)
      · exact hnext p hlive hhandler htemple
  | succ ahead ih =>
      cases htemple : p.server.temple with
      | none => exact (ends_gone hlive hhandler htemple).mono (by omega)
      | some temple =>
          cases hwishes : p.server.wishes with
          | nil =>
              rw [hwishes] at hahead
              cases hahead
          | cons wish wishes =>
              rw [hwishes, List.length_cons] at hahead
              have hrest := Server.serve_wishes p.server temple wish wishes
              have hbeside : p.handler.beside .turn = some (.asked command ahead) := by
                rw [hhandler]
                rfl
              have hend := ih (p := { p with
                  server := p.server.serve temple wish wishes
                  handler := .asked command ahead }) hlive rfl
                (by rw [hrest]; omega)
              rw [hrest] at hend
              have hmore := hend.before (.turn hbeside htemple hwishes) hlive rfl
              rw [List.length_cons]
              exact hmore.mono (by omega)

theorem ends_save {filePath : Bytes} (hlive : p.exited = false)
    (hhandler : p.handler = .asked (.save filePath) 0) (htemple : p.server.temple ≠ none) :
    Ends archive build streams p (p.server.wishes.length + 3) := by
  obtain ⟨temple, htemple⟩ := Option.ne_none_iff_exists'.mp htemple
  cases hsave : temple.soul.save archive filePath p.files (.write .success) with
  | mk files result =>
      have hend : Ends archive build streams { p with
          files, handler := .done (some result), server := p.server.endTemple } 2 :=
        ends_done hlive rfl
      have hmore := hend.before (.save (.write .success) hhandler htemple hsave) hlive trivial
      exact hmore.mono (by omega)

theorem ends_path {filePath : Bytes} (hlive : p.exited = false)
    (hhandler : p.handler = .hasPath filePath) :
    Ends archive build streams p (p.server.wishes.length + 4) := by
  have hend : Ends archive build streams
      { p with handler := .asked (.save filePath) p.server.wishes.length }
      (p.server.wishes.length + 3) :=
    ends_behind (p := { p with handler := _ }) le_rfl
      (fun p hlive hhandler htemple => ends_save hlive hhandler htemple) hlive rfl le_rfl
  exact hend.before (.sendSave hhandler) hlive trivial

theorem ends_getFilePath (hlive : p.exited = false)
    (hhandler : p.handler = .asked .getFilePath 0) (htemple : p.server.temple ≠ none) :
    Ends archive build streams p (p.server.wishes.length + 5) := by
  obtain ⟨temple, htemple⟩ := Option.ne_none_iff_exists'.mp htemple
  cases hpath : Heaven.getFilePath temple.config with
  | error e =>
      have hend : Ends archive build streams
          { p with handler := .done none, server := p.server.endTemple } 2 :=
        ends_done hlive rfl
      have hmore := hend.before (.noPath hhandler htemple hpath) hlive trivial
      exact hmore.mono (by omega)
  | ok filePath =>
      exact (ends_path (p := { p with handler := .hasPath filePath }) hlive rfl).before
        (.path hhandler htemple hpath) hlive trivial

/-- The step lemma. -/
theorem Queued.step {action : Action} (h : Queued p)
    (hstep : Takes archive build streams p action p') : Queued p' := by
  intro ahead hahead
  cases hstep with
  | server hne hserver =>
      exact (h ahead hahead).trans (Server.step_queues hne hserver).wishes.length_le
  | @turn handler temple wish wishes hhandler htemple hwishes =>
      simp only at hahead
      rw [CtrlC.ahead?_beside hhandler, Option.map_eq_some_iff] at hahead
      obtain ⟨before, hbefore, rfl⟩ := hahead
      have hle := h before hbefore
      rw [hwishes, List.length_cons] at hle
      simp only [Server.serve_wishes]
      omega
  | signal hhandler =>
      cases hahead
      exact le_rfl
  | path hhandler htemple hpath =>
      cases hahead
      exact Nat.zero_le _
  | noPath hhandler htemple hpath => cases hahead
  | sendSave hhandler =>
      cases hahead
      exact le_rfl
  | save outcome hhandler htemple hsave => cases hahead
  | giveUp hhandler htemple => cases hahead
  | sendExit hhandler => cases hahead
  | exit hexiting => exact h ahead hahead

/-- **The handler always comes to the end of the process**: in any state after the signal there are
steps of the temple, of the handler and at last of the server loop that end it, and they are only a
few more than the wishes that are queued. -/
theorem shutdown_ends {ioThreads : ℕ} {dir dbfilename : Bytes} {config : Config} {files : Files}
    {actions : List Action}
    (hrun : Run (step archive build streams) (start archive ioThreads dir dbfilename config files)
      actions p)
    (hsignal : p.handler ≠ .waiting ∨ p.exiting = true) (hlive : p.exited = false) :
    ∃ more q, (∀ action ∈ more, action.Own) ∧ more.length ≤ p.server.wishes.length + 5 ∧
      Run (step archive build streams) p more q ∧ q.exited = true := by
  have hqueued : Queued p :=
    hrun.invariant (P := fun _ => True) (fun _ _ _ _ h hstep => h.step (step_takes hstep))
      (fun _ _ => trivial) (fun _ h => by cases h)
  have hends : Ends archive build streams p (p.server.wishes.length + 5) := by
    cases hhandler : p.handler with
    | waiting =>
        obtain hne | hexiting := hsignal
        · exact absurd hhandler hne
        · exact (ends_exiting hlive hexiting).mono (by omega)
    | asked command ahead =>
        have hahead := hqueued ahead (by rw [hhandler]; rfl)
        cases command with
        | save filePath =>
            exact (ends_behind le_rfl (fun p hlive hhandler htemple =>
              ends_save hlive hhandler htemple) hlive hhandler hahead).mono (by omega)
        | getFilePath =>
            exact ends_behind (by omega) (fun p hlive hhandler htemple =>
              ends_getFilePath hlive hhandler htemple) hlive hhandler hahead
    | hasPath filePath => exact (ends_path hlive hhandler).mono (by omega)
    | done result => exact (ends_done hlive hhandler).mono (by omega)
  exact hends

/-- The signal ends the process. -/
theorem shutdown_ends_setA :
    ∃ p more q, Run (step archiveAB .release setsA) startDF (beforeSignal ++ [.signal]) p ∧
      more.length ≤ 6 ∧ Run (step archiveAB .release setsA) p more q ∧ q.exited = true := by
  obtain ⟨p, hrun, hseen⟩ := exists_run startDF (beforeSignal ++ [.signal])
    (fun p : Process => decide (p.handler ≠ .waiting) && decide (p.exited = false) &&
      decide (p.server.wishes.length = 1))
    (by decide +kernel : (runAll (step archiveAB .release setsA) _ _).map _ = .ok true)
  simp only [Bool.and_eq_true, decide_eq_true_eq] at hseen
  obtain ⟨⟨hsignal, hlive⟩, hwishes⟩ := hseen
  obtain ⟨more, q, -, hlength, hends, hexited⟩ := shutdown_ends hrun (.inl hsignal) hlive
  rw [hwishes] at hlength
  exact ⟨p, more, q, hrun, hlength, hends, hexited⟩

/-! ### Sessions -/

/-- Sessions of the server, each from the signal of a shutdown that succeeds to its exit, and what
each has executed.  Of the encoding it is assumed that it decodes to the store in question. -/
inductive Sessions (archive : Archive Archived) (dir dbfilename : Bytes) (config : Config) :
    Files → List (List (Wish × Except Panic Decree)) → Files → Prop
  | nil (files : Files) : Sessions archive dir dbfilename config files [] files
  | next {build : Build} {streams : Token → TcpStream} {ioThreads : ℕ} {files files' : Files}
      {actions later : List Action} {p q : Process}
      {logs : List (List (Wish × Except Panic Decree))}
      (hrun : Run (step archive build streams)
        (start archive ioThreads dir dbfilename config files) actions p)
      (hdone : p.handler = .done (some (.ok ())))
      (hlater : Run (step archive build streams) p later q) (hexited : q.exited = true)
      (hdecodes : ∀ temple, Records Temple.turn
        { Temple.worship config with soul := loadSnapshot archive dir dbfilename files }
        p.server.executed (some temple) →
          archive.decode (archive.toBytes temple.soul) = some temple.soul)
      (rest : Sessions archive dir dbfilename config q.files logs files') :
      Sessions archive dir dbfilename config files (q.server.executed :: logs) files'

/-- The executions are what comes of their wishes, on one store; each log begins without
subscribers. -/
inductive Replays (config : Config) :
    Soul → List (List (Wish × Except Panic Decree)) → Soul → Prop
  | nil (soul : Soul) : Replays config soul [] soul
  | next {soul soul' : Soul} {log : List (Wish × Except Panic Decree)} {temple : Temple}
      {logs : List (List (Wish × Except Panic Decree))}
      (h : Records Temple.turn { Temple.worship config with soul } log (some temple))
      (rest : Replays config temple.soul logs soul') : Replays config soul (log :: logs) soul'

/-- **Sessions that are shut down well carry on one store.** -/
theorem sessions_continue {dir dbfilename ipv4Address port threads eventCapacity maxMemory
    appendOnly : Bytes} {files files' : Files} {logs : List (List (Wish × Except Panic Decree))}
    (h : Sessions archive dir dbfilename
      (initializeConfig dir dbfilename ipv4Address port threads eventCapacity maxMemory appendOnly)
      files logs files') :
    Replays
      (initializeConfig dir dbfilename ipv4Address port threads eventCapacity maxMemory appendOnly)
      (loadSnapshot archive dir dbfilename files) logs
      (loadSnapshot archive dir dbfilename files') := by
  induction h with
  | nil files => exact .nil _
  | next hrun hdone hlater hexited hdecodes rest ih =>
      obtain ⟨temple, outcome, hrecords, hexecuted, -, hload⟩ := saved_run hrun hdone hlater
      rw [hload rfl (hdecodes temple hrecords)] at ih
      rw [hexecuted]
      exact .next hrecords ih

/-- One session, and its store is found by the next. -/
theorem sessions_continue_setA :
    ∃ log files', Sessions archiveAB (ascii "d") (ascii "f") configDF Dict.empty [log] files' ∧
      Replays configDF Soul.new [log] (loadSnapshot archiveAB (ascii "d") (ascii "f") files') := by
  obtain ⟨p, q, hrun, hsignal, hdone, -, hlive, hstore⟩ := exists_saveA
  obtain ⟨later, r, -, -, hlater, hexited⟩ :
      Ends archiveAB .release setsA q 2 := ends_done hlive hdone
  have hdecodes : ∀ temple, Records Temple.turn templeDF q.server.executed (some temple) →
      archiveAB.decode (archiveAB.toBytes temple.soul) = some temple.soul :=
    fun temple hrecords => (archiveAB_faithful (.inl (hstore temple hrecords))).decodes
  have hsession := Sessions.next (hrun.append hsignal) hdone hlater hexited hdecodes (.nil _)
  exact ⟨_, _, hsession, sessions_continue hsession⟩

end Process
end Heaven
