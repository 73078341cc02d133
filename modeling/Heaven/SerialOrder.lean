import Heaven.Asked
import Heaven.Channels
import Heaven.ExactlyOnce
import Heaven.Lib.Serial
import Heaven.Routes

/-! # One order for all clients

The temple is one object behind one queue.  What it has executed is what comes of the wishes when
they are executed one after the other (`Transition.records`), and the order in which they were sent
is the order in which they are executed (`Grows`).  So all clients can agree on one order of their
commands: it has the commands of each client in the order in which the client sent them, a command
that was executed before another was sent comes first, and each result is the one this order gives
(`linearizable`).  This holds whatever bytes the clients send. -/

namespace Heaven

open Runs
open Serial

/-- The command is one for the temple. -/
def Request.ToTemple (request : Request) : Prop := GoesToTemple request.val request.ne_nil

instance : DecidablePred Request.ToTemple := fun request =>
  inferInstanceAs (Decidable (GoesToTemple request.val request.ne_nil))

/-- At some time the command makes the wish, for the client. -/
def Makes (token : Token) (request : Request) (wish : Wish) : Prop :=
  ∃ clock, Emission.toTemple wish ∈ grant request.val request.ne_nil clock token

/-- The wishes are those of the commands for the temple, one for each. -/
theorem Prayed.makes {token : Token} {requests : List Request} {wishes : List Wish}
    (h : Prayed token requests wishes) :
    List.Forall₂ (Makes token) (requests.filter fun r => decide r.ToTemple) wishes := by
  induction h with
  | nil => exact .nil
  | @next requests wishes request clock h ih =>
      have hgoes := toTemple_iff request.val request.ne_nil clock token
      rw [List.filter_append]
      apply List.rel_append ih
      obtain hnone | ⟨wish, hone⟩ := wishesIn_grant request clock token
      · have hnot : ¬ request.ToTemple := by
          intro hto
          obtain ⟨wish, hwish⟩ := hgoes.mpr hto
          rw [← mem_wishesIn, hnone] at hwish
          cases hwish
        rw [hnone, List.filter_singleton, decide_eq_false hnot]
        exact .nil
      · have hwish : Emission.toTemple wish ∈ grant request.val request.ne_nil clock token := by
          rw [← mem_wishesIn, hone]
          exact List.mem_singleton.mpr rfl
        have hto : request.ToTemple := hgoes.mp ⟨wish, hwish⟩
        rw [hone, List.filter_singleton, decide_eq_true hto]
        exact .cons ⟨clock, hwish⟩ .nil

namespace Server

variable {build : Build} {streams : Token → TcpStream} {s s' : Server} {t : Temple}

/-! ### The queue -/

/-- Wishes are sent, and are executed, behind those of before. -/
structure Grows (s s' : Server) : Prop where
  executed : s.executed <+: s'.executed
  sent : s.sent <+: s'.sent

theorem Grows.refl (s : Server) : Grows s s := ⟨List.prefix_rfl, List.prefix_rfl⟩

theorem Grows.trans {s'' : Server} (h : Grows s s') (h' : Grows s' s'') : Grows s s'' :=
  ⟨h.executed.trans h'.executed, h.sent.trans h'.sent⟩

theorem SameTalk.sent (h : SameTalk s s') : s'.sent = s.sent := by
  rw [Server.sent, Server.sent, h.executed, h.wishes]

/-- The step lemma. -/
theorem Talks.grows (h : Talks s s') : Grows s s' := by
  cases h with
  | silent h => exact ⟨by rw [h.executed], by rw [h.sent]⟩
  | asks said h =>
      refine ⟨by rw [h.executed], ?_⟩
      rw [h.sent]
      simp only [Server.sent, ← List.append_assoc]
      exact List.prefix_append _ _
  | answers known h => exact ⟨by rw [h.executed], h.sent ▸ List.prefix_rfl⟩
  | welcomes h => exact ⟨by rw [h.executed], h.sent ▸ List.prefix_rfl⟩
  | parts known lost had h => exact ⟨by rw [h.executed], h.sent ▸ List.prefix_rfl⟩
  | @serves temple wish wishes htemple hwishes h =>
      subst h
      refine ⟨?_, by rw [sent_serve temple hwishes]⟩
      rw [(serve_executed s temple wish wishes).1]
      exact List.prefix_append _ _

/-! ### Runs -/

/-- What the messages of every run rest on. -/
theorem said_run {actions : List Action} (hrun : Run (step build streams) s actions s')
    (hs : s.Sound build streams) (hg : s.Genuine) : s'.Sound build streams ∧ s'.Genuine := by
  apply hrun.invariant (I := fun s => s.Sound build streams ∧ s.Genuine) (P := fun _ => True) _
    (fun _ _ => trivial) ⟨hs, hg⟩
  rintro s action s' - ⟨hs, hg⟩ hstep
  exact ⟨hs.step (step_transition hstep), hg.step (step_transition hstep)⟩

/-- **The run lemma for what the channels say.** -/
theorem talks_run {I : Server → Prop} (hI : ∀ s s', Talks s s' → I s → I s')
    {actions : List Action} (hrun : Run (step build streams) s actions s')
    (hs : s.Sound build streams) (hg : s.Genuine) (h : I s) : I s' := by
  have hall : s'.Sound build streams ∧ s'.Genuine ∧ I s' := by
    apply hrun.invariant (I := fun s => s.Sound build streams ∧ s.Genuine ∧ I s)
      (P := fun _ => True) _ (fun _ _ => trivial) ⟨hs, hg, h⟩
    rintro s action s' - ⟨hs, hg, h⟩ hstep
    have htransition := step_transition hstep
    exact ⟨hs.step htransition, hg.step htransition, hI s s' (htransition.talks hs hg) h⟩
  exact hall.2.2

theorem grows_run {actions : List Action} (hrun : Run (step build streams) s actions s')
    (hs : s.Sound build streams) (hg : s.Genuine) : Grows s s' :=
  talks_run (I := Grows s) (fun _ _ htalks h => h.trans htalks.grows) hrun hs hg (.refl s)

theorem serve_records {temple : Temple} (wish : Wish) (wishes : List Wish)
    (h : Records Temple.turn t s.executed (some temple)) :
    Records Temple.turn t (s.serve temple wish wishes).executed
      (s.serve temple wish wishes).temple := by
  unfold serve
  split
  case h_1 temple' decree hturn => exact h.ok hturn
  case h_2 temple' panic hturn => exact h.error hturn

/-- The step lemma. -/
theorem Talks.records (h : Talks s s') (hrecords : Records Temple.turn t s.executed s.temple) :
    Records Temple.turn t s'.executed s'.temple := by
  cases h with
  | silent h => rwa [h.executed, h.temple]
  | asks said h => rwa [h.executed, h.temple]
  | answers known h => rwa [h.executed, h.temple]
  | welcomes h => rwa [h.executed, h.temple]
  | parts known lost had h => rwa [h.executed, h.temple]
  | @serves temple wish wishes htemple hwishes h =>
      subst h
      rw [htemple] at hrecords
      exact serve_records wish wishes hrecords

section Start

variable {ioThreads : ℕ} {soul : Soul} {config : Config} {actions : List Action}
  (hrun : Run (step build streams) (start ioThreads soul config) actions s)

include hrun

theorem genuine_run : s.Genuine :=
  (said_run hrun (sound_start _ _ _ _ _) (genuine_start _ _ _)).2

/-- **What the temple has executed is what comes of the wishes, one after the other.** -/
theorem records_run : Records Temple.turn { Temple.worship config with soul } s.executed s.temple :=
  talks_run (I := fun s => Records Temple.turn _ s.executed s.temple)
    (fun _ _ htalks h => htalks.records h) hrun (sound_start _ _ _ _ _) (genuine_start _ _ _)
    (records_nil _ _)

end Start

/-! ### The order -/

/-- The executions are those of the commands, in the order of the list. -/
def Executes (order : List (Token × Request)) (executed : List (Wish × Except Panic Decree)) :
    Prop :=
  List.Forall₂ (fun p e => e.1.token = p.1 ∧ Makes p.1 p.2 e.1) order executed

/-- The commands of a client. -/
def commandsOf (token : Token) (order : List (Token × Request)) : List Request :=
  (order.filter fun p => decide (p.1 = token)).map Prod.snd

/-- What the temple has executed comes from what the clients ask for. -/
theorem Sound.makes_of_executed (h : s.Sound build streams)
    {e : Wish × Except Panic Decree} (hmem : e ∈ s.executed) :
    ∃ request ∈ asked (streams e.1.token).payload, Makes e.1.token request e.1 := by
  obtain ⟨done, hdone, hprayed⟩ := h.executed_asked e.1.token
  have hexecuted : e.1 ∈ s.executedBy e.1.token := by
    rw [executedBy, List.mem_filter]
    exact ⟨List.mem_map_of_mem hmem, decide_eq_true rfl⟩
  obtain ⟨request, hrequest, clock, hgrant⟩ := hprayed.mem hexecuted
  exact ⟨request, hdone.subset hrequest, clock, hgrant⟩

/-- Where each client's wishes come from its first commands, there is an order of the commands. -/
theorem exists_order {done : Token → List Request}
    (h : ∀ token, Prayed token (done token) (s.executedBy token)) :
    ∃ order, Executes order s.executed ∧
      ∀ token, commandsOf token order = (done token).filter fun r => decide r.ToTemple := by
  apply exists_interleaving (R := fun token request e => Makes token request e.1)
    fun e : Wish × Except Panic Decree => e.1.token
  intro token
  have hmakes := (h token).makes
  rw [executedBy, List.filter_map, List.forall₂_map_right_iff] at hmakes
  exact hmakes

/-- Who sends encodings of requests asks for no others. -/
theorem mem_of_asked_asStream {requests : List Request} {request : Request}
    (h : request ∈ asked (asStream (encodeAll requests)).payload) : request ∈ requests := by
  rw [payload_asStream] at h
  exact (asked_initial List.prefix_rfl).subset h

/-- **The server is linearizable.**  At any time there is one order of commands for the temple, with
the results of the commands executed one after the other in this order; each client's commands in it
are the first of those it asks for.  The answers are sent to egress in this order, and what has been
executed comes before what is sent later. -/
theorem linearizable {ioThreads : ℕ} {soul : Soul} {config : Config}
    {actions actions' : List Action}
    (hrun : Run (step build streams) (start ioThreads soul config) actions s)
    (hlater : Run (step build streams) s actions' s') :
    (∃ order, Executes order s'.executed ∧ ∀ token, commandsOf token order <+:
      (asked (streams token).payload).filter fun r => decide r.ToTemple) ∧
    Records Temple.turn { Temple.worship config with soul } s'.executed s'.temple ∧
    s'.answers.Sublist s'.decrees ∧
    ∀ i j, i < s.executed.length → s.sent.length ≤ j →
      i < j ∧ s'.executed[i]? = s.executed[i]? ∧ s'.sent[i]? = (s.executed[i]?).map Prod.fst := by
  have hall := hrun.append hlater
  refine ⟨?_, records_run hall, answers_run hall, ?_⟩
  · have hdone : ∀ token, ∃ done, done <+: asked (streams token).payload ∧
        Prayed token done (s'.executedBy token) := (sound_run hall).executed_asked
    choose done hinitial hprayed using hdone
    obtain ⟨order, hexecutes, horder⟩ := exists_order hprayed
    refine ⟨order, hexecutes, ?_⟩
    intro token
    rw [horder]
    exact (hinitial token).filter _
  · intro i j hi hj
    obtain ⟨⟨more, hmore⟩, ⟨later, hsent⟩⟩ := grows_run hlater (sound_run hrun) (genuine_run hrun)
    have hle : s.executed.length ≤ s.sent.length := by
      rw [sent, List.length_append, List.length_map]
      exact Nat.le_add_right _ _
    have hfront : i < (s.executed.map Prod.fst).length := by
      rw [List.length_map]
      exact hi
    refine ⟨by omega, ?_, ?_⟩
    · rw [← hmore, List.getElem?_append_left hi]
    · rw [← hsent, List.getElem?_append_left (by omega), sent, List.getElem?_append_left hfront,
        List.getElem?_map]

/-- Client 1 is served, and then client 2. -/
def oneThenTwo : List Action × List Action :=
  ([.accept, .accept, .ready 1, .pick 0] ++ singing 0 12 ++ [.collect, .turn],
    [.ready 2, .pick 0] ++ singing 0 12 ++ [.collect, .turn])

/-- INCR n of client 1 comes before that of client 2. -/
theorem linearizable_oneThenTwo :
    ∃ s s', Run (step .release fun token => asStream (encodeAll (bothIncr token)))
        (start 1 Soul.new ∅) oneThenTwo.1 s ∧
      Run (step .release fun token => asStream (encodeAll (bothIncr token))) s oneThenTwo.2 s' ∧
      s'.executed.length = 2 ∧ 0 < 1 ∧ s'.executed[0]? = s.executed[0]? := by
  let streams : Token → TcpStream := fun token => asStream (encodeAll (bothIncr token))
  obtain ⟨s, s', hrun, hlater, hseen⟩ := exists_runs (start 1 Soul.new ∅) oneThenTwo.1 oneThenTwo.2
    (fun s s' => decide (s.executed.length = 1) && decide (s.sent.length = 1) &&
      decide (s'.executed.length = 2))
    (by decide +kernel : ((runAll (step .release streams) _ _).bind fun s =>
      (runAll (step .release streams) s _).map _) = .ok true)
  simp only [Bool.and_eq_true, decide_eq_true_eq] at hseen
  obtain ⟨⟨hexecuted, hsent⟩, hboth⟩ := hseen
  obtain ⟨-, -, -, horder⟩ := linearizable hrun hlater
  obtain ⟨hlt, hsame, -⟩ := horder 0 1 (by omega) (by omega)
  exact ⟨s, s', hrun, hlater, hboth, hlt, hsame⟩

end Server
end Heaven
