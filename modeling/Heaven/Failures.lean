import Heaven.Asked
import Heaven.ExactlyOnce
import Heaven.Lifecycle

/-! # Threads that are gone

A panic of a song takes its angel along, and nobody starts a new one.  Each angel that is gone has
been killed by another client: a client that announces a length to which 2 cannot be added, or in a
build with overflow checks asks for a deadline beyond 64 bits, whose pilgrim is lost, and to which
no goodbye is said (`one_angel_each`).  So a pool in which there are more angels than such clients
goes on singing. -/

namespace Heaven

open Decimal (ascii)
open Runs

def Angel.isGone : Angel → Bool
  | .gone => true
  | _ => false

namespace Server

variable {build : Build} {streams : Token → TcpStream} {s s' : Server}

/-- The number of angels that are gone. -/
def gone (s : Server) : ℕ := s.angels.countP Angel.isGone

/-- The client has made a worker panic, and it has been dropped without a word. -/
structure Killer (build : Build) (streams : Token → TcpStream) (s : Server) (token : Token) :
    Prop where
  known : s.Known token
  lost : s.holders token = 0
  unsaid : .goodbye token ∉ s.decrees
  kills : Kills build (streams token).payload

/-- Each angel that is gone has been killed by a client of its own. -/
def Killed (build : Build) (streams : Token → TcpStream) (s : Server) : Prop :=
  ∃ killers : Finset Token, killers.card = s.gone ∧
    ∀ token ∈ killers, s.Killer build streams token

theorem Killer.step {token : Token} (h : s.Killer build streams token) (hs : s.Sound build streams)
    (hg : s.Genuine) (hstep : Transition build streams s s') : s'.Killer build streams token where
  known := h.known.transition hstep
  lost := hstep.stays_lost hs h.known h.lost
  unsaid := (hstep.talks hs hg).no_goodbye h.lost h.unsaid
  kills := h.kills

/-- No step changes the number of angels. -/
theorem Transition.length_angels (hstep : Transition build streams s s') :
    s'.angels.length = s.angels.length := by
  cases hstep with
  | pick hangels hsongs => simp [hangels]
  | @send before after token stage emission outbox hangels =>
      rw [(post_rest _ emission).2]
      simp [hangels]
  | advance clock hangels hstage hadvance => simp [hangels]
  | panic clock hangels hstage hpanic => simp [hangels]
  | finish hangels => simp [hangels]
  | goodbye hangels => simp [hangels]
  | turn htemple hwishes => rw [(serve_rest s _ _ _).2]
  | _ => rfl

/-- Only a panic takes an angel. -/
theorem Transition.gone_eq (hstep : Transition build streams s s') :
    s'.gone = s.gone ∨ s'.gone = s.gone + 1 ∧ ∃ before after token stage clock panic,
      s.angels = before ++ .singing ⟨token, stage, []⟩ :: after ∧
      Song.advance build clock ⟨token, stage, []⟩ = .error panic ∧
      s' = { s with angels := before ++ .gone :: after } := by
  unfold gone
  cases hstep with
  | pick hangels hsongs => simp [hangels, Angel.isGone]
  | @send before after token stage emission outbox hangels =>
      left
      rw [(post_rest _ emission).2, hangels]
      simp [Angel.isGone]
  | advance clock hangels hstage hsong => simp [hangels, Angel.isGone]
  | @panic before after token stage panic clock hangels hstage hpanic =>
      right
      refine ⟨by simp [hangels, List.countP_cons, Angel.isGone]; omega, ?_⟩
      exact ⟨before, after, token, stage, clock, panic, hangels, hpanic, rfl⟩
  | finish hangels => simp [hangels, Angel.isGone]
  | goodbye hangels => simp [hangels, Angel.isGone]
  | turn htemple hwishes => rw [(serve_rest s _ _ _).2]; exact .inl rfl
  | _ => exact .inl rfl

/-- The step lemma. -/
theorem Killed.step (h : Killed build streams s) (hs : s.Sound build streams) (hg : s.Genuine)
    (hhistory : s.History) (hstep : Transition build streams s s') : Killed build streams s' := by
  obtain ⟨killers, hcard, hkillers⟩ := h
  have hkept : ∀ token ∈ killers, s'.Killer build streams token :=
    fun token hmem => (hkillers token hmem).step hs hg hstep
  obtain hsame | ⟨hone, before, after, token, stage, clock, panic, hangels, hpanic, rfl⟩ :=
    hstep.gone_eq
  · exact ⟨killers, hcard.trans hsame.symm, hkept⟩
  · -- the client of the song is a new killer
    have hmoves := moves_angel .gone hangels fun _ _ => rfl
    have hknown := hs.known_of_moves hmoves
    obtain ⟨life, -, hlife⟩ := hs.lives token
    obtain ⟨hspot, hlost⟩ := hmoves.of_toList hlife.spot
    have hheld : s.holders token ≠ 0 := by
      rw [hlife.spot, hspot]
      exact Multiset.singleton_ne_zero _
    have hkiller : Killer build streams { s with angels := before ++ .gone :: after } token :=
      ⟨hknown, hlost, fun hgoodbye => hheld (hhistory.parted token hgoodbye),
        hs.kills_of_panic hangels hpanic⟩
    have hnew : token ∉ killers := fun hmem => hheld (hkillers token hmem).lost
    refine ⟨killers.cons token hnew, ?_, ?_⟩
    · rw [Finset.card_cons, hcard, hone]
    · intro other hother
      obtain rfl | hmem := Finset.mem_cons.mp hother
      · exact hkiller
      · exact hkept other hmem

theorem killed_run {ioThreads : ℕ} {soul : Soul} {config : Config} {actions : List Action}
    (hrun : Run (step build streams) (start ioThreads soul config) actions s) :
    s.angels.length = ioThreads ∧ Killed build streams s := by
  have hstart : (start ioThreads soul config).angels.length = ioThreads :=
    List.length_replicate
  have hall := hrun.invariant (I := fun s => s.Sound build streams ∧ s.Genuine ∧ s.History ∧
    s.angels.length = ioThreads ∧ Killed build streams s) (P := fun _ => True) ?_
    (fun _ _ => trivial) ⟨sound_start _ _ _ _ _, genuine_start _ _ _, history_start _ _ _, hstart,
      ∅, ?_, fun _ hmem => by cases hmem⟩
  · exact hall.2.2.2
  · rintro s action s' - ⟨hs, hg, hhistory, hlength, hkilled⟩ hstep
    have htransition := step_transition hstep
    exact ⟨hs.step htransition, hg.step htransition, hhistory.step hs hg htransition,
      htransition.length_angels.trans hlength, hkilled.step hs hg hhistory htransition⟩
  · rw [Finset.card_empty, eq_comm, gone, List.countP_eq_zero]
    intro angel hangel
    rw [List.eq_of_mem_replicate hangel]
    decide

/-- Where fewer clients can make a worker panic than there are angels, an angel is left. -/
theorem angel_left {ioThreads : ℕ} {soul : Soul} {config : Config} {actions : List Action}
    {faulty : Finset Token}
    (hrun : Run (step build streams) (start ioThreads soul config) actions s)
    (hfaulty : ∀ token, s.Known token → Kills build (streams token).payload → token ∈ faulty)
    (hfew : faulty.card < ioThreads) : ∃ angel ∈ s.angels, angel.isGone = false := by
  obtain ⟨hlength, killers, hcard, hkillers⟩ := killed_run hrun
  have hsubset : killers ⊆ faulty :=
    fun token hmem => hfaulty token (hkillers token hmem).known (hkillers token hmem).kills
  have hle := Finset.card_le_card hsubset
  by_contra hnone
  have hall : s.gone = s.angels.length := by
    rw [gone, List.countP_eq_length]
    intro angel hangel
    by_contra hthere
    exact hnone ⟨angel, hangel, Bool.eq_false_of_not_eq_true hthere⟩
  omega

/-- **Each angel that is gone has been killed by another client.** -/
theorem one_angel_each {ioThreads : ℕ} {soul : Soul} {config : Config} {actions : List Action}
    (hrun : Run (step build streams) (start ioThreads soul config) actions s) :
    (∃ killers : Finset Token, killers.card = s.gone ∧
      ∀ token ∈ killers, s.Known token ∧ s.holders token = 0 ∧ .goodbye token ∉ s.decrees ∧
        Kills build (streams token).payload) ∧
    ∀ faulty : Finset Token,
      (∀ token, s.Known token → Kills build (streams token).payload → token ∈ faulty) →
        faulty.card < ioThreads → ∃ angel ∈ s.angels, angel.isGone = false := by
  obtain ⟨-, killers, hcard, hkillers⟩ := killed_run hrun
  refine ⟨⟨killers, hcard, ?_⟩, fun faulty => angel_left hrun⟩
  intro token hmem
  obtain ⟨hknown, hlost, hunsaid, hkills⟩ := hkillers token hmem
  exact ⟨hknown, hlost, hunsaid, hkills⟩

/-- Client 1 announces a length of 2 ^ 64 - 2. -/
def announcesHuge (token : Token) : TcpStream :=
  if token = 1 then asStream (ascii "*1\r\n$18446744073709551614\r\nx") else []

theorem not_announcesHuge_rest {token : Token} (hne : token ≠ 1) :
    ¬ AnnouncesHuge (announcesHuge token).payload := by
  have hnothing : ([] : Bytes) <+: encodeAll [] := List.nil_prefix
  rw [announcesHuge, if_neg hne]
  exact not_announcesHuge (fun _ hrequest => by cases hrequest) hnothing

/-- One of two angels is gone, and the other is not. -/
theorem one_angel_each_huge :
    ∃ s, Run (step .release announcesHuge) (start 2 Soul.new ∅)
        ([.accept, .ready 1, .pick 0] ++ singing 0 6) s ∧
      s.gone = 1 ∧ ∃ angel ∈ s.angels, angel.isGone = false := by
  obtain ⟨s, hrun, hseen⟩ := exists_run (start 2 Soul.new ∅)
    ([.accept, .ready 1, .pick 0] ++ singing 0 6) (fun s => decide (s.gone = 1))
    (by decide +kernel : (runAll (step .release announcesHuge) _ _).map _ = .ok true)
  obtain ⟨-, hleft⟩ := one_angel_each hrun
  refine ⟨s, hrun, of_decide_eq_true hseen, hleft {1} ?_ (by decide)⟩
  intro token _ hkills
  by_contra hnot
  apply not_announcesHuge_rest (fun heq => hnot (Finset.mem_singleton.mpr heq))
  exact kills_release.mp hkills

end Server
end Heaven
