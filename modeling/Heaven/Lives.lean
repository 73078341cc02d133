import Mathlib.Logic.Relation
import Heaven.Accepted
import Heaven.Receiving
import Heaven.Server

/-! # The life of a client

What the server does with one client, seen apart from all other clients: its pilgrim is in at most
one place (`Spot`), and its wishes are sent one after the other.  `Lives` is a step of such a life;
nothing in it depends on the scheduling of the others.

`Kept` is the invariant.  Between two calls of `wish` the pilgrim meets the discipline of its
connection, and the wishes that have been sent, with those that the song is about to send, are
those of the requests that have been granted (`Prayed`). -/

namespace Heaven

open Decimal (ascii)
open Loops (Jump)
open Relation (ReflTransGen)

/-! ### The wishes of requests -/

def Emission.wish? : Emission → Option Wish
  | .toTemple wish => some wish
  | .toEgress _ => none

def wishesIn (emissions : List Emission) : List Wish := emissions.filterMap Emission.wish?

/-- The wishes are those of the requests, granted one after the other, each at some time. -/
inductive Prayed (token : Token) : List Request → List Wish → Prop
  | nil : Prayed token [] []
  | next {requests : List Request} {wishes : List Wish} (request : Request) (clock : SystemTime)
      (h : Prayed token requests wishes) :
      Prayed token (requests ++ [request])
        (wishes ++ wishesIn (grant request.val request.property clock token))

variable {token : Token} {requests : List Request} {wishes : List Wish}

theorem wishesIn_append (emissions emissions' : List Emission) :
    wishesIn (emissions ++ emissions') = wishesIn emissions ++ wishesIn emissions' :=
  List.filterMap_append

theorem mem_wishesIn {emissions : List Emission} {wish : Wish} :
    wish ∈ wishesIn emissions ↔ Emission.toTemple wish ∈ emissions := by
  unfold wishesIn
  rw [List.mem_filterMap]
  constructor
  · rintro ⟨emission, hmem, hwish⟩
    cases emission with
    | toTemple w =>
        cases hwish
        exact hmem
    | toEgress decree => cases hwish
  · intro hmem
    exact ⟨_, hmem, rfl⟩

/-- A command makes at most one wish. -/
theorem wishesIn_grant (request : Request) (clock : SystemTime) (token : Token) :
    wishesIn (grant request.val request.property clock token) = [] ∨
      ∃ wish, wishesIn (grant request.val request.property clock token) = [wish] := by
  obtain ⟨rest, hrest, hgrant⟩ := grant_answers request.val request.property clock token
  have hfront : wishesIn (if MisusesLindex request.val request.property then
      Grant.incorrectNumberOfArguments token .lindex else []) = [] := by
    split_ifs <;> rfl
  rw [hgrant, wishesIn_append, hfront, List.nil_append]
  obtain ⟨response, rfl⟩ | ⟨command, -, rfl⟩ := hrest
  · exact .inl rfl
  · exact .inr ⟨_, rfl⟩

theorem emissionsFor_cons (token : Token) (clock : SystemTime) (request : Request)
    (more : List Request) :
    emissionsFor token clock (request :: more) =
      grant request.val request.property clock token ++ emissionsFor token clock more :=
  List.flatMap_cons

theorem Prayed.append (h : Prayed token requests wishes) (clock : SystemTime)
    (more : List Request) :
    Prayed token (requests ++ more) (wishes ++ wishesIn (emissionsFor token clock more)) := by
  induction more generalizing requests wishes with
  | nil =>
      show Prayed token (requests ++ []) (wishes ++ [])
      rw [List.append_nil, List.append_nil]
      exact h
  | cons request more ih =>
      have hrest := ih (h.next request clock)
      rw [emissionsFor_cons, wishesIn_append]
      simpa only [List.append_assoc, List.singleton_append] using hrest

/-- The first wishes are those of the first requests. -/
theorem Prayed.initial (h : Prayed token requests wishes) {first : List Wish}
    (hfirst : first <+: wishes) : ∃ done, done <+: requests ∧ Prayed token done first := by
  induction h generalizing first with
  | nil =>
      rw [List.prefix_nil.mp hfirst]
      exact ⟨[], List.prefix_rfl, .nil⟩
  | @next requests wishes request clock h ih =>
      have hless : first <+: wishes →
          ∃ done, done <+: requests ++ [request] ∧ Prayed token done first := by
        intro hfirst
        obtain ⟨done, hdone, hprayed⟩ := ih hfirst
        exact ⟨done, hdone.trans (List.prefix_append _ _), hprayed⟩
      obtain hnone | ⟨wish, hone⟩ := wishesIn_grant request clock token
      · rw [hnone, List.append_nil] at hfirst
        exact hless hfirst
      · rw [hone] at hfirst
        obtain rfl | hfirst := List.prefix_concat_iff.mp hfirst
        · refine ⟨requests ++ [request], List.prefix_rfl, ?_⟩
          rw [← hone]
          exact h.next request clock
        · exact hless hfirst

/-- A wish comes from one of the requests. -/
theorem Prayed.mem (h : Prayed token requests wishes) {wish : Wish} (hmem : wish ∈ wishes) :
    ∃ request ∈ requests, ∃ clock,
      Emission.toTemple wish ∈ grant request.val request.property clock token := by
  induction h with
  | nil => cases hmem
  | next request clock h ih =>
      rw [List.mem_append] at hmem
      obtain hmem | hmem := hmem
      · obtain ⟨request', hrequest, hgrant⟩ := ih hmem
        exact ⟨request', List.mem_append_left _ hrequest, hgrant⟩
      · exact ⟨request, List.mem_append_right _ List.mem_cons_self, clock, mem_wishesIn.mp hmem⟩

theorem wish_token_emissionsFor {clock : SystemTime} {wish : Wish}
    (h : wish ∈ wishesIn (emissionsFor token clock requests)) : wish.token = token := by
  obtain ⟨request, -, hmem⟩ := List.mem_flatMap.mp (mem_wishesIn.mp h)
  exact (mem_grant hmem).1

/-! ### Lives -/

/-- Where the pilgrim of a client is. -/
inductive Spot where
  | mapped (pilgrim : Pilgrim)
  | queued (pilgrim : Pilgrim)
  | sung (song : Song)
  | returned (pilgrim : Pilgrim)

/-- What there is of a client: its pilgrim, until it is lost, and the wishes sent for it. -/
structure Life where
  spot : Option Spot
  sent : List Wish

/-- The song has been handed everything that `wish` has to say. -/
def Stage.Ended : Stage → Prop
  | .exit _ _ => True
  | _ => False

/-- One step of the life of a client. -/
inductive Lives (build : Build) (stream : TcpStream) (token : Token) : Life → Life → Prop
  | accept : Lives build stream token ⟨none, []⟩ ⟨some (.mapped (.new stream)), []⟩
  | drop {pilgrim : Pilgrim} {sent : List Wish} :
      Lives build stream token ⟨some (.mapped pilgrim), sent⟩ ⟨none, sent⟩
  | ready {pilgrim : Pilgrim} {sent : List Wish} :
      Lives build stream token ⟨some (.mapped pilgrim), sent⟩ ⟨some (.queued pilgrim), sent⟩
  | pick {pilgrim : Pilgrim} {sent : List Wish} :
      Lives build stream token ⟨some (.queued pilgrim), sent⟩
        ⟨some (.sung ⟨token, .entry pilgrim, []⟩), sent⟩
  | send {stage : Stage} {emission : Emission} {outbox : List Emission} {sent : List Wish} :
      Lives build stream token ⟨some (.sung ⟨token, stage, emission :: outbox⟩), sent⟩
        ⟨some (.sung ⟨token, stage, outbox⟩), sent ++ wishesIn [emission]⟩
  | advance {stage : Stage} {song : Song} {sent : List Wish} (clock : SystemTime)
      (hstage : ¬ stage.Ended) (h : Song.advance build clock ⟨token, stage, []⟩ = .ok song) :
      Lives build stream token ⟨some (.sung ⟨token, stage, []⟩), sent⟩ ⟨some (.sung song), sent⟩
  | panic {stage : Stage} {panic : Panic} {sent : List Wish} (clock : SystemTime)
      (hstage : ¬ stage.Ended) (h : Song.advance build clock ⟨token, stage, []⟩ = .error panic) :
      Lives build stream token ⟨some (.sung ⟨token, stage, []⟩), sent⟩ ⟨none, sent⟩
  | finish {pilgrim : Pilgrim} {sent : List Wish} :
      Lives build stream token ⟨some (.sung ⟨token, .exit pilgrim (.ok ()), []⟩), sent⟩
        ⟨some (.returned pilgrim), sent⟩
  | goodbye {pilgrim : Pilgrim} {sin : Sin} {sent : List Wish} :
      Lives build stream token ⟨some (.sung ⟨token, .exit pilgrim (.error sin), []⟩), sent⟩
        ⟨none, sent⟩
  | collect {pilgrim : Pilgrim} {sent : List Wish} :
      Lives build stream token ⟨some (.returned pilgrim), sent⟩
        ⟨some (.mapped pilgrim), sent⟩

/-- The life that a client can have come to. -/
def Reached (build : Build) (stream : TcpStream) (token : Token) (life : Life) : Prop :=
  ReflTransGen (Lives build stream token) ⟨none, []⟩ life

/-! ### The invariant of a life -/

variable {build : Build}

/-- The pilgrim rests, and all its wishes have been sent. -/
structure AtRest (D : Discipline build requests) (token : Token) (sent : List Wish)
    (pilgrim : Pilgrim) : Prop where
  rest : D.rest pilgrim.worker
  prayed : Prayed token pilgrim.granted sent

def Stage.granted : Stage → List Request
  | .entry pilgrim => pilgrim.granted
  | .loop worker => worker.granted
  | .exit pilgrim _ => pilgrim.granted

/-- The stage is fit for its next step. -/
def Stage.Disciplined (D : Discipline build requests) : Stage → Prop
  | .entry pilgrim => D.rest pilgrim.worker
  | .loop worker => D.loop worker
  | .exit pilgrim (.ok ()) => D.rest pilgrim.worker
  | .exit _ (.error _) => D.mayFail

structure Singing (D : Discipline build requests) (token : Token) (sent : List Wish)
    (song : Song) : Prop where
  own : song.token = token
  stage : song.stage.Disciplined D
  granted : song.stage.granted <+: requests
  prayed : Prayed token song.stage.granted (sent ++ wishesIn song.outbox)

def Spot.Fits (D : Discipline build requests) (token : Token) (sent : List Wish) : Spot → Prop
  | .mapped pilgrim | .queued pilgrim | .returned pilgrim => AtRest D token sent pilgrim
  | .sung song => Singing D token sent song

/-- The wishes sent are those of the first requests, and the pilgrim is fit to go on. -/
structure Life.Kept (D : Discipline build requests) (token : Token) (life : Life) : Prop where
  account : ∃ done, done <+: requests ∧ Prayed token done life.sent
  fits : ∀ spot ∈ life.spot, spot.Fits D token life.sent

variable {D : Discipline build requests} {sent : List Wish} {stream : TcpStream}

theorem kept_atRest {spot : Spot} {pilgrim : Pilgrim} (h : AtRest D token sent pilgrim)
    (hspot : spot.Fits D token sent = AtRest D token sent pilgrim) :
    Life.Kept D token ⟨some spot, sent⟩ where
  account := ⟨pilgrim.granted, D.rest_granted _ h.rest, h.prayed⟩
  fits := by
    rintro _ ⟨⟩
    rw [hspot]
    exact h

theorem kept_singing {song : Song} (h : Singing D token sent song) :
    Life.Kept D token ⟨some (.sung song), sent⟩ where
  account := by
    obtain ⟨done, hdone, hprayed⟩ := h.prayed.initial (List.prefix_append _ _)
    exact ⟨done, hdone.trans h.granted, hprayed⟩
  fits := by
    rintro _ ⟨⟩
    exact h

theorem kept_lost {life : Life} (h : life.Kept D token) :
    Life.Kept D token ⟨none, life.sent⟩ where
  account := h.account
  fits := fun _ hspot => nomatch hspot

/-- A step of `wish` leaves a stage that is fit for its next step. -/
theorem disciplined_stage {worker : Worker} {jump : WishJump}
    (h : Continues D.rest D.loop D.mayFail worker jump) : (jump.stage worker).Disciplined D := by
  rcases jump with _ | ⟨_ | _⟩
  all_goals exact h

theorem granted_stage (worker : Worker) (jump : WishJump) :
    (jump.stage worker).granted = worker.granted := by
  rcases jump with _ | _ <;> rfl

theorem advance_entry {pilgrim : Pilgrim} {clock : SystemTime} {song : Song}
    (h : Song.advance build clock ⟨token, .entry pilgrim, []⟩ = .ok song) :
    ∃ worker jump, readMore build pilgrim.worker = .ok (worker, jump) ∧
      song = ⟨token, jump.stage worker, []⟩ := by
  have hmap : (readMore build pilgrim.worker).map _ = Except.ok song := h
  cases hread : readMore build pilgrim.worker with
  | error panic =>
      rw [hread] at hmap
      cases hmap
  | ok out =>
      rw [hread] at hmap
      cases hmap
      exact ⟨out.1, out.2, rfl, rfl⟩

theorem advance_loop {worker : Worker} {clock : SystemTime} {song : Song}
    (h : Song.advance build clock ⟨token, .loop worker, []⟩ = .ok song) :
    ∃ worker' jump, pass build worker = .ok (worker', jump) ∧
      song = ⟨token, jump.stage worker',
        emissionsFor token clock (worker'.granted.drop worker.granted.length)⟩ := by
  simp only [Song.advance] at h
  split at h
  case h_1 worker' jump hpass =>
    split_ifs at h
    cases h
    exact ⟨worker', jump, hpass, rfl⟩
  case h_2 => cases h

/-- A pass panics, or the handler of a request that it has granted. -/
theorem advance_panic {worker : Worker} {clock : SystemTime} {panic : Panic}
    (h : Song.advance build clock ⟨token, .loop worker, []⟩ = .error panic) :
    pass build worker = .error panic ∨
      ∃ worker' jump, pass build worker = .ok (worker', jump) ∧
        ∃ request ∈ worker'.granted, request.panics build clock = true := by
  simp only [Song.advance] at h
  split at h
  case h_1 worker' jump hpass =>
    split_ifs at h with hpanics
    obtain ⟨request, hrequest, hpanic⟩ := List.any_eq_true.mp hpanics
    exact .inr ⟨worker', jump, hpass, request, List.mem_of_mem_drop hrequest, hpanic⟩
  case h_2 panic' hpass =>
    cases h
    exact .inl hpass

theorem not_panics_release (clock : SystemTime) (request : Request) :
    request.panics .release clock = false := by
  obtain ⟨terms, h⟩ := request
  rw [Request.panics]
  cases Grant.expiryOf terms h with
  | none => rfl
  | some expiry =>
      rw [Option.any_some, addUsize]
      split_ifs <;> rfl

/-- In the first second there is room for any number of seconds. -/
theorem not_panics_unixEpoch (build : Build) (request : Request) :
    request.panics build .unixEpoch = false := by
  obtain ⟨terms, h⟩ := request
  rw [Request.panics]
  cases hexpiry : Grant.expiryOf terms h with
  | none => rfl
  | some expiry =>
      have hlt : SystemTime.unixEpoch.unixSecs + expiry < 2 ^ 64 := by
        rw [show SystemTime.unixEpoch.unixSecs = 0 from rfl, zero_add]
        exact expiryOf_lt hexpiry
      have hadd : addUsize build SystemTime.unixEpoch.unixSecs expiry = .ok _ := if_pos hlt
      rw [Option.any_some, hadd]
      rfl

/-- A second later there is not: EXPIRE k 18446744073709551615. -/
example : Request.panics .dev ⟨1, 0, by decide, by decide, by decide⟩
    ⟨[ascii "EXPIRE", ascii "k", ascii "18446744073709551615"], List.cons_ne_nil _ _⟩ = true := by
  decide

/-- A song that goes on keeps its token, and sends its wishes under it. -/
theorem advance_own {stage : Stage} {clock : SystemTime} {song : Song}
    (h : Song.advance build clock ⟨token, stage, []⟩ = .ok song) :
    song.token = token ∧ ∀ wish ∈ wishesIn song.outbox, wish.token = token := by
  cases stage with
  | entry pilgrim =>
      obtain ⟨worker, jump, -, rfl⟩ := advance_entry h
      exact ⟨rfl, fun _ hwish => nomatch hwish⟩
  | loop worker =>
      obtain ⟨worker', jump, -, rfl⟩ := advance_loop h
      exact ⟨rfl, fun _ hwish => wish_token_emissionsFor hwish⟩
  | exit pilgrim result =>
      cases h
      exact ⟨rfl, fun _ hwish => nomatch hwish⟩

/-- A song that goes on stays fit; what it has granted is what it is about to send. -/
theorem Singing.advance {stage : Stage} {song : Song} {clock : SystemTime}
    (h : Singing D token sent ⟨token, stage, []⟩) (hstage : ¬ stage.Ended)
    (hadvance : Song.advance build clock ⟨token, stage, []⟩ = .ok song) :
    Singing D token sent song := by
  have hprayed : Prayed token stage.granted sent := by
    simpa only [wishesIn, List.filterMap_nil, List.append_nil] using h.prayed
  cases stage with
  | entry pilgrim =>
      obtain ⟨worker, jump, hread, rfl⟩ := advance_entry hadvance
      obtain ⟨hsame, hnext⟩ := D.readMore _ _ _ h.stage hread
      have hgranted : (jump.stage worker).granted = pilgrim.granted := by
        rw [granted_stage, hsame]
        rfl
      refine ⟨rfl, disciplined_stage hnext, ?_, ?_⟩
      · rw [hgranted]
        exact h.granted
      · rw [hgranted]
        exact h.prayed
  | loop worker =>
      obtain ⟨worker', jump, hpass, rfl⟩ := advance_loop hadvance
      obtain ⟨hgrants, hnext⟩ := D.pass _ _ _ h.stage hpass
      refine ⟨rfl, disciplined_stage hnext, ?_, ?_⟩
      · rw [granted_stage]
        exact hgrants.initial
      · rw [granted_stage]
        obtain ⟨more, hmore⟩ := hgrants.more
        have hnew := hprayed.append clock more
        simp only [← hmore, List.drop_left]
        exact hnew
  | exit pilgrim result => exact absurd trivial hstage

/-- **A step of a life keeps it.** -/
theorem Life.Kept.step (hnew : D.rest (Pilgrim.new stream).worker) {life life' : Life}
    (h : life.Kept D token) (hstep : Lives build stream token life life') :
    life'.Kept D token := by
  cases hstep with
  | accept => exact kept_atRest ⟨hnew, .nil⟩ rfl
  | drop => exact kept_lost h
  | ready => exact kept_atRest (h.fits _ rfl) rfl
  | pick =>
      have hrest : AtRest D token _ _ := h.fits _ rfl
      refine kept_singing ⟨rfl, hrest.rest, D.rest_granted _ hrest.rest, ?_⟩
      show Prayed token _ (_ ++ [])
      rw [List.append_nil]
      exact hrest.prayed
  | send =>
      have hsong : Singing D token _ _ := h.fits _ rfl
      refine kept_singing ⟨rfl, hsong.stage, hsong.granted, ?_⟩
      rw [List.append_assoc, ← wishesIn_append]
      exact hsong.prayed
  | advance clock hstage hadvance => exact kept_singing ((h.fits _ rfl).advance hstage hadvance)
  | panic clock hstage hpanic => exact kept_lost h
  | finish =>
      have hsong : Singing D token _ _ := h.fits _ rfl
      refine kept_atRest ⟨hsong.stage, ?_⟩ rfl
      simpa only [wishesIn, List.filterMap_nil, List.append_nil, Stage.granted] using hsong.prayed
  | goodbye => exact kept_lost h
  | collect => exact kept_atRest (h.fits _ rfl) rfl

/-- **Every life is kept.** -/
theorem Reached.kept (hnew : D.rest (Pilgrim.new stream).worker) {life : Life}
    (h : Reached build stream token life) : life.Kept D token := by
  induction h with
  | refl => exact ⟨⟨[], List.nil_prefix, .nil⟩, fun _ hspot => nomatch hspot⟩
  | tail _ hstep ih => exact ih.step hnew hstep

end Heaven
