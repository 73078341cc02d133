import Mathlib.Data.Multiset.OrderedMonoid
import Mathlib.Tactic.Abel
import Heaven.Lib.Custody
import Heaven.Lives

/-! # Every client lives its own life

`Server.Transition` is what a step of the server can do.  Each transition concerns at most one
client, and is a step of its life (`Transition.goes`): the pilgrim of the client is taken from the
one place where it is and put into another, and a wish is sent for the client only by the angel
that sings its song.  So in every state that a run reaches each client has come to a life of its
own (`sound_run`), and its pilgrim is in at most one place. -/

namespace Heaven

open Custody (found found_append found_cons found_nil Moves)
open Relation (ReflTransGen)
open Runs

/-! ### What a step can do -/

namespace Server

/-- A step of a party, with what the party has found. -/
inductive Transition (build : Build) (streams : Token → TcpStream) (s : Server) : Server → Prop
  | collect {token : Token} {pilgrim : Pilgrim} {returned : List (Token × Pilgrim)}
      (h : s.returned = (token, pilgrim) :: returned) :
      Transition build streams s
        { s with returned, ingressMap := s.ingressMap.insert token pilgrim }
  | notice (token : Token) :
      Transition build streams s { s with ingressMap := s.ingressMap.erase token }
  | accept :
      Transition build streams s { s with
        ingressMap := s.ingressMap.insert s.pilgrimCounter (.new (streams s.pilgrimCounter))
        pilgrimCounter := s.pilgrimCounter + 1
        decrees := s.decrees ++ [.welcome s.pilgrimCounter] }
  | ready {token : Token} {pilgrim : Pilgrim} (h : s.ingressMap.get? token = some pilgrim) :
      Transition build streams s { s with
        ingressMap := s.ingressMap.erase token, songs := s.songs ++ [(token, pilgrim)] }
  | ignore : Transition build streams s s
  | pick {before after : List Angel} {token : Token} {pilgrim : Pilgrim}
      {songs : List (Token × Pilgrim)} (hangels : s.angels = before ++ .idle :: after)
      (hsongs : s.songs = (token, pilgrim) :: songs) :
      Transition build streams s { s with
        songs, angels := before ++ .singing ⟨token, .entry pilgrim, []⟩ :: after }
  | send {before after : List Angel} {token : Token} {stage : Stage} {emission : Emission}
      {outbox : List Emission}
      (hangels : s.angels = before ++ .singing ⟨token, stage, emission :: outbox⟩ :: after) :
      Transition build streams s
        (post { s with angels := before ++ .singing ⟨token, stage, outbox⟩ :: after } emission)
  | advance {before after : List Angel} {token : Token} {stage : Stage} {song : Song}
      (clock : SystemTime) (hangels : s.angels = before ++ .singing ⟨token, stage, []⟩ :: after)
      (hstage : ¬ stage.Ended) (h : Song.advance build clock ⟨token, stage, []⟩ = .ok song) :
      Transition build streams s { s with angels := before ++ .singing song :: after }
  | panic {before after : List Angel} {token : Token} {stage : Stage} {panic : Panic}
      (clock : SystemTime) (hangels : s.angels = before ++ .singing ⟨token, stage, []⟩ :: after)
      (hstage : ¬ stage.Ended) (h : Song.advance build clock ⟨token, stage, []⟩ = .error panic) :
      Transition build streams s { s with angels := before ++ .gone :: after }
  | finish {before after : List Angel} {token : Token} {pilgrim : Pilgrim}
      (hangels : s.angels = before ++ .singing ⟨token, .exit pilgrim (.ok ()), []⟩ :: after) :
      Transition build streams s { s with
        angels := before ++ .idle :: after, returned := s.returned ++ [(token, pilgrim)] }
  | goodbye {before after : List Angel} {token : Token} {pilgrim : Pilgrim} {sin : Sin}
      (hangels : s.angels = before ++ .singing ⟨token, .exit pilgrim (.error sin), []⟩ :: after) :
      Transition build streams s { s with
        angels := before ++ .idle :: after, decrees := s.decrees ++ [.goodbye token] }
  | turn {temple : Temple} {wish : Wish} {wishes : List Wish} (htemple : s.temple = some temple)
      (hwishes : s.wishes = wish :: wishes) :
      Transition build streams s (s.serve temple wish wishes)

variable {build : Build} {streams : Token → TcpStream} {s s' : Server}

/-- The pool around one of its angels. -/
theorem exists_around {angels : List Angel} {i : ℕ} {angel : Angel} (h : angels[i]? = some angel) :
    ∃ before after, angels = before ++ angel :: after ∧
      ∀ angel', angels.set i angel' = before ++ angel' :: after := by
  obtain ⟨hi, rfl⟩ := List.getElem?_eq_some_iff.mp h
  refine ⟨angels.take i, angels.drop (i + 1), ?_, ?_⟩
  · rw [List.getElem_cons_drop, List.take_append_drop]
  · intro angel'
    rw [List.set_eq_take_append_cons_drop, if_pos hi]

theorem sing_ok {i : ℕ} {clock : SystemTime} {token : Token} {stage : Stage} {song : Song}
    (hstage : ¬ stage.Ended) (hsong : Song.advance build clock ⟨token, stage, []⟩ = .ok song) :
    s.sing build clock i ⟨token, stage, []⟩ = s.setAngel i (.singing song) := by
  cases stage with
  | exit pilgrim result => exact absurd trivial hstage
  | _ => simp only [sing, hsong]

theorem sing_panic {i : ℕ} {clock : SystemTime} {token : Token} {stage : Stage} {panic : Panic}
    (hstage : ¬ stage.Ended) (hsong : Song.advance build clock ⟨token, stage, []⟩ = .error panic) :
    s.sing build clock i ⟨token, stage, []⟩ = s.setAngel i .gone := by
  cases stage with
  | exit pilgrim result => exact absurd trivial hstage
  | _ => simp only [sing, hsong]

theorem sing_transition {i : ℕ} {song : Song} (clock : SystemTime)
    (h : s.angels[i]? = some (.singing song)) :
    Transition build streams s (s.sing build clock i song) := by
  obtain ⟨before, after, hangels, hset⟩ := exists_around h
  obtain ⟨token, stage, _ | ⟨emission, outbox⟩⟩ := song
  · have hadvance : ¬ stage.Ended →
        Transition build streams s (s.sing build clock i ⟨token, stage, []⟩) := by
      intro hstage
      cases hsong : Song.advance build clock ⟨token, stage, []⟩ with
      | ok song =>
          rw [sing_ok hstage hsong, setAngel, hset]
          exact .advance clock hangels hstage hsong
      | error panic =>
          rw [sing_panic hstage hsong, setAngel, hset]
          exact .panic clock hangels hstage hsong
    cases stage with
    | entry pilgrim => exact hadvance id
    | loop worker => exact hadvance id
    | exit pilgrim result =>
        cases result with
        | ok _ =>
            simp only [sing, setAngel, hset]
            exact .finish hangels
        | error sin =>
            simp only [sing, setAngel, hset, post]
            exact .goodbye hangels
  · simp only [sing, setAngel, hset]
    exact .send hangels

/-- **What a step can do.** -/
theorem step_transition {action : Action} (h : s.step build streams action = .ok s') :
    Transition build streams s s' := by
  cases action with
  | collect =>
      cases hreturned : s.returned with
      | nil =>
          simp only [step, hreturned] at h
          cases h
      | cons e returned =>
          simp only [step, hreturned] at h
          cases h
          exact .collect hreturned
  | notice token =>
      simp only [step] at h
      split_ifs at h
      cases h
      exact .notice token
  | accept =>
      cases h
      exact .accept
  | ready token =>
      cases hget : s.ingressMap.get? token with
      | none =>
          simp only [step, hget] at h
          cases h
          exact .ignore
      | some pilgrim =>
          simp only [step, hget] at h
          split_ifs at h
          cases h
          exact .ready hget
  | pick i =>
      simp only [step] at h
      split at h
      case h_1 token pilgrim songs hangel hsongs =>
        cases h
        obtain ⟨before, after, hangels, hset⟩ := exists_around hangel
        rw [hset]
        exact .pick hangels hsongs
      case h_2 => cases h
  | sing i clock =>
      simp only [step] at h
      split at h
      case h_1 song hangel =>
        cases h
        exact sing_transition clock hangel
      case h_2 => cases h
  | turn =>
      simp only [step] at h
      split at h
      case h_1 temple wish wishes htemple hwishes =>
        cases h
        exact .turn htemple hwishes
      case h_2 => cases h

/-! ### The pilgrims of a client -/

/-- What is found under a token in a queue of pilgrims. -/
def queuedAt (make : Pilgrim → Spot) (token : Token) (e : Token × Pilgrim) : Option Spot :=
  if e.1 = token then some (make e.2) else none

/-- What is found under a token with an angel. -/
def sungAt (token : Token) : Angel → Option Spot
  | .singing song => if song.token = token then some (.sung song) else none
  | _ => none

/-- All pilgrims of a client: in the ingress map, in the queue of songs, with the angels, and in
the channel that returns them. -/
def holders (s : Server) (token : Token) : Multiset Spot :=
  ((s.ingressMap.get? token).map Spot.mapped).toList + found (queuedAt .queued token) s.songs +
    found (sungAt token) s.angels + found (queuedAt .returned token) s.returned

/-- The wishes that the temple has taken from the client. -/
def executedBy (s : Server) (token : Token) : List Wish :=
  (s.executed.map (·.1)).filter fun wish => decide (wish.token = token)

/-- The wishes that have been sent for the client. -/
def sentBy (s : Server) (token : Token) : List Wish :=
  s.executedBy token ++ s.wishes.filter fun wish => decide (wish.token = token)

/-- The server shows this life of the client. -/
structure Shows (s : Server) (token : Token) (life : Life) : Prop where
  spot : s.holders token = (life.spot.toList : Multiset Spot)
  sent : s.sentBy token = life.sent

/-- The step concerns one client, and is a step of its life. -/
structure Goes (build : Build) (streams : Token → TcpStream) (s s' : Server) (token : Token) :
    Prop where
  others : ∀ token', token' ≠ token →
    s'.holders token' = s.holders token' ∧ s'.sentBy token' = s.sentBy token'
  own : ∀ life, s.Shows token life →
    ∃ life', Lives build (streams token) token life life' ∧ s'.Shows token life'

/-- What holds of every state that a run reaches. -/
structure Sound (build : Build) (streams : Token → TcpStream) (s : Server) : Prop where
  lives : ∀ token, ∃ life, Reached build (streams token) token life ∧ s.Shows token life
  counter : 1 ≤ s.pilgrimCounter
  /-- Nothing is found under a token that has not been given away. -/
  unborn : ∀ token, ¬ s.Known token → s.Shows token ⟨none, []⟩
  /-- A song sends wishes under its own token. -/
  own : ∀ song, Angel.singing song ∈ s.angels → ∀ wish ∈ wishesIn song.outbox,
    wish.token = song.token

@[simp] theorem found_queuedAt_cons (make : Pilgrim → Spot) (token token' : Token)
    (pilgrim : Pilgrim) (l : List (Token × Pilgrim)) :
    found (queuedAt make token) ((token', pilgrim) :: l) =
      (if token' = token then {make pilgrim} else 0) + found (queuedAt make token) l := by
  rw [found_cons, queuedAt]
  split_ifs <;> rfl

@[simp] theorem found_sungAt_singing (token : Token) (song : Song) (l : List Angel) :
    found (sungAt token) (.singing song :: l) =
      (if song.token = token then {.sung song} else 0) + found (sungAt token) l := by
  rw [found_cons, sungAt]
  split_ifs <;> rfl

@[simp] theorem found_sungAt_idle (token : Token) (l : List Angel) :
    found (sungAt token) (.idle :: l) = found (sungAt token) l := by
  rw [found_cons]
  exact zero_add _

/-! ### From place to place -/

theorem moves_notice {token : Token} {pilgrim : Pilgrim}
    (h : s.ingressMap.get? token = some pilgrim) :
    Moves s.holders (holders { s with ingressMap := s.ingressMap.erase token }) token
      {.mapped pilgrim} 0 where
  own := by
    refine ⟨found (queuedAt .queued token) s.songs + found (sungAt token) s.angels +
      found (queuedAt .returned token) s.returned, ?_, ?_⟩
    · simp only [holders, h, Option.map_some, Option.toList_some, Multiset.coe_singleton]
      abel
    · simp only [holders, Dict.get?_erase, if_true, Option.map_none, Option.toList_none,
        Multiset.coe_nil]
      abel
  others := by
    intro token' hne
    simp only [holders, Dict.get?_erase, if_neg hne]

theorem moves_ready {token : Token} {pilgrim : Pilgrim}
    (h : s.ingressMap.get? token = some pilgrim) :
    Moves s.holders (holders { s with
        ingressMap := s.ingressMap.erase token, songs := s.songs ++ [(token, pilgrim)] })
      token {.mapped pilgrim} {.queued pilgrim} where
  own := by
    refine ⟨found (queuedAt .queued token) s.songs + found (sungAt token) s.angels +
      found (queuedAt .returned token) s.returned, ?_, ?_⟩
    · simp only [holders, h, Option.map_some, Option.toList_some, Multiset.coe_singleton]
      abel
    · simp only [holders, Dict.get?_erase, if_true, Option.map_none, Option.toList_none,
        Multiset.coe_nil, found_append, found_queuedAt_cons, found_nil]
      abel
  others := by
    intro token' hne
    simp only [holders, Dict.get?_erase, if_neg hne, found_append, found_queuedAt_cons,
      if_neg hne.symm, found_nil, add_zero]

theorem moves_pick {before after : List Angel} {token : Token} {pilgrim : Pilgrim}
    {songs : List (Token × Pilgrim)} (hangels : s.angels = before ++ .idle :: after)
    (hsongs : s.songs = (token, pilgrim) :: songs) :
    Moves s.holders (holders { s with
        songs, angels := before ++ .singing ⟨token, .entry pilgrim, []⟩ :: after })
      token {.queued pilgrim} {.sung ⟨token, .entry pilgrim, []⟩} where
  own := by
    refine ⟨((s.ingressMap.get? token).map Spot.mapped).toList +
      found (queuedAt .queued token) songs + found (sungAt token) before +
      found (sungAt token) after + found (queuedAt .returned token) s.returned, ?_, ?_⟩
    · simp only [holders, hangels, hsongs, found_queuedAt_cons, if_true, found_append,
        found_sungAt_idle]
      abel
    · simp only [holders, found_append, found_sungAt_singing, if_true]
      abel
  others := by
    intro token' hne
    simp only [holders, hangels, hsongs, found_queuedAt_cons, if_neg hne.symm, found_append,
      found_sungAt_idle, found_sungAt_singing, zero_add]

theorem moves_collect {token : Token} {pilgrim : Pilgrim} {returned : List (Token × Pilgrim)}
    (h : s.returned = (token, pilgrim) :: returned) (hfree : s.ingressMap.get? token = none) :
    Moves s.holders
      (holders { s with returned, ingressMap := s.ingressMap.insert token pilgrim })
      token {.returned pilgrim} {.mapped pilgrim} where
  own := by
    refine ⟨found (queuedAt .queued token) s.songs + found (sungAt token) s.angels +
      found (queuedAt .returned token) returned, ?_, ?_⟩
    · simp only [holders, h, hfree, Option.map_none, Option.toList_none, Multiset.coe_nil,
        found_queuedAt_cons, if_true]
      abel
    · simp only [holders, Dict.get?_insert, if_true, Option.map_some, Option.toList_some,
        Multiset.coe_singleton]
      abel
  others := by
    intro token' hne
    simp only [holders, h, Dict.get?_insert, if_neg hne, found_queuedAt_cons, if_neg hne.symm,
      zero_add]

/-- An angel goes on to something else that concerns nobody but its client. -/
theorem moves_angel {before after : List Angel} {song : Song} (angel : Angel)
    (hangels : s.angels = before ++ .singing song :: after)
    (hangel : ∀ token, token ≠ song.token → sungAt token angel = none) :
    Moves s.holders (holders { s with angels := before ++ angel :: after }) song.token
      {.sung song} ((sungAt song.token angel).toList : Multiset Spot) where
  own := by
    refine ⟨((s.ingressMap.get? song.token).map Spot.mapped).toList +
      found (queuedAt .queued song.token) s.songs + found (sungAt song.token) before +
      found (sungAt song.token) after + found (queuedAt .returned song.token) s.returned, ?_, ?_⟩
    · simp only [holders, hangels, found_append, found_sungAt_singing, if_true]
      abel
    · simp only [holders, found_append, found_cons]
      abel
  others := by
    intro token' hne
    have hsong : sungAt token' (.singing song) = none := if_neg hne.symm
    simp only [holders, hangels, found_append, found_cons, hsong, hangel token' hne]

/-- An angel goes on with its song. -/
theorem moves_singing {before after : List Angel} {song song' : Song}
    (hangels : s.angels = before ++ .singing song :: after) (htoken : song'.token = song.token) :
    Moves s.holders (holders { s with angels := before ++ .singing song' :: after }) song.token
      {.sung song} {.sung song'} := by
  have hown : sungAt song.token (.singing song') = some (.sung song') := if_pos htoken
  have hothers : ∀ token, token ≠ song.token → sungAt token (.singing song') = none := by
    intro token hne
    rw [← htoken] at hne
    exact if_neg hne.symm
  have hmoves := moves_angel (.singing song') hangels hothers
  rw [hown] at hmoves
  exact hmoves

theorem moves_finish {before after : List Angel} {token : Token} {pilgrim : Pilgrim}
    (hangels : s.angels = before ++ .singing ⟨token, .exit pilgrim (.ok ()), []⟩ :: after) :
    Moves s.holders (holders { s with
        angels := before ++ .idle :: after, returned := s.returned ++ [(token, pilgrim)] })
      token {.sung ⟨token, .exit pilgrim (.ok ()), []⟩} {.returned pilgrim} where
  own := by
    refine ⟨((s.ingressMap.get? token).map Spot.mapped).toList +
      found (queuedAt .queued token) s.songs + found (sungAt token) before +
      found (sungAt token) after + found (queuedAt .returned token) s.returned, ?_, ?_⟩
    · simp only [holders, hangels, found_append, found_sungAt_singing, if_true]
      abel
    · simp only [holders, found_append, found_sungAt_idle, found_queuedAt_cons, if_true, found_nil]
      abel
  others := by
    intro token' hne
    simp only [holders, hangels, found_append, found_sungAt_singing, if_neg hne.symm,
      found_sungAt_idle, found_queuedAt_cons, found_nil, add_zero, zero_add]

/-! ### The step of a life -/

/-- The client's pilgrim is moved, and `more` is sent for the client. -/
theorem goes_of_moves {token : Token} {old : Spot} (new : Option Spot) (more : List Wish)
    (h : Moves s.holders s'.holders token {old} (new.toList : Multiset Spot))
    (hothers : ∀ token', token' ≠ token → s'.sentBy token' = s.sentBy token')
    (hown : s'.sentBy token = s.sentBy token ++ more)
    (hlives : ∀ sent, Lives build (streams token) token ⟨some old, sent⟩ ⟨new, sent ++ more⟩) :
    Goes build streams s s' token where
  others := fun token' hne => ⟨h.others token' hne, hothers token' hne⟩
  own := by
    rintro ⟨spot, sent⟩ hlife
    obtain ⟨hspot, hnew⟩ := h.of_toList hlife.spot
    subst hspot
    refine ⟨⟨new, sent ++ more⟩, hlives sent, hnew, ?_⟩
    rw [hown, hlife.sent]

/-- The client's pilgrim is moved, and nothing is sent. -/
theorem goes_silently {token : Token} {old : Spot} (new : Option Spot)
    (h : Moves s.holders s'.holders token {old} (new.toList : Multiset Spot))
    (hsent : s'.executed = s.executed ∧ s'.wishes = s.wishes)
    (hlives : ∀ sent, Lives build (streams token) token ⟨some old, sent⟩ ⟨new, sent⟩) :
    Goes build streams s s' token := by
  have hsame : ∀ token, s'.sentBy token = s.sentBy token := by
    intro token
    rw [sentBy, sentBy, executedBy, executedBy, hsent.1, hsent.2]
  apply goes_of_moves new [] h (fun token' _ => hsame token')
  · rw [hsame token, List.append_nil]
  · intro sent
    rw [List.append_nil]
    exact hlives sent

/-- A pilgrim that comes back finds its place in the map free. -/
theorem Shows.free {token : Token} {life : Life} {pilgrim : Pilgrim}
    {returned : List (Token × Pilgrim)} (h : s.Shows token life)
    (hreturned : s.returned = (token, pilgrim) :: returned) :
    s.ingressMap.get? token = none := by
  cases hget : s.ingressMap.get? token with
  | none => rfl
  | some mapped =>
      have hboth : {.returned pilgrim} + ({.mapped mapped} +
          (found (queuedAt .queued token) s.songs + found (sungAt token) s.angels +
            found (queuedAt .returned token) returned)) =
            (life.spot.toList : Multiset Spot) := by
        rw [← h.spot]
        simp only [holders, hget, hreturned, Option.map_some, Option.toList_some,
          Multiset.coe_singleton, found_queuedAt_cons, if_true]
        abel
      obtain ⟨-, hnone⟩ := Custody.eq_of_add_eq_toList hboth
      rw [Multiset.singleton_add] at hnone
      exact absurd hnone Multiset.cons_ne_zero

/-- A new connection. -/
theorem goes_accept (h : s.Shows s.pilgrimCounter ⟨none, []⟩) :
    Goes build streams s { s with
        ingressMap := s.ingressMap.insert s.pilgrimCounter (.new (streams s.pilgrimCounter))
        pilgrimCounter := s.pilgrimCounter + 1
        decrees := s.decrees ++ [.welcome s.pilgrimCounter] } s.pilgrimCounter where
  others := by
    intro token' hne
    refine ⟨?_, rfl⟩
    simp only [holders, Dict.get?_insert, if_neg hne]
  own := by
    rintro ⟨spot, sent⟩ hlife
    have hsent : sent = [] := hlife.sent.symm.trans h.sent
    have hspot : spot = none := by
      have hnone : (spot.toList : Multiset Spot) = 0 := hlife.spot.symm.trans h.spot
      cases spot with
      | none => rfl
      | some spot => exact absurd hnone (Multiset.singleton_ne_zero spot)
    subst hsent hspot
    refine ⟨_, .accept, ?_, h.sent⟩
    have hnone := h.spot
    simp only [holders, Option.toList_none, Multiset.coe_nil, add_eq_zero] at hnone
    obtain ⟨⟨⟨-, hsongs⟩, hangels⟩, hreturned⟩ := hnone
    simp only [holders, Dict.get?_insert, if_true, hsongs, hangels, hreturned, add_zero,
      Option.map_some]

theorem moves_send {before after : List Angel} {token : Token} {stage : Stage}
    {emission : Emission} {outbox : List Emission}
    (hangels : s.angels = before ++ .singing ⟨token, stage, emission :: outbox⟩ :: after) :
    Moves s.holders
      (post { s with angels := before ++ .singing ⟨token, stage, outbox⟩ :: after }
        emission).holders
      token {.sung ⟨token, stage, emission :: outbox⟩} {.sung ⟨token, stage, outbox⟩} := by
  cases emission
  all_goals exact moves_singing hangels rfl

/-- A song sends a message. -/
theorem goes_send {before after : List Angel} {token : Token} {stage : Stage} {emission : Emission}
    {outbox : List Emission}
    (hangels : s.angels = before ++ .singing ⟨token, stage, emission :: outbox⟩ :: after)
    (hown : ∀ wish ∈ wishesIn [emission], wish.token = token) :
    Goes build streams s
      (post { s with angels := before ++ .singing ⟨token, stage, outbox⟩ :: after } emission)
      token := by
  have hmoves := moves_send hangels
  have hsent : ∀ token', (post { s with
      angels := before ++ .singing ⟨token, stage, outbox⟩ :: after } emission).sentBy token' =
      s.sentBy token' ++ (wishesIn [emission]).filter fun wish => decide (wish.token = token') := by
    intro token'
    cases emission with
    | toTemple wish =>
        simp only [sentBy, executedBy, post, List.filter_append, List.append_assoc]
        rfl
    | toEgress decree =>
        simp only [sentBy, executedBy, post]
        exact (List.append_nil _).symm
  apply goes_of_moves (some (.sung ⟨token, stage, outbox⟩)) (wishesIn [emission]) hmoves
  · intro token' hne
    have hnone : (wishesIn [emission]).filter (fun wish => decide (wish.token = token')) = [] := by
      rw [List.filter_eq_nil_iff]
      intro wish hwish
      rw [hown wish hwish, decide_eq_true_eq]
      exact hne.symm
    rw [hsent, hnone, List.append_nil]
  · have hall : (wishesIn [emission]).filter (fun wish => decide (wish.token = token)) =
        wishesIn [emission] := by
      rw [List.filter_eq_self]
      intro wish hwish
      exact decide_eq_true (hown wish hwish)
    rw [hsent, hall]
  · exact fun sent => .send

/-- The temple takes a wish out of the channel: it has been sent as before. -/
theorem serve_same (temple : Temple) {wish : Wish} {wishes : List Wish}
    (hwishes : s.wishes = wish :: wishes) (token : Token) :
    (s.serve temple wish wishes).holders token = s.holders token ∧
      (s.serve temple wish wishes).sentBy token = s.sentBy token := by
  unfold serve
  split
  all_goals
    refine ⟨rfl, ?_⟩
    simp only [sentBy, executedBy, hwishes, List.map_append, List.append_assoc,
      ← List.filter_append]
    rfl

theorem serve_rest (s : Server) (temple : Temple) (wish : Wish) (wishes : List Wish) :
    (s.serve temple wish wishes).pilgrimCounter = s.pilgrimCounter ∧
      (s.serve temple wish wishes).angels = s.angels := by
  unfold serve
  split
  all_goals exact ⟨rfl, rfl⟩

theorem post_rest (s : Server) (emission : Emission) :
    (s.post emission).pilgrimCounter = s.pilgrimCounter ∧ (s.post emission).angels = s.angels := by
  cases emission
  all_goals exact ⟨rfl, rfl⟩

/-- A token under which something is found has been given away. -/
theorem Sound.known_of_moves (h : s.Sound build streams) {token : Token} {old : Spot}
    {new : Multiset Spot} (hmoves : Moves s.holders s'.holders token {old} new) :
    s.Known token := by
  by_contra hnew
  obtain ⟨hnone, -⟩ := hmoves.of_toList (h.unborn token hnew).spot
  cases hnone

/-- A client whose pilgrim is moved is one that the server knows. -/
theorem Sound.goes_silently (h : s.Sound build streams) {token : Token} {old : Spot}
    (new : Option Spot)
    (hmoves : Moves s.holders s'.holders token {old} (new.toList : Multiset Spot))
    (hrest : s'.pilgrimCounter = s.pilgrimCounter ∧ s'.executed = s.executed ∧
      s'.wishes = s.wishes)
    (hlives : ∀ sent, Lives build (streams token) token ⟨some old, sent⟩ ⟨new, sent⟩) :
    ∃ token, s'.Known token ∧ Goes build streams s s' token := by
  refine ⟨token, ?_, Server.goes_silently new hmoves hrest.2 hlives⟩
  rw [Known, hrest.1]
  exact h.known_of_moves hmoves

theorem mem_angels {before after : List Angel} {angel : Angel}
    (hangels : s.angels = before ++ angel :: after) : angel ∈ s.angels := by
  rw [hangels]
  exact List.mem_append_right _ List.mem_cons_self

/-- **A transition is a step in the life of one client, or of none.** -/
theorem Transition.goes (h : s.Sound build streams) (hstep : Transition build streams s s') :
    (∀ token, s'.holders token = s.holders token ∧ s'.sentBy token = s.sentBy token) ∨
      ∃ token, s'.Known token ∧ Goes build streams s s' token := by
  cases hstep with
  | @collect token pilgrim returned hreturned =>
      obtain ⟨life, -, hlife⟩ := h.lives token
      have hmoves := moves_collect hreturned (hlife.free hreturned)
      exact .inr (h.goes_silently (some (.mapped pilgrim)) hmoves ⟨rfl, rfl, rfl⟩ fun _ => .collect)
  | notice token =>
      cases hget : s.ingressMap.get? token with
      | none =>
          refine .inl fun token' => ⟨?_, rfl⟩
          simp only [holders, Dict.get?_erase]
          split_ifs with heq
          · rw [heq, hget]
          · rfl
      | some pilgrim =>
          have hmoves := moves_notice hget
          exact .inr (h.goes_silently none hmoves ⟨rfl, rfl, rfl⟩ fun _ => .drop)
  | accept =>
      have hnew : ¬ s.Known s.pilgrimCounter := fun h => lt_irrefl _ h.2
      exact .inr ⟨s.pilgrimCounter, ⟨h.counter, Nat.lt_succ_self _⟩, goes_accept (h.unborn _ hnew)⟩
  | @ready token pilgrim hget =>
      have hmoves := moves_ready hget
      exact .inr (h.goes_silently (some (.queued pilgrim)) hmoves ⟨rfl, rfl, rfl⟩ fun _ => .ready)
  | ignore => exact .inl fun _ => ⟨rfl, rfl⟩
  | @pick before after token pilgrim songs hangels hsongs =>
      have hmoves := moves_pick hangels hsongs
      exact .inr (h.goes_silently (some (.sung _)) hmoves ⟨rfl, rfl, rfl⟩ fun _ => .pick)
  | @send before after token stage emission outbox hangels =>
      have hown : ∀ wish ∈ wishesIn [emission], wish.token = token := by
        intro wish hwish
        apply h.own _ (mem_angels hangels) wish
        rw [← List.singleton_append, wishesIn_append]
        exact List.mem_append_left _ hwish
      refine .inr ⟨token, ?_, goes_send hangels hown⟩
      rw [Known, (post_rest _ emission).1]
      exact h.known_of_moves (moves_angel .idle hangels fun _ _ => rfl)
  | @advance before after token stage song clock hangels hstage hsong =>
      have hmoves := moves_singing hangels (advance_own hsong).1
      exact .inr (h.goes_silently (some (.sung song)) hmoves ⟨rfl, rfl, rfl⟩
        fun _ => .advance clock hstage hsong)
  | @panic before after token stage panic clock hangels hstage hsong =>
      have hmoves := moves_angel .gone hangels fun _ _ => rfl
      exact .inr (h.goes_silently none hmoves ⟨rfl, rfl, rfl⟩ fun _ => .panic clock hstage hsong)
  | @finish before after token pilgrim hangels =>
      have hmoves := moves_finish hangels
      exact .inr (h.goes_silently (some (.returned pilgrim)) hmoves ⟨rfl, rfl, rfl⟩
        fun _ => .finish)
  | @goodbye before after token pilgrim sin hangels =>
      have hmoves := moves_angel .idle hangels fun _ _ => rfl
      exact .inr (h.goes_silently none hmoves ⟨rfl, rfl, rfl⟩ fun _ => .goodbye)
  | turn htemple hwishes => exact .inl (serve_same _ hwishes)

/-- The songs of the pool after one of its angels has gone on. -/
theorem songs_around {P : Song → Prop} {before after : List Angel} {angel angel' : Angel}
    (hangels : s.angels = before ++ angel :: after)
    (h : ∀ song, Angel.singing song ∈ s.angels → P song)
    (hangel : ∀ song, angel' = .singing song → P song) :
    ∀ song, Angel.singing song ∈ before ++ angel' :: after → P song := by
  intro song hsong
  rw [List.mem_append, List.mem_cons] at hsong
  obtain hsong | rfl | hsong := hsong
  · apply h song
    rw [hangels]
    exact List.mem_append_left _ hsong
  · exact hangel song rfl
  · apply h song
    rw [hangels]
    exact List.mem_append_right _ (List.mem_cons_of_mem _ hsong)

theorem Sound.own_step (h : s.Sound build streams) (hstep : Transition build streams s s') :
    ∀ song, Angel.singing song ∈ s'.angels → ∀ wish ∈ wishesIn song.outbox,
      wish.token = song.token := by
  cases hstep with
  | collect _ => exact h.own
  | notice _ => exact h.own
  | accept => exact h.own
  | ready _ => exact h.own
  | ignore => exact h.own
  | pick hangels _ =>
      apply songs_around hangels h.own
      rintro _ ⟨⟩ wish hwish
      cases hwish
  | @send before after token stage emission outbox hangels =>
      rw [(post_rest _ emission).2]
      apply songs_around hangels h.own
      rintro _ ⟨⟩ wish hwish
      apply h.own _ (mem_angels hangels) wish
      rw [← List.singleton_append, wishesIn_append]
      exact List.mem_append_right _ hwish
  | advance clock hangels hstage hsong =>
      obtain ⟨htoken, hown⟩ := advance_own hsong
      apply songs_around hangels h.own
      rintro _ ⟨⟩ wish hwish
      rw [htoken]
      exact hown wish hwish
  | panic _ hangels _ _ => exact songs_around hangels h.own fun _ hsong => nomatch hsong
  | finish hangels => exact songs_around hangels h.own fun _ hsong => nomatch hsong
  | goodbye hangels => exact songs_around hangels h.own fun _ hsong => nomatch hsong
  | @turn temple wish wishes _ _ =>
      rw [(serve_rest s temple wish wishes).2]
      exact h.own

theorem Transition.counter_le (hstep : Transition build streams s s') :
    s.pilgrimCounter ≤ s'.pilgrimCounter := by
  cases hstep with
  | accept => exact Nat.le_succ _
  | @send _ _ _ _ emission _ _ => rw [(post_rest _ emission).1]
  | @turn temple wish wishes _ _ => rw [(serve_rest s temple wish wishes).1]
  | _ => exact le_rfl

theorem Shows.congr {token : Token} {life : Life} (h : s.Shows token life)
    (hsame : s'.holders token = s.holders token ∧ s'.sentBy token = s.sentBy token) :
    s'.Shows token life :=
  ⟨hsame.1.trans h.spot, hsame.2.trans h.sent⟩

/-- The step lemma. -/
theorem Sound.step (h : s.Sound build streams) (hstep : Transition build streams s s') :
    s'.Sound build streams := by
  have hcounter := hstep.counter_le
  refine ⟨?_, h.counter.trans hcounter, ?_, h.own_step hstep⟩
  · intro token
    obtain ⟨life, hreached, hlife⟩ := h.lives token
    obtain hsame | ⟨token', -, hgoes⟩ := hstep.goes h
    · exact ⟨life, hreached, hlife.congr (hsame token)⟩
    · by_cases heq : token = token'
      · subst heq
        obtain ⟨life', hlives, hlife'⟩ := hgoes.own life hlife
        exact ⟨life', hreached.tail hlives, hlife'⟩
      · exact ⟨life, hreached, hlife.congr (hgoes.others token heq)⟩
  · intro token hnew
    have hunborn := h.unborn token fun hknown => hnew ⟨hknown.1, hknown.2.trans_le hcounter⟩
    obtain hsame | ⟨token', hknown, hgoes⟩ := hstep.goes h
    · exact hunborn.congr (hsame token)
    · apply hunborn.congr (hgoes.others token _)
      rintro rfl
      exact hnew hknown

theorem sound_start (build : Build) (streams : Token → TcpStream) (ioThreads : ℕ) (soul : Soul)
    (config : Config) : (start ioThreads soul config).Sound build streams := by
  have hangels : ∀ token, found (sungAt token) (List.replicate ioThreads Angel.idle) = 0 := by
    intro token
    induction ioThreads with
    | zero => rfl
    | succ n ih => rw [List.replicate_succ, found_sungAt_idle, ih]
  have hnone : ∀ token, (start ioThreads soul config).Shows token ⟨none, []⟩ := by
    intro token
    refine ⟨?_, rfl⟩
    simp only [holders, start, Dict.get?_empty, found_nil, hangels]
    rfl
  refine ⟨fun token => ⟨_, .refl, hnone token⟩, le_rfl, fun token _ => hnone token, ?_⟩
  intro song hsong
  cases List.eq_of_mem_replicate hsong

/-- **In every state that a run reaches, each client has come to a life of its own.** -/
theorem sound_run {ioThreads : ℕ} {soul : Soul} {config : Config} {actions : List Action}
    (hrun : Run (step build streams) (start ioThreads soul config) actions s) :
    s.Sound build streams := by
  apply hrun.invariant (P := fun _ => True) _ (fun _ _ => trivial)
    (sound_start build streams ioThreads soul config)
  intro s action s' _ hs hstep
  exact hs.step (step_transition hstep)

end Server
end Heaven
