import Heaven.Execution
import Heaven.Subscriptions

/-! # What goes through the channels

`Talks` is what a step of the server puts into its channels or takes from them: most steps are
silent, an angel sends the temple a wish or egress an answer, the server loop welcomes a client, an
angel says goodbye, and the temple takes a wish.  All wishes and answers are those that `grant`
makes of some request (`Genuine`).  `Transition.talks` is the inversion lemma.

A client is lost when its pilgrim is nowhere, and then it stays lost
(`Transition.stays_lost`). -/

namespace Heaven

open Custody (found Moves)
open Runs

theorem Request.ne_nil (request : Request) : request.val ≠ [] := request.property

/-- `grant` makes the message of some request of the client. -/
def Said (token : Token) (emission : Emission) : Prop :=
  ∃ (request : Request) (clock : SystemTime),
    emission ∈ grant request.val request.ne_nil clock token

theorem Said.wish {token : Token} {wish : Wish} (h : Said token (.toTemple wish)) :
    wish.token = token ∧ ∃ clock, Accepts clock wish.command := by
  obtain ⟨request, clock, hmem⟩ := h
  obtain ⟨htoken, haccepts⟩ := mem_grant hmem
  exact ⟨htoken, clock, haccepts⟩

theorem Said.namesEvents {token : Token} {wish : Wish} (h : Said token (.toTemple wish)) :
    wish.NamesEvents := by
  obtain ⟨-, clock, haccepts⟩ := h.wish
  intro events hevents
  rw [hevents] at haccepts
  exact haccepts

/-- The only decrees that `grant` makes are answers to the client. -/
theorem Said.decree {token : Token} {decree : Decree} (h : Said token (.toEgress decree)) :
    ∃ response, decree = .deliver ⟨token, response⟩ := by
  obtain ⟨request, clock, hmem⟩ := h
  obtain harity | ⟨rest, ⟨response, rfl⟩ | ⟨command, -, rfl⟩, hmem⟩ := arity_or_answers hmem
  · exact ⟨_, Emission.toEgress.inj (List.mem_singleton.mp harity)⟩
  · exact ⟨response, Emission.toEgress.inj (List.mem_singleton.mp hmem)⟩
  · cases List.mem_singleton.mp hmem

namespace Server

variable {build : Build} {streams : Token → TcpStream} {s s' : Server} {token : Token}

/-! ### Genuine messages -/

/-- All wishes that have been sent, in the order in which they were sent. -/
def sent (s : Server) : List Wish := s.executed.map Prod.fst ++ s.wishes

/-- Every message is what `grant` makes of a request of its client. -/
structure Genuine (s : Server) : Prop where
  outbox : ∀ song, Angel.singing song ∈ s.angels → ∀ emission ∈ song.outbox,
    Said song.token emission
  sent : ∀ wish ∈ s.sent, Said wish.token (.toTemple wish)

/-- What a song is about to send comes from what it has granted. -/
theorem advance_outbox {stage : Stage} {clock : SystemTime} {song : Song}
    (h : Song.advance build clock ⟨token, stage, []⟩ = .ok song) :
    ∀ emission ∈ song.outbox, ∃ request ∈ song.stage.granted, ∃ clock,
      emission ∈ grant request.val request.ne_nil clock token := by
  intro emission hmem
  cases stage with
  | entry pilgrim =>
      obtain ⟨worker, jump, -, rfl⟩ := advance_entry h
      cases hmem
  | loop worker =>
      obtain ⟨worker', jump, -, rfl⟩ := advance_loop h
      obtain ⟨request, hrequest, hgrant⟩ := List.mem_flatMap.mp hmem
      rw [granted_stage]
      exact ⟨request, List.mem_of_mem_drop hrequest, clock, hgrant⟩
  | exit pilgrim result =>
      cases h
      cases hmem

theorem said_advance {stage : Stage} {song : Song} {clock : SystemTime}
    (h : Song.advance build clock ⟨token, stage, []⟩ = .ok song) :
    ∀ emission ∈ song.outbox, Said song.token emission := by
  intro emission hmem
  obtain ⟨request, -, clock', hgrant⟩ := advance_outbox h emission hmem
  rw [(advance_own h).1]
  exact ⟨request, clock', hgrant⟩

theorem sent_serve (temple : Temple) {wish : Wish} {wishes : List Wish}
    (hwishes : s.wishes = wish :: wishes) : (s.serve temple wish wishes).sent = s.sent := by
  unfold serve
  split
  all_goals simp [sent, hwishes]

/-- The step lemma. -/
theorem Genuine.step (h : s.Genuine) (hstep : Transition build streams s s') : s'.Genuine := by
  cases hstep with
  | collect _ => exact ⟨h.outbox, h.sent⟩
  | notice _ => exact ⟨h.outbox, h.sent⟩
  | accept => exact ⟨h.outbox, h.sent⟩
  | ready _ => exact ⟨h.outbox, h.sent⟩
  | ignore => exact h
  | pick hangels _ =>
      refine ⟨songs_around hangels h.outbox ?_, h.sent⟩
      rintro _ ⟨⟩ emission hmem
      cases hmem
  | @send before after token stage emission outbox hangels =>
      have hsaid := h.outbox _ (mem_angels hangels)
      have houtbox : ∀ song, Angel.singing song ∈
          before ++ .singing ⟨token, stage, outbox⟩ :: after →
            ∀ emission ∈ song.outbox, Said song.token emission := by
        apply songs_around hangels h.outbox
        rintro _ ⟨⟩ emission hmem
        exact hsaid emission (List.mem_cons_of_mem _ hmem)
      cases emission with
      | toTemple wish =>
          refine ⟨houtbox, ?_⟩
          have hwish : Said wish.token (.toTemple wish) := by
            have hmine := hsaid _ List.mem_cons_self
            rw [hmine.wish.1]
            exact hmine
          have hsent : Server.sent (post { s with
              angels := before ++ .singing ⟨token, stage, outbox⟩ :: after } (.toTemple wish)) =
                s.sent ++ [wish] := by
            simp [Server.sent, post]
          rw [hsent, List.forall_mem_append, List.forall_mem_singleton]
          exact ⟨h.sent, hwish⟩
      | toEgress decree => exact ⟨houtbox, h.sent⟩
  | advance clock hangels hstage hsong =>
      refine ⟨songs_around hangels h.outbox ?_, h.sent⟩
      rintro _ ⟨⟩
      exact said_advance hsong
  | panic _ hangels _ _ =>
      exact ⟨songs_around hangels h.outbox (fun _ hsong => by cases hsong), h.sent⟩
  | finish hangels =>
      exact ⟨songs_around hangels h.outbox (fun _ hsong => by cases hsong), h.sent⟩
  | goodbye hangels =>
      exact ⟨songs_around hangels h.outbox (fun _ hsong => by cases hsong), h.sent⟩
  | @turn temple wish wishes _ hwishes =>
      refine ⟨?_, ?_⟩
      · rw [(serve_rest s temple wish wishes).2]
        exact h.outbox
      · rw [sent_serve temple hwishes]
        exact h.sent

theorem genuine_start (ioThreads : ℕ) (soul : Soul) (config : Config) :
    (start ioThreads soul config).Genuine where
  outbox := by
    intro song hsong
    cases List.eq_of_mem_replicate hsong
  sent := fun _ hmem => by cases hmem

/-! ### The inversion lemma -/

/-- The servers have the same in their channels, and the same temple. -/
structure SameTalk (s s' : Server) : Prop where
  counter : s'.pilgrimCounter = s.pilgrimCounter
  wishes : s'.wishes = s.wishes
  temple : s'.temple = s.temple
  executed : s'.executed = s.executed
  decrees : s'.decrees = s.decrees

/-- What a step puts into the channels, or takes from them. -/
inductive Talks (s s' : Server) : Prop
  | silent (h : SameTalk s s')
  | asks {wish : Wish} (said : Said wish.token (.toTemple wish))
      (h : SameTalk { s with wishes := s.wishes ++ [wish] } s')
  | answers {token : Token} {response : Response} (known : s.Known token)
      (h : SameTalk { s with decrees := s.decrees ++ [.deliver ⟨token, response⟩] } s')
  | welcomes (h : SameTalk { s with
      pilgrimCounter := s.pilgrimCounter + 1
      decrees := s.decrees ++ [.welcome s.pilgrimCounter] } s')
  | parts {token : Token} (known : s.Known token) (lost : s'.holders token = 0)
      (had : s.holders token ≠ 0)
      (h : SameTalk { s with decrees := s.decrees ++ [.goodbye token] } s')
  | serves {temple : Temple} {wish : Wish} {wishes : List Wish} (htemple : s.temple = some temple)
      (hwishes : s.wishes = wish :: wishes) (h : s' = s.serve temple wish wishes)

/-- **What a step says.** -/
theorem Transition.talks (hs : s.Sound build streams) (hg : s.Genuine)
    (hstep : Transition build streams s s') : Talks s s' := by
  cases hstep with
  | @send before after token stage emission outbox hangels =>
      have hsaid : Said token emission :=
        hg.outbox _ (mem_angels hangels) emission List.mem_cons_self
      cases emission with
      | toTemple wish =>
          have hmine : Said wish.token (.toTemple wish) := by
            rw [hsaid.wish.1]
            exact hsaid
          exact .asks hmine ⟨rfl, rfl, rfl, rfl, rfl⟩
      | toEgress decree =>
          obtain ⟨response, rfl⟩ := hsaid.decree
          have hknown := hs.known_of_moves (moves_angel .idle hangels fun _ _ => rfl)
          exact .answers hknown ⟨rfl, rfl, rfl, rfl, rfl⟩
  | accept => exact .welcomes ⟨rfl, rfl, rfl, rfl, rfl⟩
  | @goodbye before after token pilgrim sin hangels =>
      have hmoves := moves_angel .idle hangels fun _ _ => rfl
      obtain ⟨life, -, hlife⟩ := hs.lives token
      obtain ⟨hspot, hlost⟩ := hmoves.of_toList hlife.spot
      refine .parts (hs.known_of_moves hmoves) hlost ?_ ⟨rfl, rfl, rfl, rfl, rfl⟩
      rw [hlife.spot, hspot]
      exact Multiset.singleton_ne_zero _
  | turn htemple hwishes => exact .serves htemple hwishes rfl
  | _ => exact .silent ⟨rfl, rfl, rfl, rfl, rfl⟩

/-! ### Lost clients -/

/-- A step takes the pilgrim of one client from its place, or concerns at most the next client. -/
theorem Transition.moves (hs : s.Sound build streams) (hstep : Transition build streams s s') :
    (∃ token old new, Moves s.holders s'.holders token {old} new) ∨
      ∀ token, token ≠ s.pilgrimCounter → s'.holders token = s.holders token := by
  cases hstep with
  | @collect token pilgrim returned hreturned =>
      obtain ⟨life, -, hlife⟩ := hs.lives token
      exact .inl ⟨_, _, _, moves_collect hreturned (hlife.free hreturned)⟩
  | notice token =>
      cases hget : s.ingressMap.get? token with
      | none =>
          refine .inr fun token' _ => ?_
          simp only [holders, Dict.get?_erase]
          split_ifs with heq
          · rw [heq, hget]
          · rfl
      | some pilgrim => exact .inl ⟨_, _, _, moves_notice hget⟩
  | accept =>
      refine .inr fun token hne => ?_
      simp only [holders, Dict.get?_insert, if_neg hne]
  | ready hget => exact .inl ⟨_, _, _, moves_ready hget⟩
  | ignore => exact .inr fun _ _ => rfl
  | pick hangels hsongs => exact .inl ⟨_, _, _, moves_pick hangels hsongs⟩
  | send hangels => exact .inl ⟨_, _, _, moves_send hangels⟩
  | advance clock hangels hstage hsong =>
      exact .inl ⟨_, _, _, moves_singing hangels (advance_own hsong).1⟩
  | panic clock hangels hstage hsong =>
      exact .inl ⟨_, _, _, moves_angel .gone hangels fun _ _ => rfl⟩
  | finish hangels => exact .inl ⟨_, _, _, moves_finish hangels⟩
  | goodbye hangels => exact .inl ⟨_, _, _, moves_angel .idle hangels fun _ _ => rfl⟩
  | turn htemple hwishes => exact .inr fun token _ => (serve_same _ hwishes token).1

/-- **A lost client stays lost.** -/
theorem Transition.stays_lost (hs : s.Sound build streams)
    (hstep : Transition build streams s s') (hknown : s.Known token)
    (hlost : s.holders token = 0) : s'.holders token = 0 := by
  obtain ⟨token', old, new, hmoves⟩ | hsame := hstep.moves hs
  · have hne : token ≠ token' := by
      rintro rfl
      obtain ⟨rest, hold, -⟩ := hmoves.own
      rw [hold, Multiset.singleton_add] at hlost
      exact Multiset.cons_ne_zero hlost
    rw [hmoves.others token hne, hlost]
  · rw [hsame token hknown.2.ne, hlost]

end Server
end Heaven
