import Heaven.Egress
import Heaven.Ownership
import Heaven.Replies

/-! # Dead connections

When a write to a client fails, and when it says goodbye to a client, egress reports the client's
token to the server loop, which then takes the client's pilgrim out of the ingress map.  A pilgrim
that is elsewhere at that time is missed: the loop puts it back into the map when its song returns
it, and the connection is served again.

`Realm` joins the server and egress by their two channels.  A token is `Barred` when its pilgrim is
nowhere, but for a song that has failed; every step keeps this (`Transition.barred`).  So a
connection stays dead in every run in which the pilgrim of a client is not under way when the report
about the client is taken (`stays_dead`). -/

namespace Heaven

open Decimal (ascii)
open Runs

/-! ### Dead clients -/

/-- The call of `wish` has ended with an error. -/
def Song.Failed (song : Song) : Prop :=
  match song.stage with
  | .exit _ (.error _) => True
  | _ => False

instance (song : Song) : Decidable song.Failed := by
  unfold Song.Failed
  split <;> infer_instance

/-- The angel sings no song of the client, or one that has failed. -/
def Angel.Spares (token : Token) : Angel → Prop
  | .singing song => song.token = token → song.Failed
  | _ => True

instance (token : Token) : DecidablePred (Angel.Spares token)
  | .singing _ => inferInstanceAs (Decidable (_ → _))
  | .idle | .gone => inferInstanceAs (Decidable True)

namespace Server

/-- The client's pilgrim is not under way: it is neither queued, nor with an angel, nor on its way
back, but for a song that has failed. -/
structure Settled (s : Server) (token : Token) : Prop where
  songs : ∀ e ∈ s.songs, e.1 ≠ token
  returned : ∀ e ∈ s.returned, e.1 ≠ token
  angels : ∀ song, Angel.singing song ∈ s.angels → song.token = token → song.Failed

instance (s : Server) (token : Token) : Decidable (s.Settled token) :=
  decidable_of_iff ((∀ e ∈ s.songs, e.1 ≠ token) ∧ (∀ e ∈ s.returned, e.1 ≠ token) ∧
      ∀ angel ∈ s.angels, angel.Spares token) <| by
    constructor
    · rintro ⟨hsongs, hreturned, hangels⟩
      exact ⟨hsongs, hreturned, fun song hsong => hangels _ hsong⟩
    · intro h
      refine ⟨h.songs, h.returned, ?_⟩
      intro angel hangel
      cases angel with
      | singing song => exact h.angels song hangel
      | idle => trivial
      | gone => trivial

structure Barred (s : Server) (token : Token) : Prop extends Settled s token where
  mapped : s.ingressMap.get? token = none

/-- The server loop has no pilgrim of the client, and starts no song for an event of its socket. -/
def Dead (build : Build) (streams : Token → TcpStream) (s : Server) (token : Token) : Prop :=
  s.ingressMap.get? token = none ∧
    ∀ s', s.step build streams (.ready token) = .ok s' → s'.songs = s.songs

variable {build : Build} {streams : Token → TcpStream} {s s' : Server} {token : Token}

theorem dead_of_get?_eq_none (h : s.ingressMap.get? token = none) :
    s.Dead build streams token := by
  refine ⟨h, ?_⟩
  intro s' hstep
  simp only [step, h] at hstep
  cases hstep
  rfl

theorem Settled.of_queues (h : s.Settled token) (hsongs : s'.songs = s.songs)
    (hreturned : s'.returned = s.returned) (hangels : s'.angels = s.angels) :
    s'.Settled token := by
  refine ⟨?_, ?_, ?_⟩
  · rw [hsongs]
    exact h.songs
  · rw [hreturned]
    exact h.returned
  · rw [hangels]
    exact h.angels

/-- Posting a message and serving a wish move no pilgrim. -/
theorem Barred.post (h : s.Barred token) (emission : Emission) :
    (s.post emission).Barred token := by
  cases emission
  all_goals exact ⟨h.toSettled.of_queues rfl rfl rfl, h.mapped⟩

theorem Barred.serve (h : s.Barred token) (temple : Temple) (wish : Wish) (wishes : List Wish) :
    (s.serve temple wish wishes).Barred token := by
  unfold Server.serve
  split
  all_goals exact ⟨h.toSettled.of_queues rfl rfl rfl, h.mapped⟩

/-- An angel goes on to something that is no song of the client, or one that has failed. -/
theorem Barred.angel (h : s.Barred token) {before after : List Angel} {angel angel' : Angel}
    (hangels : s.angels = before ++ angel :: after)
    (hangel : ∀ song, angel' = .singing song → song.token = token → song.Failed) :
    ({ s with angels := before ++ angel' :: after } : Server).Barred token :=
  ⟨⟨h.songs, h.returned, songs_around hangels h.angels hangel⟩, h.mapped⟩

/-- **The step lemma: a client that is barred stays barred.** -/
theorem Transition.barred (hstep : Transition build streams s s') (hknown : s.Known token)
    (h : s.Barred token) : s'.Barred token := by
  cases hstep with
  | @collect token' pilgrim returned hreturned =>
      have hmem := h.returned
      rw [hreturned, List.forall_mem_cons] at hmem
      refine ⟨⟨h.songs, hmem.2, h.angels⟩, ?_⟩
      rw [Dict.get?_insert, if_neg (Ne.symm hmem.1)]
      exact h.mapped
  | notice token' =>
      refine ⟨⟨h.songs, h.returned, h.angels⟩, ?_⟩
      rw [Dict.get?_erase, h.mapped, ite_self]
  | accept =>
      refine ⟨⟨h.songs, h.returned, h.angels⟩, ?_⟩
      rw [Dict.get?_insert, if_neg (ne_of_lt hknown.2)]
      exact h.mapped
  | @ready token' pilgrim hget =>
      have hne : token' ≠ token := by
        rintro rfl
        rw [h.mapped] at hget
        cases hget
      refine ⟨⟨?_, h.returned, h.angels⟩, ?_⟩
      · exact List.forall_mem_append.mpr ⟨h.songs, List.forall_mem_singleton.mpr hne⟩
      · rw [Dict.get?_erase, h.mapped, ite_self]
  | ignore => exact h
  | @pick before after token' pilgrim songs hangels hsongs =>
      have hmem := h.songs
      rw [hsongs, List.forall_mem_cons] at hmem
      refine ⟨⟨hmem.2, h.returned, songs_around hangels h.angels ?_⟩, h.mapped⟩
      rintro _ ⟨⟩ htoken
      exact absurd htoken hmem.1
  | @send before after token' stage emission outbox hangels =>
      apply Barred.post
      apply h.angel hangels
      rintro _ ⟨⟩ htoken
      have hfailed := h.angels _ (mem_angels hangels) htoken
      exact hfailed
  | @advance before after token' stage song clock hangels hstage hsong =>
      apply h.angel hangels
      rintro _ ⟨⟩ htoken
      -- a song that has failed does not go on
      have hfailed := h.angels _ (mem_angels hangels) ((advance_own hsong).1.symm.trans htoken)
      cases stage with
      | exit pilgrim result => exact absurd trivial hstage
      | _ => exact absurd hfailed id
  | panic clock hangels hstage hpanic => exact h.angel hangels fun _ hsong => nomatch hsong
  | @finish before after token' pilgrim hangels =>
      have hne : token' ≠ token := fun htoken => h.angels _ (mem_angels hangels) htoken
      have hbarred : ({ s with angels := before ++ .idle :: after } : Server).Barred token :=
        h.angel hangels fun _ hsong => nomatch hsong
      refine ⟨⟨h.songs, ?_, hbarred.angels⟩, h.mapped⟩
      exact List.forall_mem_append.mpr ⟨h.returned, List.forall_mem_singleton.mpr hne⟩
  | @goodbye before after token' pilgrim sin hangels =>
      have hbarred : ({ s with angels := before ++ .idle :: after } : Server).Barred token :=
        h.angel hangels fun _ hsong => nomatch hsong
      exact ⟨⟨h.songs, h.returned, hbarred.angels⟩, h.mapped⟩
  | turn htemple hwishes => exact h.serve _ _ _

/-- Taking a report about a settled client leaves nothing of it. -/
theorem barred_notice (h : s.Settled token)
    (hstep : s.step build streams (.notice token) = .ok s') : s'.Barred token := by
  simp only [step] at hstep
  split_ifs at hstep
  cases hstep
  refine ⟨⟨h.songs, h.returned, h.angels⟩, ?_⟩
  rw [Dict.get?_erase, if_pos rfl]

end Server

/-! ### The decrees about connections -/

/-- The client whose connection the decree opens or closes. -/
def Decree.connection? : Decree → Option Token
  | .welcome token | .goodbye token => some token
  | _ => none

theorem Decree.IsReplyTo.connection?_eq_none {decree : Decree} {token : Token}
    (h : decree.IsReplyTo token) : decree.connection? = none := by
  cases decree with
  | welcome token' => exact absurd h id
  | goodbye token' => exact absurd h id
  | deliver gift => rfl
  | broadcast publisher event message clients => rfl

/-- A handler sends egress nothing but answers. -/
theorem decree_grant {terms : List Bytes} {h : terms ≠ []} {clock : SystemTime} {token : Token}
    {decree : Decree} (hmem : Emission.toEgress decree ∈ grant terms h clock token) :
    decree.connection? = none := by
  obtain harity | ⟨rest, hrest, hmem⟩ := arity_or_answers hmem
  · cases List.mem_singleton.mp harity
    rfl
  · obtain ⟨response, rfl⟩ | ⟨command, -, rfl⟩ := hrest
    · cases List.mem_singleton.mp hmem
      rfl
    · cases List.mem_singleton.mp hmem

namespace Server

/-- Decrees about connections concern clients that the server knows, and no song sends one. -/
structure Posts (s : Server) : Prop where
  outbox : ∀ song, Angel.singing song ∈ s.angels → ∀ decree,
    Emission.toEgress decree ∈ song.outbox → decree.connection? = none
  decrees : ∀ decree ∈ s.decrees, ∀ token, decree.connection? = some token → s.Known token

variable {build : Build} {streams : Token → TcpStream} {s s' : Server} {token : Token}

theorem Known.transition (hstep : Transition build streams s s') (h : s.Known token) :
    s'.Known token := ⟨h.1, h.2.trans_le hstep.counter_le⟩

theorem outbox_advance {stage : Stage} {song : Song} {clock : SystemTime}
    (h : Song.advance build clock ⟨token, stage, []⟩ = .ok song) :
    ∀ decree, Emission.toEgress decree ∈ song.outbox → decree.connection? = none := by
  intro decree hmem
  cases stage with
  | entry pilgrim =>
      obtain ⟨worker, jump, -, rfl⟩ := advance_entry h
      cases hmem
  | loop worker =>
      obtain ⟨worker', jump, -, rfl⟩ := advance_loop h
      obtain ⟨request, -, hgrant⟩ := List.mem_flatMap.mp hmem
      exact decree_grant hgrant
  | exit pilgrim result =>
      cases h
      cases hmem

/-- The temple sends egress at most an answer. -/
theorem serve_decrees (s : Server) (temple : Temple) (wish : Wish) (wishes : List Wish) :
    (s.serve temple wish wishes).decrees = s.decrees ∨
      ∃ decree : Decree, decree.connection? = none ∧
        (s.serve temple wish wishes).decrees = s.decrees ++ [decree] := by
  unfold serve
  split
  case h_1 temple' decree hturn =>
    have hreply : decree.IsReplyTo wish.token := Temple.turn_isReplyTo (congrArg Prod.snd hturn)
    exact .inr ⟨decree, hreply.connection?_eq_none, rfl⟩
  case h_2 => exact .inl rfl

theorem Posts.step (hs : s.Sound build streams) (h : s.Posts)
    (hstep : Transition build streams s s') : s'.Posts := by
  have hknown : ∀ token, s.Known token → s'.Known token := fun _ => Known.transition hstep
  -- the decrees of before, and one more
  have hmore : ∀ more : Decree, (∀ token, more.connection? = some token → s'.Known token) →
      ∀ decree ∈ s.decrees ++ [more], ∀ token, decree.connection? = some token →
        s'.Known token := by
    intro more hnew decree hmem token htoken
    rw [List.mem_append, List.mem_singleton] at hmem
    obtain hmem | rfl := hmem
    · exact hknown token (h.decrees decree hmem token htoken)
    · exact hnew token htoken
  have hsame : ∀ decree ∈ s.decrees, ∀ token, decree.connection? = some token →
      s'.Known token := by
    intro decree hmem token htoken
    exact hknown token (h.decrees decree hmem token htoken)
  cases hstep with
  | collect hreturned => exact ⟨h.outbox, hsame⟩
  | notice token => exact ⟨h.outbox, hsame⟩
  | accept =>
      refine ⟨h.outbox, hmore _ ?_⟩
      rintro _ ⟨⟩
      exact ⟨hs.counter, Nat.lt_succ_self _⟩
  | ready hget => exact ⟨h.outbox, hsame⟩
  | ignore => exact h
  | pick hangels hsongs =>
      refine ⟨songs_around hangels h.outbox ?_, hsame⟩
      rintro _ ⟨⟩ decree hmem
      cases hmem
  | @send before after token' stage emission outbox hangels =>
      have houtbox := h.outbox _ (mem_angels hangels)
      have hangels' : ∀ song, Angel.singing song ∈
          before ++ .singing ⟨token', stage, outbox⟩ :: after → ∀ decree,
            Emission.toEgress decree ∈ song.outbox → decree.connection? = none := by
        apply songs_around hangels h.outbox
        rintro _ ⟨⟩ decree hmem
        exact houtbox decree (List.mem_cons_of_mem _ hmem)
      cases emission with
      | toTemple wish => exact ⟨hangels', hsame⟩
      | toEgress decree =>
          refine ⟨hangels', hmore decree ?_⟩
          intro token htoken
          rw [houtbox decree List.mem_cons_self] at htoken
          cases htoken
  | advance clock hangels hstage hsong =>
      refine ⟨songs_around hangels h.outbox ?_, hsame⟩
      rintro _ ⟨⟩
      exact outbox_advance hsong
  | panic clock hangels hstage hpanic =>
      exact ⟨songs_around hangels h.outbox fun _ hsong => (nomatch hsong), hsame⟩
  | finish hangels =>
      exact ⟨songs_around hangels h.outbox fun _ hsong => (nomatch hsong), hsame⟩
  | @goodbye before after token' pilgrim sin hangels =>
      refine ⟨songs_around hangels h.outbox fun _ hsong => (nomatch hsong), hmore _ ?_⟩
      rintro _ ⟨⟩
      exact hs.known_of_moves (moves_angel .idle hangels fun _ _ => rfl)
  | @turn temple wish wishes htemple hwishes =>
      have houtbox := h.outbox
      rw [← (serve_rest s temple wish wishes).2] at houtbox
      refine ⟨houtbox, ?_⟩
      obtain hdecrees | ⟨decree, hdecree, hdecrees⟩ := serve_decrees s temple wish wishes
      · rw [hdecrees]
        exact hsame
      · rw [hdecrees]
        apply hmore
        intro token htoken
        rw [hdecree] at htoken
        cases htoken

end Server

namespace Egress

variable {room : ℕ → ℕ} {e : Egress} {decree : Decree}

/-- What a decree adds to the notices: a client who has a stream, or to whom it says goodbye. -/
theorem notices_process (room : ℕ → ℕ) (e : Egress) (decree : Decree) :
    ∃ more, (e.process room decree).notices = e.notices ++ more ∧
      ∀ token ∈ more, decree.connection? = some token ∨ (e.egressMap.get? token).isSome := by
  cases decree with
  | welcome token => exact ⟨[], (List.append_nil _).symm, fun _ h => nomatch h⟩
  | goodbye token =>
      refine ⟨[token], rfl, ?_⟩
      intro token' h
      rw [List.mem_singleton.mp h]
      exact .inl rfl
  | deliver gift =>
      cases hstream : e.egressMap.get? gift.token with
      | none =>
          refine ⟨[], ?_, fun _ h => nomatch h⟩
          simp only [process, hstream, List.append_nil]
      | some stream =>
          simp only [process, hstream]
          split_ifs
          · exact ⟨[], (List.append_nil _).symm, fun _ h => nomatch h⟩
          · refine ⟨[gift.token], rfl, ?_⟩
            intro token h
            rw [List.mem_singleton.mp h, hstream]
            exact .inr rfl
  | broadcast token event message clients =>
      refine ⟨[], ?_, fun _ h => nomatch h⟩
      simp only [process, foldl_writeTo, writeTo_eq, List.append_nil]

/-- A client with a stream had one before, or has been welcomed. -/
theorem isSome_get?_process {token : Token}
    (h : ((e.process room decree).egressMap.get? token).isSome) :
    decree.connection? = some token ∨ (e.egressMap.get? token).isSome := by
  rw [process_egressMap] at h
  cases decree with
  | welcome token' =>
      simp only [Dict.get?_insert] at h
      split_ifs at h with heq
      · rw [heq]
        exact .inl rfl
      · exact .inr h
  | goodbye token' =>
      simp only [Dict.get?_erase] at h
      split_ifs at h with heq
      · cases h
      · exact .inr h
  | deliver gift => exact .inr h
  | broadcast publisher event message clients => exact .inr h

end Egress

/-! ### The server with egress -/

/-- The server and egress, and what they have taken from the channels between them. -/
structure Realm where
  server : Server
  egress : Egress
  /-- How many decrees egress has taken. -/
  processed : ℕ
  /-- How many notices the server loop has taken. -/
  noticed : ℕ

inductive Realm.Action where
  /-- A step of the server and its threads; a notice comes from egress alone. -/
  | server (action : Server.Action) (h : ∀ token, action ≠ .notice token)
  /-- Egress takes a decree. -/
  | process
  /-- The server loop takes a notice. -/
  | notice

namespace Realm

variable (build : Build) (streams : Token → TcpStream) (room : ℕ → ℕ)

def start (ioThreads : ℕ) (soul : Soul) (config : Config) : Realm :=
  ⟨.start ioThreads soul config, .start, 0, 0⟩

def step (r : Realm) : Action → Except Unit Realm
  | .server action _ => (r.server.step build streams action).map fun server => { r with server }
  | .process =>
      match r.server.decrees[r.processed]? with
      | some decree =>
          .ok { r with
            egress := r.egress.process room decree
            processed := r.processed + 1 }
      | none => .error ()
  | .notice =>
      match r.egress.notices[r.noticed]? with
      | some token =>
          (r.server.step build streams (.notice token)).map fun server =>
            { r with server, noticed := r.noticed + 1 }
      | none => .error ()

/-- The tokens that egress has reported and the server loop has taken. -/
def reported (r : Realm) : List Token := r.egress.notices.take r.noticed

/-- No client that has been reported is alive. -/
def StaysDead (r : Realm) : Prop := ∀ token ∈ r.reported, r.server.Dead build streams token

/-- A report is taken when the client's pilgrim is not under way. -/
def TakesSettled (r : Realm) : Action → Prop
  | .notice => ∀ token ∈ r.egress.notices[r.noticed]?, r.server.Settled token
  | _ => True

instance (r : Realm) : DecidablePred r.TakesSettled
  | .notice => inferInstanceAs (Decidable (∀ token ∈ r.egress.notices[r.noticed]?, _))
  | .server _ _ | .process => inferInstanceAs (Decidable True)

/-- What holds of every state of a run in which each report is taken from a settled client. -/
structure Sound (r : Realm) : Prop where
  server : r.server.Sound build streams
  posts : r.server.Posts
  connected : ∀ token, (r.egress.egressMap.get? token).isSome → r.server.Known token
  notices : ∀ token ∈ r.egress.notices, r.server.Known token
  noticed : r.noticed ≤ r.egress.notices.length
  barred : ∀ token ∈ r.reported, r.server.Barred token

variable {build streams room} {r r' : Realm}

/-- A step of the server leaves egress alone. -/
theorem Sound.serverStep (h : r.Sound build streams) {server : Server}
    (hstep : Server.Transition build streams r.server server) :
    ({ r with server } : Realm).Sound build streams where
  server := h.server.step hstep
  posts := h.posts.step h.server hstep
  connected token hconnected := (h.connected token hconnected).transition hstep
  notices token hmem := (h.notices token hmem).transition hstep
  noticed := h.noticed
  barred token hmem :=
    hstep.barred (h.notices token (List.mem_of_mem_take hmem)) (h.barred token hmem)

/-- Egress reports clients that the server knows. -/
theorem Sound.processStep (h : r.Sound build streams) {decree : Decree}
    (hdecree : r.server.decrees[r.processed]? = some decree) :
    ({ r with
      egress := r.egress.process room decree
      processed := r.processed + 1 } : Realm).Sound build streams := by
  have hknown := h.posts.decrees decree (List.mem_of_getElem? hdecree)
  obtain ⟨more, hmore, hnew⟩ := Egress.notices_process room r.egress decree
  refine ⟨h.server, h.posts, ?_, ?_, ?_, ?_⟩
  · intro token hconnected
    obtain hnow | hbefore := Egress.isSome_get?_process hconnected
    · exact hknown token hnow
    · exact h.connected token hbefore
  · rw [hmore]
    apply List.forall_mem_append.mpr ⟨h.notices, ?_⟩
    intro token hmem
    obtain hnow | hbefore := hnew token hmem
    · exact hknown token hnow
    · exact h.connected token hbefore
  · rw [hmore, List.length_append]
    exact h.noticed.trans (Nat.le_add_right _ _)
  · intro token hmem
    rw [reported, hmore, List.take_append_of_le_length h.noticed] at hmem
    exact h.barred token hmem

/-- A client that is settled when its report is taken is barred from then on. -/
theorem Sound.noticeStep (h : r.Sound build streams) {token : Token} {server : Server}
    (htoken : r.egress.notices[r.noticed]? = some token) (hsettled : r.server.Settled token)
    (hserver : r.server.step build streams (.notice token) = .ok server) :
    ({ r with server, noticed := r.noticed + 1 } : Realm).Sound build streams := by
  have hsound := h.serverStep (Server.step_transition hserver)
  obtain ⟨hlt, -⟩ := List.getElem?_eq_some_iff.mp htoken
  refine ⟨hsound.server, hsound.posts, hsound.connected, hsound.notices, hlt, ?_⟩
  intro token' hmem
  rw [reported, List.take_add_one, htoken, List.mem_append] at hmem
  obtain hmem | hmem := hmem
  · exact hsound.barred token' hmem
  · obtain rfl := List.mem_singleton.mp hmem
    exact Server.barred_notice hsettled hserver

/-- **The step lemma.** -/
theorem Sound.step (h : r.Sound build streams) {action : Action} (hsettled : r.TakesSettled action)
    (hstep : r.step build streams room action = .ok r') : r'.Sound build streams := by
  cases action with
  | server action hnotice =>
      cases hserver : r.server.step build streams action with
      | error e =>
          simp only [Realm.step, hserver] at hstep
          cases hstep
      | ok server =>
          simp only [Realm.step, hserver] at hstep
          cases hstep
          exact h.serverStep (Server.step_transition hserver)
  | process =>
      cases hdecree : r.server.decrees[r.processed]? with
      | none =>
          simp only [Realm.step, hdecree] at hstep
          cases hstep
      | some decree =>
          simp only [Realm.step, hdecree] at hstep
          cases hstep
          exact h.processStep hdecree
  | notice =>
      cases htoken : r.egress.notices[r.noticed]? with
      | none =>
          simp only [Realm.step, htoken] at hstep
          cases hstep
      | some token =>
          cases hserver : r.server.step build streams (.notice token) with
          | error e =>
              simp only [Realm.step, htoken, hserver] at hstep
              cases hstep
          | ok server =>
              simp only [Realm.step, htoken, hserver] at hstep
              cases hstep
              exact h.noticeStep htoken (hsettled token htoken) hserver

theorem sound_start (build : Build) (streams : Token → TcpStream) (ioThreads : ℕ) (soul : Soul)
    (config : Config) : (start ioThreads soul config).Sound build streams where
  server := Server.sound_start build streams ioThreads soul config
  posts := by
    refine ⟨?_, fun _ hmem => nomatch hmem⟩
    intro song hsong
    cases List.eq_of_mem_replicate hsong
  connected token h := by
    rw [start, Egress.start, Dict.get?_empty] at h
    cases h
  notices token hmem := nomatch hmem
  noticed := Nat.le_refl 0
  barred token hmem := nomatch hmem

end Realm

/-- **A connection stays dead** throughout every run in which each report about a client is taken
when the client's pilgrim is not under way. -/
theorem stays_dead (build : Build) (streams : Token → TcpStream) (room : ℕ → ℕ) (ioThreads : ℕ)
    (soul : Soul) (config : Config) (actions : List Realm.Action)
    (h : Always (Realm.step build streams room) Realm.TakesSettled
      (.start ioThreads soul config) actions) :
    Throughout (Realm.step build streams room) (Realm.StaysDead build streams)
      (.start ioThreads soul config) actions := by
  have hsound := h.throughout (I := Realm.Sound build streams)
    (fun r action r' hsettled hr hstep => hr.step hsettled hstep)
    (Realm.sound_start build streams ioThreads soul config)
  intro pre post r hsplit hrun token hmem
  exact Server.dead_of_get?_eq_none ((hsound pre post r hsplit hrun).barred token hmem).mapped

/-- Client 1 is served until its first song begins. -/
def firstSong : List Realm.Action :=
  [.server .accept nofun, .process, .server (.ready 1) nofun, .server (.pick 0) nofun]

/-- Let angel 0 sing, a number of times. -/
def singing (n : ℕ) : List Realm.Action := List.replicate n (.server (.sing 0 .unixEpoch) nofun)

/-- The client has hung up: its song fails, and egress reports it. -/
theorem stays_dead_hungUp :
    Throughout (Realm.step .release (fun _ => [.closed]) fun _ => 100)
      (Realm.StaysDead .release fun _ => [.closed]) (.start 1 Soul.new ∅)
      (firstSong ++ singing 2 ++ [.process, .notice]) :=
  stays_dead .release (fun _ => [.closed]) (fun _ => 100) 1 Soul.new ∅ _ (by decide +kernel)

/-- Client 1 sends PING, and its reply cannot be written.  The report about it is taken while the
song goes on, and then the song returns the pilgrim. -/
def reportedTooEarly : List Realm.Action :=
  firstSong ++ singing 7 ++ [.process, .notice] ++ singing 2 ++ [.server .collect nofun]

/-- The client is served again. -/
theorem reported_client_revives :
    ¬ ∀ (build : Build) (streams : Token → TcpStream) (room : ℕ → ℕ) (ioThreads : ℕ) (soul : Soul)
      (config : Config) (actions : List Realm.Action),
      Throughout (Realm.step build streams room) (Realm.StaysDead build streams)
        (.start ioThreads soul config) actions := by
  intro h
  let streams : Token → TcpStream := fun _ => [.data 42 (ascii "1\r\n$4\r\nPING\r\n")]
  have hrunAll : (runAll (Realm.step .release streams fun _ => 0) (.start 1 Soul.new ∅)
      reportedTooEarly).map (fun r => decide (1 ∈ r.reported) &&
        (r.server.ingressMap.get? 1).isSome) = .ok true := by decide +kernel
  obtain ⟨r, hrun, hseen⟩ := exists_run _ _ _ hrunAll
  rw [Bool.and_eq_true, decide_eq_true_eq] at hseen
  have hdead := h .release streams (fun _ => 0) 1 Soul.new ∅ reportedTooEarly reportedTooEarly [] r
    (List.append_nil _).symm hrun 1 hseen.1
  rw [hdead.1] at hseen
  cases hseen.2

end Heaven
