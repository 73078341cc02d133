import Heaven.Failures
import Heaven.SerialOrder
import Heaven.Settling

/-! # What a client reads

A client behaves if it sends requests which the server can read and which the worker hands on to the
temple, and stays connected.  While no write to it fails, nothing goes wrong with it, whatever the
other clients do: its pilgrim is not lost, and nothing reaches egress for it but what the temple
answers (`Unharmed`).

Other clients can take angels from the pool, one each: in a release build, which is meant here,
those that announce lengths that are too large.  As long as one is left and the temple lives, each
client that behaves has at rest been sent exactly what one execution of the commands, in some order
that is the order of each client, answers to it; and from the bytes on its connection it reads
exactly these replies (`end_to_end`). -/

namespace Heaven

open Custody (found Moves)
open Decimal (ascii)
open Runs
open Serial

/-! ### Commands for the temple alone -/

/-- The worker hands the command on, and does not answer it. -/
def Request.HandedOn (request : Request) : Prop := ¬ AnsweredByWorker request.val request.ne_nil

instance : DecidablePred Request.HandedOn := fun request =>
  inferInstanceAs (Decidable (¬ AnsweredByWorker request.val request.ne_nil))

theorem Request.HandedOn.toTemple {request : Request} (h : request.HandedOn) :
    request.ToTemple := by
  by_contra hnot
  exact h (.inl hnot)

theorem Request.HandedOn.emission {request : Request} (h : request.HandedOn) {clock : SystemTime}
    {token : Token} {emission : Emission}
    (hmem : emission ∈ grant request.val request.ne_nil clock token) :
    ∃ wish, emission = .toTemple wish := by
  cases emission with
  | toTemple wish => exact ⟨wish, rfl⟩
  | toEgress decree =>
      exact absurd ((toEgress_iff request.val request.ne_nil clock token).mp ⟨decree, hmem⟩) h

/-- The client sends all of its requests and stays, and all of them are for the temple. -/
structure Behaves (streams : Token → TcpStream) (requests : Token → List Request) (token : Token) :
    Prop where
  complete : Complete (requests token) (streams token)
  handedOn : ∀ request ∈ requests token, request.HandedOn

theorem Behaves.not_announcesHuge {streams : Token → TcpStream} {requests : Token → List Request}
    {token : Token} (h : Behaves streams requests token) :
    ¬ AnnouncesHuge (streams token).payload := by
  apply Heaven.not_announcesHuge h.complete.fits
  rw [h.complete.bytes]

/-- The parser finds exactly the requests. -/
theorem Behaves.asked_eq {streams : Token → TcpStream} {requests : Token → List Request}
    {token : Token} (h : Behaves streams requests token) :
    asked (streams token).payload = requests token := by
  rw [h.complete.bytes]
  exact asked_encodeAll h.complete.fits

/-! ### What a client reads of a decree -/

def repliesFor (client : Token) (decrees : List Decree) : List Resp :=
  (Egress.packetsFor client decrees).flatMap Packet.replies

theorem respond_plain {α : Type} {answer : α → Response} {called : Soul × Except Sacrilege α}
    (h : ∀ a, answer a ≠ .info .command) : (respond answer called).2 ≠ .ok (.info .command) := by
  intro heq
  cases hcalled : called.2 with
  | ok a =>
      simp only [respond, hcalled, replyTo, Except.ok.injEq] at heq
      exact h a heq
  | error sacrilege => simp [respond, hcalled, replyTo] at heq

theorem respondOrPanic_plain {α : Type} {answer : α → Response}
    {called : Soul × Except Panic (Except Sacrilege α)} (h : ∀ a, answer a ≠ .info .command) :
    (respondOrPanic answer called).2 ≠ .ok (.info .command) := by
  intro heq
  rcases hcalled : called.2 with panic | sacrilege | a
  · simp [respondOrPanic, hcalled, Except.map] at heq
  · simp [respondOrPanic, hcalled, Except.map, replyTo] at heq
  · simp only [respondOrPanic, hcalled, Except.map, replyTo, Except.ok.injEq] at heq
    exact h a heq

/-- The store does not answer with the table of COMMAND. -/
theorem database_plain (soul : Soul) (config : Config) (cmd : DatabaseCommand) :
    (database soul config cmd).2 ≠ .ok (.info .command) := by
  cases cmd with
  | lrange | lset | lrem => exact respondOrPanic_plain fun _ heq => by cases heq
  | ttl key time =>
      intro heq
      cases hcalled : (soul.ttl key time).2 <;> simp [database, hcalled, Except.map] at heq
  | _ =>
      -- a reply to a result, or one that does not depend on it
      first
      | exact respond_plain fun _ heq => by cases heq
      | exact fun heq => by cases heq

/-- No answer of the temple is the table of COMMAND. -/
theorem turn_plain {t : Temple} {wish : Wish} {decree : Decree}
    (h : (t.turn wish).2 = .ok decree) : ∀ p ∈ decree.packets, ¬ p.2.IsTable := by
  obtain ⟨token, cmd | cmd⟩ := wish
  · simp only [Temple.turn] at h
    split_ifs at h
    · cases h
      simp [Temple.deliver, Decree.packets, Packet.IsTable]
    · have hplain := database_plain t.soul t.config cmd
      cases hr : (database t.soul t.config cmd).2 with
      | error panic => simp [hr, Except.map] at h
      | ok response =>
          simp only [hr, Except.map, Except.ok.injEq] at h
          rw [hr] at hplain
          subst h
          simpa [Temple.deliver, Decree.packets, Packet.IsTable] using hplain
  · cases cmd with
    | subscribe events =>
        cases h
        simp [Temple.deliver, Decree.packets, Packet.IsTable]
    | unsubscribe terms =>
        cases h
        simp [Temple.deliver, Decree.packets, Packet.IsTable]
    | publish event message =>
        cases h
        intro p hp
        rw [Decree.packets, List.mem_append, List.mem_map, List.mem_singleton] at hp
        obtain ⟨client, -, rfl⟩ | rfl := hp
        · exact fun heq => by cases heq
        · exact fun heq => by cases heq

namespace Server

variable {build : Build} {streams : Token → TcpStream} {requests : Token → List Request}
  {s s' : Server} {token : Token}

/-! ### Nothing goes wrong -/

/-- Nothing goes wrong with the client: its pilgrim is not lost, it is not said goodbye to, its song
has wishes to send only, and egress is sent for it what the temple answers. -/
structure Unharmed (s : Server) (token : Token) : Prop where
  connected : s.Known token → s.holders token ≠ 0
  stays : .goodbye token ∉ s.decrees
  outbox : ∀ song, Angel.singing song ∈ s.angels → song.token = token →
    ∀ emission ∈ song.outbox, ∃ wish, emission = .toTemple wish
  packets : Egress.packetsFor token s.decrees = Egress.packetsFor token s.answers

theorem sing_ingressMap (i : ℕ) (song : Song) (clock : SystemTime) :
    (s.sing build clock i song).ingressMap = s.ingressMap := by
  unfold sing
  split
  · rename_i emission outbox _
    cases emission <;> rfl
  · rfl
  · rfl
  · split <;> rfl

theorem serve_ingressMap (temple : Temple) (wish : Wish) (wishes : List Wish) :
    (s.serve temple wish wishes).ingressMap = s.ingressMap := by
  unfold serve
  split <;> rfl

/-- A step that is no notice of the client takes its pilgrim from the map only to queue it. -/
theorem step_keepsMapped {action : Action} (hnotice : action ≠ .notice token)
    (hstep : s.step build streams action = .ok s') {pilgrim : Pilgrim}
    (hget : s.ingressMap.get? token = some pilgrim) :
    (s'.ingressMap.get? token).isSome ∨ s'.songs ≠ s.songs := by
  cases action with
  | collect =>
      rcases hreturned : s.returned with _ | ⟨⟨token', pilgrim'⟩, returned⟩
      · simp [step, hreturned] at hstep
      · simp only [step, hreturned, Except.ok.injEq] at hstep
        subst hstep
        left
        simp only [Dict.get?_insert]
        split_ifs <;> simp [hget]
  | notice token' =>
      have hne : token ≠ token' := fun heq => hnotice (heq ▸ rfl)
      simp only [step] at hstep
      split_ifs at hstep
      cases hstep
      left
      simp [Dict.get?_erase, hne, hget]
  | accept =>
      simp only [step, Except.ok.injEq] at hstep
      subst hstep
      left
      simp only [Dict.get?_insert]
      split_ifs <;> simp [hget]
  | ready token' =>
      cases hget' : s.ingressMap.get? token' with
      | none =>
          simp only [step, hget', Except.ok.injEq] at hstep
          subst hstep
          exact .inl (by simp [hget])
      | some pilgrim' =>
          simp only [step, hget'] at hstep
          split_ifs at hstep
          cases hstep
          exact .inr (by simp)
  | pick i =>
      simp only [step] at hstep
      split at hstep
      case h_1 => cases hstep; exact .inl (by simp [hget])
      case h_2 => cases hstep
  | sing i clock =>
      simp only [step] at hstep
      split at hstep
      case h_1 song hangel =>
        cases hstep
        left
        rw [sing_ingressMap, hget]
        rfl
      case h_2 => cases hstep
  | turn =>
      simp only [step] at hstep
      split at hstep
      case h_1 temple wish wishes htemple hwishes =>
        cases hstep
        left
        rw [serve_ingressMap, hget]
        rfl
      case h_2 => cases hstep

/-- A pilgrim that is moved stays with the server. -/
theorem connected_of_moves {old new : Spot} {mover : Token}
    (h : s.Known token → s.holders token ≠ 0)
    (hmoves : Moves s.holders s'.holders mover {old} {new})
    (hcounter : s'.pilgrimCounter = s.pilgrimCounter) : s'.Known token → s'.holders token ≠ 0 := by
  intro hknown
  by_cases heq : token = mover
  · obtain ⟨rest, -, hnew⟩ := hmoves.own
    rw [heq, hnew, Multiset.singleton_add]
    exact Multiset.cons_ne_zero
  · rw [hmoves.others token heq]
    apply h
    rwa [Known, hcounter] at hknown

/-- A song of a client that sends readable requests is fit for its next step, and cannot fail. -/
theorem Sound.singing (h : s.Sound build streams) {before after : List Angel} {song : Song}
    {todo : List Request} (hangels : s.angels = before ++ .singing song :: after)
    (hcomplete : Complete todo (streams song.token)) :
    ∃ sent, Singing (Discipline.fits build todo [] hcomplete.fits) song.token sent song := by
  have hbytes : encodeAll todo = (streams song.token).payload ++ [] := by
    rw [List.append_nil, hcomplete.bytes]
  exact h.singing_of _ hangels ⟨_, rests_new hcomplete.stays hbytes⟩

/-- The decrees and answers are as before. -/
theorem Unharmed.quietly (h : s.Unharmed token) (hconnected : s'.Known token → s'.holders token ≠ 0)
    (houtbox : ∀ song, Angel.singing song ∈ s'.angels → song.token = token →
      ∀ emission ∈ song.outbox, ∃ wish, emission = .toTemple wish)
    (hdecrees : s'.decrees = s.decrees) (hexecuted : s'.executed = s.executed) :
    s'.Unharmed token where
  connected := hconnected
  stays := by
    rw [hdecrees]
    exact h.stays
  outbox := houtbox
  packets := by
    rw [hdecrees, Server.answers, hexecuted]
    exact h.packets

/-- Egress is sent a decree that does not concern the client, or welcomes it. -/
theorem Unharmed.apart (h : s.Unharmed token) (hconnected : s'.Known token → s'.holders token ≠ 0)
    (houtbox : ∀ song, Angel.singing song ∈ s'.angels → song.token = token →
      ∀ emission ∈ song.outbox, ∃ wish, emission = .toTemple wish)
    {decree : Decree} (hdecrees : s'.decrees = s.decrees ++ [decree])
    (hne : decree ≠ .goodbye token) (hnone : Egress.packetsFor token [decree] = [])
    (hexecuted : s'.executed = s.executed) : s'.Unharmed token where
  connected := hconnected
  stays := by
    rw [hdecrees, List.mem_append, List.mem_singleton, not_or]
    exact ⟨h.stays, hne.symm⟩
  outbox := houtbox
  packets := by
    rw [hdecrees, Egress.packetsFor_append, hnone, List.append_nil, Server.answers, hexecuted]
    exact h.packets

/-- The answer of the temple is sent to egress. -/
theorem Unharmed.serve (h : s.Unharmed token) {temple : Temple} {wish : Wish} {wishes : List Wish}
    (hwishes : s.wishes = wish :: wishes) : (s.serve temple wish wishes).Unharmed token := by
  obtain ⟨hcounter, hangels⟩ := s.serve_rest temple wish wishes
  have hdecrees : .goodbye token ∉ (s.serve temple wish wishes).decrees ∧
      Egress.packetsFor token (s.serve temple wish wishes).decrees =
        Egress.packetsFor token (s.serve temple wish wishes).answers := by
    unfold Server.serve
    split
    case h_1 temple' decree hturn =>
      have hnone : decree.connection? = none :=
        (Temple.turn_isReplyTo (congrArg Prod.snd hturn)).connection?_eq_none
      have hanswers : Server.answers { s with
          wishes, temple := some temple', executed := s.executed ++ [(wish, .ok decree)],
          decrees := s.decrees ++ [decree] } = s.answers ++ [decree] := by
        simp [Server.answers, List.filterMap_append, Except.toOption]
      refine ⟨?_, ?_⟩
      · rw [List.mem_append, List.mem_singleton, not_or]
        refine ⟨h.stays, ?_⟩
        rintro rfl
        cases hnone
      · rw [hanswers, Egress.packetsFor_append, Egress.packetsFor_append, h.packets]
    case h_2 temple' panic hturn =>
      refine ⟨h.stays, ?_⟩
      have hold := h.packets
      simp only [Server.answers] at hold
      simp [Server.answers, List.filterMap_append, hold, Except.toOption]
  refine ⟨?_, hdecrees.1, ?_, hdecrees.2⟩
  · intro hknown
    rw [(serve_same temple hwishes token).1]
    rw [Known, hcounter] at hknown
    exact h.connected hknown
  · rw [hangels]
    exact h.outbox

/-- A notice loses no pilgrim that is not in the map, and none of another client. -/
theorem holders_notice {reported : Token}
    (hunmapped : token = reported → s.ingressMap.get? token = none) :
    holders { s with ingressMap := s.ingressMap.erase reported } token = s.holders token := by
  simp only [holders, Dict.get?_erase]
  split_ifs with heq
  · rw [hunmapped heq]
  · rfl

/-- The next client is welcomed, and its pilgrim put into the map. -/
theorem Unharmed.accept (h : s.Unharmed token) {pilgrim : Pilgrim} :
    Unharmed { s with
      ingressMap := s.ingressMap.insert s.pilgrimCounter pilgrim
      pilgrimCounter := s.pilgrimCounter + 1
      decrees := s.decrees ++ [.welcome s.pilgrimCounter] } token := by
  refine h.apart ?_ h.outbox rfl (fun heq => by cases heq) rfl rfl
  intro hknown
  by_cases hnew : token = s.pilgrimCounter
  · simp [holders, hnew]
  · have hold : s.Known token := ⟨hknown.1, lt_of_le_of_ne (Nat.le_of_lt_succ hknown.2) hnew⟩
    have hsame := h.connected hold
    simpa only [holders, Dict.get?_insert, if_neg hnew] using hsame

/-- An angel sends what its song has to say. -/
theorem Unharmed.send (h : s.Unharmed token) (hg : s.Genuine) {before after : List Angel}
    {sender : Token} {stage : Stage} {emission : Emission} {outbox : List Emission}
    (hangels : s.angels = before ++ .singing ⟨sender, stage, emission :: outbox⟩ :: after) :
    (post { s with angels := before ++ .singing ⟨sender, stage, outbox⟩ :: after }
      emission).Unharmed token := by
  have houtbox : ∀ song, Angel.singing song ∈ before ++ .singing ⟨sender, stage, outbox⟩ :: after →
      song.token = token → ∀ emission ∈ song.outbox, ∃ wish, emission = .toTemple wish := by
    apply songs_around hangels h.outbox
    rintro _ ⟨⟩ htoken emission' hmem
    exact h.outbox _ (mem_angels hangels) htoken emission' (List.mem_cons_of_mem _ hmem)
  have hmoves := moves_send hangels
  cases emission with
  | toTemple wish => exact h.quietly (connected_of_moves h.connected hmoves rfl) houtbox rfl rfl
  | toEgress decree =>
      -- it is another client's, which has answers of its worker
      have hsaid : Said sender (.toEgress decree) :=
        hg.outbox _ (mem_angels hangels) _ List.mem_cons_self
      obtain ⟨response, rfl⟩ := hsaid.decree
      have hother : sender ≠ token := by
        intro heq
        obtain ⟨wish, hwish⟩ := h.outbox _ (mem_angels hangels) heq _ List.mem_cons_self
        cases hwish
      refine h.apart (connected_of_moves h.connected hmoves rfl) houtbox rfl
        (fun heq => by cases heq) ?_ rfl
      apply Egress.packetsFor_eq_nil
      intro p hp
      rw [List.mem_singleton.mp hp]
      exact hother

/-- A song of the client that goes on has made wishes only. -/
theorem outbox_of_advance (hs : s.Sound build streams) (hclient : Behaves streams requests token)
    {before after : List Angel} {stage : Stage} {song : Song} {clock : SystemTime}
    (hangels : s.angels = before ++ .singing ⟨token, stage, []⟩ :: after)
    (hstage : ¬ stage.Ended)
    (hadvance : Song.advance build clock ⟨token, stage, []⟩ = .ok song) :
    ∀ emission ∈ song.outbox, ∃ wish, emission = .toTemple wish := by
  intro emission hmem
  have hs' := hs.step (.advance clock hangels hstage hadvance)
  have hcomplete : Complete (requests token) (streams song.token) := by
    rw [(advance_own hadvance).1]
    exact hclient.complete
  obtain ⟨sent, hsinging⟩ := hs'.singing rfl hcomplete
  obtain ⟨request, hrequest, clock', hgrant⟩ := advance_outbox hadvance emission hmem
  exact (hclient.handedOn request (hsinging.granted.subset hrequest)).emission hgrant

/-- **The step lemma: with a client that behaves and is not dropped, nothing goes wrong.** -/
theorem Unharmed.step (h : s.Unharmed token) (hs : s.Sound .release streams) (hg : s.Genuine)
    (hclient : Behaves streams requests token)
    (hmapped : ∀ pilgrim, s.ingressMap.get? token = some pilgrim →
      (s'.ingressMap.get? token).isSome ∨ s'.songs ≠ s.songs)
    (hstep : Transition .release streams s s') : s'.Unharmed token := by
  cases hstep with
  | @collect mover pilgrim returned hreturned =>
      obtain ⟨life, -, hlife⟩ := hs.lives mover
      have hmoves := moves_collect hreturned (hlife.free hreturned)
      exact h.quietly (connected_of_moves h.connected hmoves rfl) h.outbox rfl rfl
  | notice reported =>
      refine h.quietly ?_ h.outbox rfl rfl
      intro hknown
      rw [holders_notice]
      · exact h.connected hknown
      · rintro rfl
        by_contra hne
        obtain ⟨pilgrim, hget⟩ := Option.ne_none_iff_exists'.mp hne
        have hdropped := hmapped pilgrim hget
        simp [Dict.get?_erase] at hdropped
  | accept => exact h.accept
  | ready hget =>
      exact h.quietly (connected_of_moves h.connected (moves_ready hget) rfl) h.outbox rfl rfl
  | ignore => exact h
  | pick hangels hsongs =>
      refine h.quietly (connected_of_moves h.connected (moves_pick hangels hsongs) rfl) ?_ rfl rfl
      apply songs_around hangels h.outbox
      rintro _ ⟨⟩ - emission hmem
      cases hmem
  | send hangels => exact h.send hg hangels
  | @advance before after singer stage song clock hangels hstage hadvance =>
      have hown := (advance_own hadvance).1
      have hmoves := moves_singing hangels hown
      refine h.quietly (connected_of_moves h.connected hmoves rfl) ?_ rfl rfl
      apply songs_around hangels h.outbox
      rintro _ ⟨⟩ htoken
      have hsinger : singer = token := hown.symm.trans htoken
      subst hsinger
      exact outbox_of_advance hs hclient hangels hstage hadvance
  | @panic before after singer stage panic clock hangels hstage hpanic =>
      have hother : token ≠ singer := by
        rintro rfl
        exact hclient.not_announcesHuge (kills_release.mp (hs.kills_of_panic hangels hpanic))
      have hmoves := moves_angel .gone hangels fun _ _ => rfl
      refine h.quietly ?_ (songs_around hangels h.outbox fun _ heq => by cases heq) rfl rfl
      intro hknown
      rw [hmoves.others token hother]
      exact h.connected hknown
  | finish hangels =>
      refine h.quietly (connected_of_moves h.connected (moves_finish hangels) rfl) ?_ rfl rfl
      exact songs_around hangels h.outbox fun _ heq => by cases heq
  | @goodbye before after singer pilgrim sin hangels =>
      have hother : token ≠ singer := by
        rintro rfl
        obtain ⟨sent, hsinging⟩ := hs.singing hangels hclient.complete
        exact hsinging.stage
      have hmoves : Moves s.holders (holders { s with
          angels := before ++ .idle :: after, decrees := s.decrees ++ [.goodbye singer] })
          singer _ 0 := moves_angel .idle hangels fun _ _ => rfl
      refine h.apart ?_ (songs_around hangels h.outbox fun _ heq => by cases heq) rfl
        (fun heq => hother (Decree.goodbye.inj heq).symm) rfl rfl
      intro hknown
      rw [hmoves.others token hother]
      exact h.connected hknown
  | turn htemple hwishes => exact h.serve hwishes

/-- No angel sings where no song of a known client is found. -/
theorem Sound.songless (h : s.Sound build streams)
    (hfound : ∀ token, s.Known token → s.angels.filterMap (sungAt token) = []) :
    ∀ song, Angel.singing song ∉ s.angels := by
  intro song hsong
  obtain ⟨before, after, hangels⟩ := List.append_of_mem hsong
  have hknown := h.known_of_moves (moves_angel .idle hangels fun _ _ => rfl)
  have hnone := List.filterMap_eq_nil_iff.mp (hfound _ hknown) _ hsong
  rw [sungAt, if_pos rfl] at hnone
  cases hnone

theorem unharmed_start (ioThreads : ℕ) (soul : Soul) (config : Config) (token : Token) :
    (start ioThreads soul config).Unharmed token where
  connected := by
    rintro ⟨hle, hlt⟩
    exact absurd hlt (Nat.not_lt_of_le hle)
  stays := fun hmem => by cases hmem
  outbox := by
    intro song hsong
    cases List.eq_of_mem_replicate hsong
  packets := rfl

end Server

namespace Egress

variable {room : ℕ → ℕ} {e : Egress} {decree : Decree}

theorem mem_on_process {stream : Stream} {w : Write} (h : w ∈ e.on stream) :
    w ∈ (e.process room decree).on stream := by
  unfold on at h ⊢
  rw [process_log, List.filter_append]
  exact List.mem_append_left _ h

/-- Egress reports a client when it says goodbye to it, or when a write to it has failed. -/
theorem mem_notices_process {token : Token} (h : token ∈ (e.process room decree).notices) :
    token ∈ e.notices ∨ decree = .goodbye token ∨
      ∃ stream, e.egressMap.get? token = some stream ∧
        ∃ w ∈ (e.process room decree).on stream, w.Failed := by
  cases decree with
  | welcome token' => exact .inl h
  | goodbye token' =>
      obtain hold | rfl := (List.mem_append.mp h).imp_right List.mem_singleton.mp
      · exact .inl hold
      · exact .inr (.inl rfl)
  | deliver gift =>
      cases hstream : e.egressMap.get? gift.token with
      | none =>
          simp only [process, hstream] at h
          exact .inl h
      | some stream =>
          let w := write room e.log.length stream (.reply gift.response)
          have hlog : w ∈ (e.process room (.deliver gift)).log := by
            rw [process_log]
            simp [Decree.packets, attempts, hstream, writes, w]
          have hon : w ∈ (e.process room (.deliver gift)).on stream :=
            List.mem_filter.mpr ⟨hlog, decide_eq_true rfl⟩
          simp only [process, hstream] at h
          split_ifs at h with hok
          · exact .inl h
          · obtain hold | rfl := (List.mem_append.mp h).imp_right List.mem_singleton.mp
            · exact .inl hold
            · refine .inr (.inr ⟨stream, hstream, w, hon, lt_of_le_of_ne w.sent_le ?_⟩)
              exact fun hall => hok (decide_eq_true hall)
  | broadcast token' event message clients =>
      simp only [process, foldl_writeTo, writeTo_eq] at h
      exact .inl h

end Egress

namespace Realm

variable {streams : Token → TcpStream} {requests : Token → List Request} {room : ℕ → ℕ}
  {r r' : Realm} {n : Stream}

/-- The client of the connection is known and behaves, and so far no write to it has failed. -/
structure Fair (streams : Token → TcpStream) (requests : Token → List Request) (r : Realm)
    (n : Stream) : Prop where
  known : r.server.Known (n + 1)
  behaves : Behaves streams requests (n + 1)
  whole : ∀ w ∈ r.egress.on n, ¬ w.Failed

/-- Nothing goes wrong with the client, and egress does not report it. -/
structure Untroubled (r : Realm) (n : Stream) : Prop where
  server : r.server.Unharmed (n + 1)
  notices : n + 1 ∉ r.egress.notices

/-- The step lemma. -/
theorem Untroubled.step (h : r.Untroubled n) (hr : r.Chronicle .release streams room)
    (hclient : Behaves streams requests (n + 1)) {action : Action}
    (hstep : r.step .release streams room action = .ok r')
    (hwhole : ∀ w ∈ r'.egress.on n, ¬ w.Failed) : r'.Untroubled n := by
  cases step_takes hstep with
  | @server action hnotice server hserver =>
      refine ⟨?_, h.notices⟩
      exact h.server.step hr.sound hr.genuine hclient
        (fun pilgrim hget => Server.step_keepsMapped (hnotice _) hserver hget)
        (Server.step_transition hserver)
  | @process decree hdecree =>
      refine ⟨h.server, ?_⟩
      intro hmem
      obtain hold | rfl | ⟨stream, hstream, w, hw, hfailed⟩ := Egress.mem_notices_process hmem
      · exact h.notices hold
      · exact h.server.stays (List.mem_of_getElem? hdecree)
      · obtain rfl := ((hr.get?_iff n stream).mp hstream).1
        exact hwhole w hw hfailed
  | @notice token server htoken hserver =>
      refine ⟨?_, h.notices⟩
      have hother : Server.Action.notice token ≠ .notice (n + 1) := by
        rintro ⟨⟩
        exact h.notices (List.mem_of_getElem? htoken)
      exact h.server.step hr.sound hr.genuine hclient
        (fun pilgrim hget => Server.step_keepsMapped hother hserver hget)
        (Server.step_transition hserver)

section Start

variable {ioThreads : ℕ} {soul : Soul} {config : Config} {actions : List Action}
  (hrun : Run (step .release streams room) (start ioThreads soul config) actions r)

include hrun

/-- **Nothing goes wrong with a client that behaves, while no write to it fails.** -/
theorem untroubled_run (hclient : Behaves streams requests (n + 1))
    (hwhole : ∀ w ∈ r.egress.on n, ¬ w.Failed) : r.Untroubled n := by
  have hall : r.Chronicle .release streams room ∧
      ((∀ w ∈ r.egress.on n, ¬ w.Failed) → r.Untroubled n) := by
    apply hrun.invariant (I := fun r => r.Chronicle .release streams room ∧
      ((∀ w ∈ r.egress.on n, ¬ w.Failed) → r.Untroubled n)) (P := fun _ => True) _
      (fun _ _ => trivial) ⟨chronicle_start .release streams room ioThreads soul config,
        fun _ => ⟨Server.unharmed_start ioThreads soul config _, fun hmem => by cases hmem⟩⟩
    rintro r action r' - ⟨hr, huntroubled⟩ hstep
    refine ⟨hr.step hstep, ?_⟩
    intro hwhole
    refine (huntroubled ?_).step hr hclient hstep hwhole
    -- what has not failed has not failed before
    intro w hw
    apply hwhole w
    cases step_takes hstep with
    | server hserver => exact hw
    | process hdecree => exact Egress.mem_on_process hw
    | notice htoken hserver => exact hw
  exact hall.2 hwhole

/-- No answer of the temple is the table of COMMAND. -/
theorem plain_run {client : Token} :
    ∀ p ∈ Egress.packetsFor client r.server.answers, ¬ p.IsTable := by
  obtain ⟨actions', hserver⟩ := exists_serverRun hrun
  intro p hp
  obtain ⟨⟨client', packet⟩, hmem, hpacket⟩ := List.mem_filterMap.mp hp
  split_ifs at hpacket with hclient
  cases hpacket
  obtain ⟨decree, hdecree, hpackets⟩ := List.mem_flatMap.mp hmem
  obtain ⟨e, he, hanswer⟩ := List.mem_filterMap.mp hdecree
  obtain ⟨t, hturn⟩ := Server.executed_run hserver e he
  cases hresult : e.2 with
  | error panic => simp [hresult, Except.toOption] at hanswer
  | ok decree' =>
      simp only [hresult, Except.toOption, Option.some.injEq] at hanswer
      subst hanswer
      exact turn_plain (hturn.symm.trans hresult) _ hpackets

end Start

/-! ### At rest -/

/-- At rest the pilgrim of the client is in the map, and has read everything. -/
theorem Untroubled.mapped (h : r.Untroubled n) (hrests : r.Rests)
    (hleft : ∃ angel ∈ r.server.angels, angel.isGone = false) (hknown : r.server.Known (n + 1)) :
    ∃ pilgrim, r.server.ingressMap.get? (n + 1) = some pilgrim ∧ pilgrim.stream = [] := by
  obtain ⟨angel, hangel, hthere⟩ := hleft
  obtain hgone | ⟨hsongs, hstreams⟩ := hrests.pool
  · rw [hgone angel hangel] at hthere
    cases hthere
  cases hget : r.server.ingressMap.get? (n + 1) with
  | some pilgrim => exact ⟨pilgrim, rfl, hstreams (n + 1) pilgrim hget⟩
  | none =>
      apply absurd _ (h.server.connected hknown)
      apply holders_eq_zero hget hsongs hrests.returned
      rw [List.filterMap_eq_nil_iff]
      intro angel hangel
      cases angel with
      | singing song => exact absurd hangel (hrests.songless song)
      | idle => rfl
      | gone => rfl

/-- At rest everything that the client has sent has been executed. -/
theorem Fair.executed (hfair : r.Fair streams requests n) (h : r.Untroubled n)
    (hr : r.Chronicle .release streams room) (hrests : r.Rests)
    (hleft : ∃ angel ∈ r.server.angels, angel.isGone = false) (htemple : r.server.temple ≠ none) :
    Prayed (n + 1) (requests (n + 1)) (r.server.executedBy (n + 1)) := by
  obtain ⟨pilgrim, hget, hstream⟩ := h.mapped hrests hleft hfair.known
  have hread : pilgrim.stream.payload = [] := by
    rw [hstream]
    rfl
  have hwishes := hrests.wishes.resolve_left htemple
  apply hr.sound.executed_all hfair.behaves.complete hget hread
  intro wish hwish
  rw [hwishes] at hwish
  cases hwish

/-- At rest the client has been sent all packets for it. -/
theorem Untroubled.packets (h : r.Untroubled n) (hr : r.Chronicle .release streams room)
    (hrests : r.Rests) :
    (r.egress.on n).map Write.packet = Egress.packetsFor (n + 1) r.server.answers := by
  have htaken : r.taken = r.server.decrees := List.take_of_length_le hrests.decrees
  have hbelongs := (Egress.belongs room hr.proper_taken).packets n
  rw [hr.egress, hbelongs, htaken, Egress.beforeGoodbye_eq h.server.stays, h.server.packets]

/-- At rest there are commands that make the wishes of all clients: all those of a client that
behaves, and the first ones of any other. -/
theorem exists_done (hr : r.Chronicle .release streams room)
    (hall : ∀ n, r.Fair streams requests n →
      Prayed (n + 1) (requests (n + 1)) (r.server.executedBy (n + 1))) :
    ∃ done : Token → List Request,
      (∀ token, done token <+: asked (streams token).payload ∧
        Prayed token (done token) (r.server.executedBy token)) ∧
      ∀ n, r.Fair streams requests n → done (n + 1) = requests (n + 1) := by
  have hdone : ∀ token, ∃ done, (done <+: asked (streams token).payload ∧
      Prayed token done (r.server.executedBy token)) ∧
        ∀ n, token = n + 1 → r.Fair streams requests n → done = requests token := by
    intro token
    by_cases hfair : ∃ n, token = n + 1 ∧ r.Fair streams requests n
    · obtain ⟨n, rfl, hfair⟩ := hfair
      refine ⟨requests (n + 1), ⟨?_, hall n hfair⟩, fun _ _ _ => rfl⟩
      rw [hfair.behaves.asked_eq]
    · obtain ⟨done, hdone⟩ := hr.sound.executed_asked token
      exact ⟨done, hdone, fun n heq hn => absurd ⟨n, heq, hn⟩ hfair⟩
  choose done hspec hfair using hdone
  exact ⟨done, hspec, fun n => hfair (n + 1) n rfl⟩

end Realm

open Realm in
/-- **What a client reads** of a release build.  Let fewer clients than there are angels announce
lengths that are too large, and the others do what they like.  In a state at rest, with the temple
alive, there is an order of the commands that have been executed, with those of each client in its
order.  It has all commands of a client that behaves and to which no write has failed, and the
replies that this client reads from its connection are those that executing the commands one after
the other in this order answers to it. -/
theorem end_to_end {streams : Token → TcpStream} {requests : Token → List Request}
    {room : ℕ → ℕ} {ioThreads : ℕ} {soul : Soul} {config : Config}
    {actions : List Realm.Action} {r : Realm} {faulty : Finset Token}
    (hrun : Run (Realm.step .release streams room) (.start ioThreads soul config) actions r)
    (hfaulty : ∀ token, r.server.Known token → AnnouncesHuge (streams token).payload →
      token ∈ faulty)
    (hfew : faulty.card < ioThreads) (hrests : r.Rests) (htemple : r.server.temple ≠ none) :
    ∃ order, Server.Executes order r.server.executed ∧
      (∀ token, Server.commandsOf token order <+:
        (asked (streams token).payload).filter fun r => decide r.ToTemple) ∧
      Records Temple.turn { Temple.worship config with soul } r.server.executed
        r.server.temple ∧
      ∀ n, r.Fair streams requests n → Server.commandsOf (n + 1) order = requests (n + 1) ∧
        Resp.readAll (r.egress.sentOn n) = some (repliesFor (n + 1) r.server.answers) := by
  have hr := chronicle_run hrun
  obtain ⟨actions', hserver⟩ := exists_serverRun hrun
  have hleft := Server.angel_left hserver
    (fun token hknown hkills => hfaulty token hknown (kills_release.mp hkills)) hfew
  have huntroubled : ∀ n, r.Fair streams requests n → r.Untroubled n :=
    fun n hfair => untroubled_run hrun hfair.behaves hfair.whole
  obtain ⟨done, hdone, hfull⟩ := exists_done hr fun n hfair =>
    hfair.executed (huntroubled n hfair) hr hrests hleft htemple
  obtain ⟨order, hexecutes, horder⟩ := Server.exists_order fun token => (hdone token).2
  refine ⟨order, hexecutes, ?_, Server.records_run hserver, ?_⟩
  · intro token
    rw [horder]
    exact (hdone token).1.filter _
  · intro n hfair
    refine ⟨?_, ?_⟩
    · rw [horder, hfull n hfair, List.filter_eq_self]
      intro request hrequest
      exact decide_eq_true (hfair.behaves.handedOn request hrequest).toTemple
    · have hwire : r.egress.sentOn n =
          (Egress.packetsFor (n + 1) r.server.answers).flatMap Packet.bytes := by
        rw [← (huntroubled n hfair).packets hr hrests, Egress.sentOn, List.flatMap_map]
        apply List.flatMap_congr
        intro w hw
        exact List.take_of_length_le (not_lt.mp (hfair.whole w hw))
      rw [hwire, repliesFor]
      exact readAll_flatMap (plain_run hrun)

/-- Client 1 sends INCR n, and client 2 announces a length of 2 ^ 64 - 2. -/
def besideFaulty (token : Token) : TcpStream :=
  if token = 2 then Server.asStream (ascii "*1\r\n$18446744073709551614\r\nx")
  else Server.asStream (encodeAll (Server.onlyFirst 1 token))

theorem ready_ne_notice (client token : Token) : Server.Action.ready client ≠ .notice token := by
  intro heq
  cases heq

theorem pick_ne_notice (i : ℕ) (token : Token) : Server.Action.pick i ≠ .notice token := by
  intro heq
  cases heq

theorem sing_ne_notice (i : ℕ) (token : Token) :
    Server.Action.sing i .unixEpoch ≠ .notice token := by
  intro heq
  cases heq

theorem turn_ne_notice (token : Token) : Server.Action.turn ≠ .notice token := by
  intro heq
  cases heq

/-- The song of client 2 takes angel 0 along, and angel 1 serves client 1. -/
def besideFaultyActions : List Realm.Action :=
  [.server .accept accept_ne_notice, .server .accept accept_ne_notice, .process, .process,
    .server (.ready 2) (ready_ne_notice 2), .server (.pick 0) (pick_ne_notice 0)] ++
  List.replicate 6 (.server (.sing 0 .unixEpoch) (sing_ne_notice 0)) ++
  [.server (.ready 1) (ready_ne_notice 1), .server (.pick 1) (pick_ne_notice 1)] ++
  List.replicate 12 (.server (.sing 1 .unixEpoch) (sing_ne_notice 1)) ++
  [.server .collect collect_ne_notice, .server .turn turn_ne_notice, .process]

/-- Everybody but client 2 sends what fits. -/
theorem complete_besideFaulty {token : Token} (hne : token ≠ 2) :
    Complete (Server.onlyFirst 1 token) (besideFaulty token) := by
  rw [besideFaulty, if_neg hne]
  exact Server.complete_onlyFirst 1 token

theorem behaves_besideFaulty : Behaves besideFaulty (Server.onlyFirst 1) 1 where
  complete := complete_besideFaulty (by decide)
  handedOn := by
    intro request hrequest
    rw [Server.eq_incrN hrequest]
    decide

theorem eq_two_of_announcesHuge {token : Token}
    (h : AnnouncesHuge (besideFaulty token).payload) : token = 2 := by
  by_contra hne
  have hcomplete := complete_besideFaulty hne
  apply not_announcesHuge hcomplete.fits _ h
  rw [hcomplete.bytes]

/-- Client 1 sends INCR n and reads 1, beside a client that has killed an angel. -/
theorem end_to_end_besideFaulty :
    ∃ r, Run (Realm.step .release besideFaulty fun _ => 100) (.start 2 Soul.new ∅)
        besideFaultyActions r ∧
      r.server.gone = 1 ∧ Resp.readAll (r.egress.sentOn 0) = some [.integer 1] := by
  obtain ⟨r, hrun, hseen⟩ := exists_run (Realm.start 2 Soul.new ∅) besideFaultyActions
    (fun r : Realm => decide (r.server.decrees.length ≤ r.processed) &&
      decide (r.egress.notices.length ≤ r.noticed) && r.server.returned.isEmpty &&
      r.server.wishes.isEmpty && r.server.songs.isEmpty &&
      (r.server.angels.filterMap (Server.sungAt 1)).isEmpty &&
      (r.server.angels.filterMap (Server.sungAt 2)).isEmpty &&
      decide (r.server.pilgrimCounter = 3) && r.server.temple.isSome &&
      decide (∀ w ∈ r.egress.on 0, ¬ w.Failed) && decide (r.server.gone = 1) &&
      decide ((r.server.ingressMap.get? 1).map Pilgrim.stream = some []) &&
      (r.server.ingressMap.get? 2).isNone &&
      decide (Egress.packetsFor 1 r.server.answers = [.reply (.number 1)]))
    (by decide +kernel :
      (runAll (Realm.step .release besideFaulty fun _ => 100) _ _).map _ = .ok true)
  simp only [Bool.and_eq_true, decide_eq_true_eq, List.isEmpty_iff, Option.isNone_iff_eq_none]
    at hseen
  obtain ⟨⟨⟨⟨⟨⟨⟨⟨⟨⟨⟨⟨⟨hdecrees, hnotices⟩, hreturned⟩, hwishes⟩, hsongs⟩, hone⟩, htwo⟩, hcounter⟩,
    htemple⟩, hwhole⟩, hgone⟩, hstream⟩, hlost⟩, hpackets⟩ := hseen
  have hr := Realm.chronicle_run hrun
  have hknown : ∀ token, r.server.Known token → token = 1 ∨ token = 2 := by
    rintro token ⟨hle, hlt⟩
    rw [hcounter] at hlt
    obtain hlt | heq := Nat.lt_or_eq_of_le (Nat.le_of_lt_succ hlt)
    · exact .inl (Nat.le_antisymm (Nat.le_of_lt_succ hlt) hle)
    · exact .inr heq
  have hfirst : r.server.Known 1 := by
    rw [Server.Known, hcounter]
    decide
  have hfair : r.Fair besideFaulty (Server.onlyFirst 1) 0 :=
    ⟨hfirst, behaves_besideFaulty, hwhole⟩
  have hrests : r.Rests := by
    refine ⟨hdecrees, hnotices, hreturned, ?_, .inr hwishes, .inr ⟨hsongs, ?_⟩⟩
    · apply hr.sound.songless
      intro token htoken
      obtain rfl | rfl := hknown token htoken
      · exact hone
      · exact htwo
    · intro token pilgrim hget
      obtain rfl | rfl := hknown token (hr.sound.known_of_moves (Server.moves_notice hget))
      · rw [hget] at hstream
        exact Option.some.inj hstream
      · rw [hget] at hlost
        cases hlost
  have halive : r.server.temple ≠ none := Option.isSome_iff_ne_none.mp htemple
  have hfaulty : ∀ token, r.server.Known token → AnnouncesHuge (besideFaulty token).payload →
      token ∈ ({2} : Finset Token) := by
    intro token _ hannounces
    rw [Finset.mem_singleton]
    exact eq_two_of_announcesHuge hannounces
  obtain ⟨order, -, -, -, hreads⟩ := end_to_end hrun hfaulty (by decide) hrests halive
  obtain ⟨-, hread⟩ := hreads 0 hfair
  refine ⟨r, hrun, hgone, ?_⟩
  rw [hread, repliesFor, hpackets]
  rfl

end Heaven
