import Heaven.Lib.Descent
import Heaven.Lifecycle
import Heaven.Progress

/-! # The server comes to rest

What is due in a state is every step of a party but a new connection, and the server loop is told
of a socket only when something is in it.  Whatever the clients send, and however the parties take
turns, each due step lowers the `labour` of the realm: a pilgrim has less to read or to parse, or
comes nearer to its place in the map, and a message comes nearer to its end as wish, decree and
notice.  So no schedule goes on for ever, each state comes to rest, and a state at rest is one in
which all parties that are still there have done what they can (`comes_to_rest`). -/

namespace Heaven

open Custody (Moves)
open Decimal (ascii)
open Runs

/-! ### Buffers -/

def Stage.worker : Stage → Worker
  | .entry pilgrim => pilgrim.worker
  | .loop worker => worker
  | .exit pilgrim _ => pilgrim.worker

def Spot.worker : Spot → Worker
  | .mapped pilgrim | .queued pilgrim | .returned pilgrim => pilgrim.worker
  | .sung song => song.stage.worker

def Stage.WellFormed (stage : Stage) : Prop := stage.worker.virtue.WellFormed

variable {build : Build} {stream : TcpStream} {token : Token}

theorem virtue_stage (worker : Worker) (jump : WishJump) :
    (jump.stage worker).worker.virtue = worker.virtue := by
  cases jump <;> rfl

theorem advance_wellFormed {stage : Stage} {clock : SystemTime} {song : Song}
    (hwf : stage.WellFormed) (h : Song.advance build clock ⟨token, stage, []⟩ = .ok song) :
    song.stage.WellFormed := by
  unfold Stage.WellFormed
  cases stage with
  | entry pilgrim =>
      obtain ⟨worker, jump, hread, rfl⟩ := advance_entry h
      rw [virtue_stage]
      exact (readMore_keeps build hwf hread).1
  | loop worker =>
      obtain ⟨worker', jump, hpass, rfl⟩ := advance_loop h
      rw [virtue_stage]
      exact (pass_keeps build hwf hpass).1
  | exit pilgrim result =>
      cases h
      exact hwf

/-- Wherever the pilgrim of a client is, its buffer is well formed. -/
theorem Reached.wellFormed {life : Life} (h : Reached build stream token life) :
    ∀ spot ∈ life.spot, spot.worker.virtue.WellFormed := by
  induction h with
  | refl => exact fun _ hspot => by cases hspot
  | tail _ hstep ih =>
      cases hstep with
      | accept =>
          rintro _ ⟨⟩
          exact Virtue.wellFormed_new
      | advance clock hstage hadvance =>
          rintro _ ⟨⟩
          exact advance_wellFormed (ih _ rfl) hadvance
      | drop | panic | goodbye => exact fun _ hspot => by cases hspot
      | ready | pick | send | finish | collect =>
          rintro _ ⟨⟩
          have hsame := ih _ rfl
          exact hsame

/-! ### What is left of a song -/

/-- What is left in front of a read, which may find nothing. -/
def Pilgrim.labour (pilgrim : Pilgrim) : ℕ :=
  if pilgrim.stream.isEmpty then 16 * pilgrim.worker.toil + 6 else 16 * pilgrim.worker.toil - 2

def Stage.labour : Stage → ℕ
  | .entry pilgrim => pilgrim.labour
  | .loop worker => 16 * worker.toil + 5
  | .exit pilgrim (.ok ()) => 16 * pilgrim.worker.toil + 4
  | .exit _ (.error _) => 3

def Song.labour (song : Song) : ℕ := song.stage.labour + 4 * song.outbox.length

/-- A pilgrim that something has been sent to leaves the map for at least a read that takes it. -/
def Spot.labour : Spot → ℕ
  | .mapped pilgrim => 16 * pilgrim.worker.toil
  | .queued pilgrim => pilgrim.labour + 1
  | .sung song => song.labour
  | .returned pilgrim => 16 * pilgrim.worker.toil + 1

/-- A stream that is not empty counts. -/
theorem Pilgrim.labour_cases (pilgrim : Pilgrim) :
    (pilgrim.stream = [] ∧ pilgrim.labour = 16 * pilgrim.worker.toil + 6) ∨
      (pilgrim.stream ≠ [] ∧ 1 ≤ pilgrim.worker.toil ∧
        pilgrim.labour = 16 * pilgrim.worker.toil - 2) := by
  unfold Pilgrim.labour
  by_cases hnil : pilgrim.stream = []
  · rw [hnil]
    exact .inl ⟨rfl, rfl⟩
  · have hpos : 0 < pilgrim.stream.length := List.length_pos_iff.mpr hnil
    have hle : pilgrim.stream.length ≤ pilgrim.worker.toil := Nat.le_add_left _ _
    have hempty : ¬ pilgrim.stream.isEmpty = true := by
      rw [List.isEmpty_iff]
      exact hnil
    rw [if_neg hempty]
    exact .inr ⟨hnil, by omega, rfl⟩

theorem Stage.labour_pos (stage : Stage) : 0 < stage.labour := by
  cases stage with
  | entry pilgrim =>
      rw [Stage.labour]
      obtain ⟨-, hlabour⟩ | ⟨-, hpos, hlabour⟩ := pilgrim.labour_cases
      · omega
      · omega
  | loop worker => exact Nat.succ_pos _
  | exit pilgrim result => cases result <;> exact Nat.succ_pos _

/-- **Each step of a song lowers what is left of it.** -/
theorem advance_labour {stage : Stage} {clock : SystemTime} {song : Song}
    (hwf : stage.WellFormed) (hstage : ¬ stage.Ended)
    (h : Song.advance build clock ⟨token, stage, []⟩ = .ok song) :
    song.labour < stage.labour := by
  cases stage with
  | entry pilgrim =>
      obtain ⟨worker, jump, hread, rfl⟩ := advance_entry h
      have hwf' : pilgrim.worker.virtue.WellFormed := hwf
      obtain ⟨hle, hlt⟩ := readMore_toil build hwf' hread
      have hcases := pilgrim.labour_cases
      rcases jump with _ | ⟨sin | _⟩
      · have hless := hlt (.inl rfl)
        show 16 * worker.toil + 5 < pilgrim.labour
        omega
      · show 3 < pilgrim.labour
        omega
      · show 16 * worker.toil + 4 < pilgrim.labour
        obtain ⟨-, hlabour⟩ | ⟨hne, hpos, hlabour⟩ := hcases
        · omega
        · have hless := hlt (.inr ⟨rfl, hne⟩)
          omega
  | loop worker =>
      obtain ⟨worker', jump, hpass, rfl⟩ := advance_loop h
      have hwf' : worker.virtue.WellFormed := hwf
      obtain ⟨hle, hlt⟩ := pass_toil build hwf' hpass
      obtain ⟨more, hmore, hone, hnone⟩ := pass_grants build hwf' hpass
      have hlength := length_emissionsFor token clock more
      rw [hmore, List.drop_left]
      rcases jump with _ | ⟨sin | _⟩
      · have hless := hlt rfl
        show 16 * worker'.toil + 5 + 4 * (emissionsFor token clock more).length <
          16 * worker.toil + 5
        omega
      · rw [hnone fun heq => by cases heq]
        show 3 < 16 * worker.toil + 5
        omega
      · rw [hnone fun heq => by cases heq]
        show 16 * worker'.toil + 4 < 16 * worker.toil + 5
        omega
  | exit pilgrim result => exact absurd trivial hstage

/-! ### What is left for the server -/

namespace Server

variable {streams : Token → TcpStream} {s s' : Server}

def labour (s : Server) : ℕ :=
  ∑ token ∈ Finset.Ico 1 s.pilgrimCounter, ((s.holders token).map Spot.labour).sum +
    3 * s.wishes.length

/-- The step is due: it is no new connection, and a socket that is reported has something in it. -/
def Due (s : Server) : Action → Prop
  | .accept => False
  | .ready token => ∃ pilgrim, s.ingressMap.get? token = some pilgrim ∧ pilgrim.stream ≠ []
  | _ => True

theorem labour_moves {old : Spot} {new : Multiset Spot}
    (hmoves : Moves s.holders s'.holders token {old} new) (hknown : s.Known token)
    (hcounter : s'.pilgrimCounter = s.pilgrimCounter) :
    s'.labour + old.labour + 3 * s.wishes.length =
      s.labour + (new.map Spot.labour).sum + 3 * s'.wishes.length := by
  have hsum := hmoves.sum_add Spot.labour (Finset.mem_Ico.mpr hknown)
  rw [Multiset.map_singleton, Multiset.sum_singleton] at hsum
  unfold labour
  rw [hcounter]
  omega

theorem Sound.wellFormed (h : s.Sound build streams) {old : Spot} {new : Multiset Spot}
    (hmoves : Moves s.holders s'.holders token {old} new) : old.worker.virtue.WellFormed := by
  obtain ⟨life, hreached, hlife⟩ := h.lives token
  obtain ⟨hspot, -⟩ := hmoves.of_toList hlife.spot
  exact hreached.wellFormed old hspot

/-- The step pays for the decrees that it sends. -/
def Pays (s s' : Server) : Prop :=
  s'.labour + 2 * s'.decrees.length < s.labour + 2 * s.decrees.length

section Pays

variable (h : s.Sound build streams)

include h

/-- A pilgrim that moves pays for what is sent. -/
theorem Sound.pays_of_moves {old : Spot} {new : Multiset Spot}
    (hmoves : Moves s.holders s'.holders token {old} new)
    (hcounter : s'.pilgrimCounter = s.pilgrimCounter)
    (hless : (new.map Spot.labour).sum + 3 * s'.wishes.length + 2 * s'.decrees.length <
      old.labour + 3 * s.wishes.length + 2 * s.decrees.length) : Pays s s' := by
  have hlabour := labour_moves hmoves (h.known_of_moves hmoves) hcounter
  unfold Pays
  omega

theorem Sound.pays_collect {pilgrim : Pilgrim} {returned : List (Token × Pilgrim)}
    (hreturned : s.returned = (token, pilgrim) :: returned) :
    Pays s { s with returned, ingressMap := s.ingressMap.insert token pilgrim } := by
  obtain ⟨life, -, hlife⟩ := h.lives token
  apply h.pays_of_moves (moves_collect hreturned (hlife.free hreturned)) rfl
  simp only [Multiset.map_singleton, Multiset.sum_singleton, Spot.labour]
  omega

theorem Sound.pays_ready {pilgrim : Pilgrim} (hget : s.ingressMap.get? token = some pilgrim)
    (hne : pilgrim.stream ≠ []) :
    Pays s { s with
      ingressMap := s.ingressMap.erase token, songs := s.songs ++ [(token, pilgrim)] } := by
  apply h.pays_of_moves (moves_ready hget) rfl
  obtain ⟨hnil, -⟩ | ⟨-, hpos, hlabour⟩ := pilgrim.labour_cases
  · exact absurd hnil hne
  simp only [Multiset.map_singleton, Multiset.sum_singleton, Spot.labour]
  omega

theorem Sound.pays_pick {before after : List Angel} {pilgrim : Pilgrim}
    {songs : List (Token × Pilgrim)} (hangels : s.angels = before ++ .idle :: after)
    (hsongs : s.songs = (token, pilgrim) :: songs) :
    Pays s { s with
      songs, angels := before ++ .singing ⟨token, .entry pilgrim, []⟩ :: after } := by
  apply h.pays_of_moves (moves_pick hangels hsongs) rfl
  simp only [Multiset.map_singleton, Multiset.sum_singleton, Spot.labour, Song.labour,
    Stage.labour, List.length_nil]
  omega

theorem Sound.pays_sing (clock : SystemTime) {i : ℕ} {song : Song}
    (hi : s.angels[i]? = some (.singing song)) : Pays s (s.sing build clock i song) := by
  obtain ⟨before, after, hangels, hset⟩ := exists_around hi
  obtain ⟨token, stage, _ | ⟨emission, outbox⟩⟩ := song
  · have hadvance : ¬ stage.Ended → Pays s (s.sing build clock i ⟨token, stage, []⟩) := by
      intro hstage
      cases hsong : Song.advance build clock ⟨token, stage, []⟩ with
      | ok song =>
          rw [sing_ok hstage hsong, setAngel, hset]
          have hmoves := moves_singing hangels (advance_own hsong).1
          have hwf : stage.WellFormed := h.wellFormed hmoves
          have hless := advance_labour hwf hstage hsong
          apply h.pays_of_moves hmoves rfl
          simp only [Multiset.map_singleton, Multiset.sum_singleton, Spot.labour]
          have hold : Song.labour ⟨token, stage, []⟩ = stage.labour := rfl
          omega
      | error panic =>
          rw [sing_panic hstage hsong, setAngel, hset]
          have hmoves := moves_angel .gone hangels fun _ _ => rfl
          have hpos : 0 < Song.labour ⟨token, stage, []⟩ := stage.labour_pos
          apply h.pays_of_moves hmoves rfl
          simp only [sungAt, Option.toList_none, Multiset.coe_nil, Multiset.map_zero,
            Multiset.sum_zero, Spot.labour]
          omega
    cases stage with
    | entry pilgrim => exact hadvance id
    | loop worker => exact hadvance id
    | exit pilgrim result =>
        cases result with
        | ok _ =>
            simp only [sing, setAngel, hset]
            apply h.pays_of_moves (moves_finish hangels) rfl
            simp only [Multiset.map_singleton, Multiset.sum_singleton, Spot.labour, Song.labour,
              Stage.labour, List.length_nil]
            omega
        | error sin =>
            simp only [sing, setAngel, hset, post]
            have hmoves : Moves s.holders (holders { s with
                angels := before ++ .idle :: after, decrees := s.decrees ++ [.goodbye token] })
                token _ 0 := moves_angel .idle hangels fun _ _ => rfl
            apply h.pays_of_moves hmoves rfl
            simp only [Multiset.map_zero, Multiset.sum_zero, Spot.labour, Song.labour,
              Stage.labour, List.length_nil, List.length_append, List.length_singleton]
            omega
  · simp only [sing, setAngel, hset]
    apply h.pays_of_moves (moves_send hangels) (post_rest _ emission).1
    cases emission
    all_goals
      simp only [Multiset.map_singleton, Multiset.sum_singleton, Spot.labour, Song.labour,
        List.length_cons, post, List.length_append, List.length_nil]
      omega

omit h in
theorem pays_turn (temple : Temple) {wish : Wish} {wishes : List Wish}
    (hwishes : s.wishes = wish :: wishes) : Pays s (s.serve temple wish wishes) := by
  have hholders : (s.serve temple wish wishes).holders = s.holders :=
    funext fun token => (serve_same temple hwishes token).1
  unfold Pays labour
  rw [hholders, (serve_rest s temple wish wishes).1, hwishes, List.length_cons]
  unfold serve
  split
  all_goals
    simp only [List.length_append, List.length_singleton]
    omega

/-- **The step lemma: a step that is due pays.** -/
theorem Sound.pays {action : Action} (hnotice : ∀ token, action ≠ .notice token)
    (hdue : s.Due action) (hstep : s.step build streams action = .ok s') :
    Pays s s' := by
  cases action with
  | collect =>
      cases hreturned : s.returned with
      | nil =>
          simp only [Server.step, hreturned] at hstep
          cases hstep
      | cons e returned =>
          simp only [Server.step, hreturned] at hstep
          cases hstep
          exact h.pays_collect hreturned
  | notice token => exact absurd rfl (hnotice token)
  | accept => exact absurd hdue id
  | ready token =>
      obtain ⟨pilgrim, hget, hne⟩ := hdue
      simp only [Server.step, hget] at hstep
      split_ifs at hstep
      cases hstep
      exact h.pays_ready hget hne
  | pick i =>
      simp only [Server.step] at hstep
      split at hstep
      case h_1 token pilgrim songs hangel hsongs =>
        cases hstep
        obtain ⟨before, after, hangels, hset⟩ := exists_around hangel
        rw [hset]
        exact h.pays_pick hangels hsongs
      case h_2 => cases hstep
  | sing i clock =>
      simp only [Server.step] at hstep
      split at hstep
      case h_1 song hangel =>
        cases hstep
        exact h.pays_sing clock hangel
      case h_2 => cases hstep
  | turn =>
      simp only [Server.step] at hstep
      split at hstep
      case h_1 temple wish wishes htemple hwishes =>
        cases hstep
        exact pays_turn temple hwishes
      case h_2 => cases hstep

/-- A pilgrim that is dropped costs nothing. -/
theorem Sound.labour_notice (token : Token) :
    labour { s with ingressMap := s.ingressMap.erase token } ≤ s.labour := by
  cases hget : s.ingressMap.get? token with
  | none =>
      apply le_of_eq
      have hholders : holders { s with ingressMap := s.ingressMap.erase token } = s.holders := by
        funext token'
        simp only [holders, Dict.get?_erase]
        split_ifs with heq
        · rw [heq, hget]
        · rfl
      unfold labour
      rw [hholders]
  | some pilgrim =>
      have hmoves := moves_notice hget
      have hlabour := labour_moves hmoves (h.known_of_moves hmoves) rfl
      simp only [Multiset.map_zero, Multiset.sum_zero] at hlabour
      omega

end Pays

end Server

/-! ### What is left for the realm -/

namespace Egress

/-- Egress takes a decree and sends one notice at most. -/
theorem length_notices_process (room : ℕ → ℕ) (e : Egress) (decree : Decree) :
    (e.process room decree).notices.length ≤ e.notices.length + 1 := by
  cases decree with
  | welcome token => exact Nat.le_succ _
  | goodbye token => exact le_of_eq List.length_append
  | deliver gift =>
      simp only [process]
      split
      · split_ifs
        · exact Nat.le_succ _
        · exact le_of_eq List.length_append
      · exact Nat.le_succ _
  | broadcast token event message clients =>
      simp only [process, foldl_writeTo, writeTo_eq]
      exact Nat.le_succ _

/-- Egress reports clients that have been welcomed. -/
theorem welcome_of_notice (room : ℕ → ℕ) {decrees : List Decree} (h : Successive Greets decrees) :
    ∀ token ∈ (received room decrees).notices, .welcome token ∈ decrees := by
  refine h.induction (M := fun l => ∀ token ∈ (received room l).notices, .welcome token ∈ l)
    (fun _ hmem => by cases hmem) ?_
  intro decrees decree hdecrees hdecree ih token hmem
  obtain ⟨more, hmore, hnew⟩ := notices_process room (received room decrees) decree
  rw [received_concat, hmore, List.mem_append] at hmem
  rw [List.mem_append, List.mem_singleton]
  obtain hmem | hmem := hmem
  · exact .inl (ih token hmem)
  obtain hnow | hopen := hnew token hmem
  · cases decree with
    | welcome token' =>
        obtain rfl := Option.some.inj hnow
        exact .inr rfl
    | goodbye token' =>
        obtain rfl := Option.some.inj hnow
        exact .inl hdecree
    | deliver gift => cases hnow
    | broadcast token' event message clients => cases hnow
  · exact .inl ((tracks room token hdecrees).isSome.mp hopen).1

end Egress

namespace Realm

variable {streams : Token → TcpStream} {room : ℕ → ℕ} {r r' : Realm}

/-- A decree that egress has not taken counts twice, since it may become a notice. -/
def labour (r : Realm) : ℕ :=
  r.server.labour + 2 * (r.server.decrees.length - r.processed) +
    (r.egress.notices.length - r.noticed)

def Due (r : Realm) : Action → Prop
  | .server action _ => r.server.Due action
  | .process | .notice => True

/-- **Every due step lowers the labour.** -/
theorem Chronicle.labour_lt (h : r.Chronicle build streams room) {action : Action}
    (hdue : r.Due action) (hstep : r.step build streams room action = .ok r') :
    r'.labour < r.labour := by
  have hnext := (h.step hstep).processed
  have hprocessed := h.processed
  cases step_takes hstep with
  | @server action hnotice server hserver =>
      have hpays : server.labour + 2 * server.decrees.length <
          r.server.labour + 2 * r.server.decrees.length :=
        h.sound.pays hnotice hdue hserver
      simp only [labour] at hnext ⊢
      omega
  | @process decree hdecree =>
      obtain ⟨hlt, -⟩ := List.getElem?_eq_some_iff.mp hdecree
      have hnotices := Egress.length_notices_process room r.egress decree
      simp only [labour]
      omega
  | @notice token server htoken hserver =>
      obtain ⟨hlt, -⟩ := List.getElem?_eq_some_iff.mp htoken
      have hless := h.sound.labour_notice token
      simp only [Server.step] at hserver
      split_ifs at hserver
      cases hserver
      simp only [labour]
      omega

/-- All parties that are still there have done what they can: egress has taken every decree and
the server loop every notice and every pilgrim, no song is under way, the temple has taken every
wish or has panicked, and while there is an angel, nothing is queued or left in a socket. -/
structure Rests (r : Realm) : Prop where
  decrees : r.server.decrees.length ≤ r.processed
  notices : r.egress.notices.length ≤ r.noticed
  returned : r.server.returned = []
  songless : ∀ song, .singing song ∉ r.server.angels
  wishes : r.server.temple = none ∨ r.server.wishes = []
  pool : (∀ angel ∈ r.server.angels, angel = .gone) ∨
    r.server.songs = [] ∧
      ∀ token pilgrim, r.server.ingressMap.get? token = some pilgrim → pilgrim.stream = []

/-- At rest nothing is due that can be done. -/
theorem Rests.stuck (h : r.Rests) : Stuck (step build streams room) Due r := by
  rintro action r' hdue hstep
  cases step_takes hstep with
  | @server action hnotice server hserver =>
      cases action with
      | collect =>
          simp only [Server.step, h.returned] at hserver
          cases hserver
      | notice token => exact hnotice token rfl
      | accept => exact hdue
      | ready token =>
          obtain ⟨pilgrim, hget, hne⟩ := hdue
          obtain hgone | ⟨-, hempty⟩ := h.pool
          · simp only [Server.step, hget] at hserver
            split at hserver
            case isTrue => cases hserver
            case isFalse hnot =>
              apply hnot
              intro angel hangel
              rw [hgone angel hangel]
          · exact hne (hempty token pilgrim hget)
      | pick i =>
          simp only [Server.step] at hserver
          split at hserver
          case h_1 token pilgrim songs hangel hsongs =>
            obtain hgone | ⟨hnil, -⟩ := h.pool
            · cases hgone _ (List.mem_of_getElem? hangel)
            · simp [hnil] at hsongs
          case h_2 => cases hserver
      | sing i clock =>
          simp only [Server.step] at hserver
          split at hserver
          case h_1 song hangel => exact h.songless song (List.mem_of_getElem? hangel)
          case h_2 => cases hserver
      | turn =>
          simp only [Server.step] at hserver
          split at hserver
          case h_1 temple wish wishes htemple hwishes =>
            obtain hnone | hnil := h.wishes
            · simp [hnone] at htemple
            · simp [hnil] at hwishes
          case h_2 => cases hserver
  | process hdecree =>
      simp [List.getElem?_eq_none h.decrees] at hdecree
  | notice htoken hserver =>
      simp [List.getElem?_eq_none h.notices] at htoken

theorem stuck_server (h : Stuck (step build streams room) Due r) (action : Server.Action)
    (hnotice : ∀ token, action ≠ .notice token) (hdue : r.server.Due action) (server : Server) :
    r.server.step build streams action ≠ .ok server := by
  intro hserver
  apply h (.server action hnotice) { r with server } hdue
  simp only [Realm.step, hserver]
  rfl

/-- Egress reports clients, never the listener. -/
theorem Chronicle.known_of_notice (hr : r.Chronicle build streams room) {i : ℕ} {token : Token}
    (hget : r.egress.notices[i]? = some token) : r.server.Known token := by
  have hmem := List.mem_of_getElem? hget
  rw [hr.egress] at hmem
  have hwelcome := Egress.welcome_of_notice room
    (Egress.Proper.successive_greets hr.proper_taken) _ hmem
  exact (hr.history.welcomed _).mp (List.mem_of_mem_take hwelcome)

/-- An idle angel takes a song that is queued, and lets a client with unread input be queued. -/
theorem stuck_idle (h : Stuck (step build streams room) Due r) (hidle : .idle ∈ r.server.angels) :
    r.server.songs = [] ∧ ∀ token pilgrim, r.server.ingressMap.get? token = some pilgrim →
      pilgrim.stream = [] := by
  refine ⟨?_, ?_⟩
  · by_contra hne
    obtain ⟨⟨token, pilgrim⟩, songs, hsongs⟩ := List.exists_cons_of_ne_nil hne
    obtain ⟨i, hi⟩ := List.getElem?_of_mem hidle
    apply stuck_server h (.pick i) (fun _ heq => by cases heq) trivial
    simp only [Server.step, hi, hsongs]
    rfl
  · intro token pilgrim hget
    by_contra hne
    apply stuck_server h (.ready token) (fun _ heq => by cases heq) ⟨pilgrim, hget, hne⟩
    simp only [Server.step, hget]
    apply if_neg
    intro hall
    cases hall _ hidle

/-- A state in which nothing is due is at rest. -/
theorem Chronicle.rests (hr : r.Chronicle build streams room)
    (h : Stuck (Realm.step build streams room) Due r) : r.Rests := by
  have hsongless : ∀ song, .singing song ∉ r.server.angels := by
    intro song hsong
    obtain ⟨i, hi⟩ := List.getElem?_of_mem hsong
    apply stuck_server h (.sing i .unixEpoch) (fun _ heq => by cases heq) trivial
    simp only [Server.step, hi]
    rfl
  refine ⟨?_, ?_, ?_, hsongless, ?_, ?_⟩
  · by_contra hlt
    have hget := List.getElem?_eq_getElem (not_le.mp hlt)
    apply h .process _ trivial
    simp only [Realm.step, hget]
    rfl
  · by_contra hlt
    obtain ⟨token, hget⟩ : ∃ token, r.egress.notices[r.noticed]? = some token :=
      ⟨_, List.getElem?_eq_getElem (not_le.mp hlt)⟩
    have hknown := hr.known_of_notice hget
    apply h .notice _ trivial
    simp only [Realm.step, hget, Server.step, if_neg (Nat.ne_of_gt hknown.1)]
    rfl
  · by_contra hne
    obtain ⟨⟨token, pilgrim⟩, returned, hreturned⟩ := List.exists_cons_of_ne_nil hne
    apply stuck_server h .collect (fun _ heq => by cases heq) trivial
    simp only [Server.step, hreturned]
    rfl
  · by_contra hboth
    rw [not_or] at hboth
    obtain ⟨temple, htemple⟩ := Option.ne_none_iff_exists'.mp hboth.1
    obtain ⟨wish, wishes, hwishes⟩ := List.exists_cons_of_ne_nil hboth.2
    apply stuck_server h .turn (fun _ heq => by cases heq) trivial
    simp only [Server.step, htemple, hwishes]
    rfl
  · by_cases hgone : ∀ angel ∈ r.server.angels, angel = .gone
    · exact .inl hgone
    obtain ⟨angel, hangel, hpresent⟩ : ∃ angel ∈ r.server.angels, angel ≠ .gone := by
      simpa using hgone
    have hidle : angel = .idle := by
      cases angel with
      | idle => rfl
      | singing song => exact absurd hangel (hsongless song)
      | gone => exact absurd rfl hpresent
    exact .inr (stuck_idle h (hidle ▸ hangel))

end Realm

open Realm in
/-- **The server comes to rest.**  Whatever the clients send, no run of due steps is longer than the
labour of its first state, so no schedule keeps the parties busy for ever; each state can come to
rest, and the states in which nothing that is due can be done are those at rest. -/
theorem comes_to_rest {streams : Token → TcpStream} {room : ℕ → ℕ} {ioThreads : ℕ} {soul : Soul}
    {config : Config} {actions : List Realm.Action} {r : Realm}
    (hrun : Run (Realm.step build streams room) (.start ioThreads soul config) actions r) :
    (∀ more r', Runs.Due (Realm.step build streams room) Due r more r' →
      more.length ≤ r.labour ∧ (Stuck (Realm.step build streams room) Due r' ↔ r'.Rests)) ∧
    ∃ more r', Runs.Due (Realm.step build streams room) Due r more r' ∧ r'.Rests := by
  have hinv : ∀ r action r', Chronicle build streams room r →
      r.step build streams room action = .ok r' → Chronicle build streams room r' :=
    fun r action r' hr hstep => hr.step hstep
  have hless : ∀ r action r', Chronicle build streams room r → r.Due action →
      r.step build streams room action = .ok r' → r'.labour < r.labour :=
    fun r action r' hr hdue hstep => hr.labour_lt hdue hstep
  have hr := chronicle_run hrun
  constructor
  · intro more r' hmore
    have hlength := hmore.length_le hinv hless hr
    refine ⟨by omega, ?_⟩
    exact ⟨(chronicle_run (hrun.append hmore.run)).rests, Rests.stuck⟩
  · obtain ⟨more, r', hmore, hstuck⟩ := exists_stuck hinv hless hr
    exact ⟨more, r', hmore, (chronicle_run (hrun.append hmore.run)).rests hstuck⟩

/-- Client 1 has hung up, and an angel is about to find out: fourteen steps are enough. -/
theorem comes_to_rest_hungUp :
    ∃ r, Run (Realm.step .release (fun _ => [.closed]) fun _ => 100) (.start 1 Soul.new ∅)
        firstSong r ∧
      ∃ more r', Runs.Due (Realm.step .release (fun _ => [.closed]) fun _ => 100) Realm.Due r more
          r' ∧ more.length ≤ 14 ∧ r'.Rests := by
  obtain ⟨r, hrun, hseen⟩ := exists_run (Realm.start 1 Soul.new ∅) firstSong
    (fun r : Realm => decide (r.labour = 14))
    (by decide +kernel : (runAll (Realm.step .release (fun _ => [.closed]) fun _ => 100)
      _ _).map _ = .ok true)
  rw [decide_eq_true_eq] at hseen
  obtain ⟨hbound, more, r', hmore, hrests⟩ := comes_to_rest hrun
  refine ⟨r, hrun, more, r', hmore, ?_, hrests⟩
  rw [← hseen]
  exact (hbound more r' hmore).1

end Heaven
