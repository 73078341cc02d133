import Heaven.Counting
import Heaven.Draining

/-! # The server can finish

While all clients are connected and the temple answers, something is left to do only if some party
can do it: `Serving.descends` finds steps that lower the `toil` of the server, which counts the
bytes that are still to be read or parsed, the places the pilgrims still have to go through, and
the messages that are still to be sent and taken.  So from every such state a state is reached in
which nothing is left to do (`Serving.finishes`). -/

namespace Heaven

open Custody (found found_append Moves)
open Runs

/-! ### The toil of a worker -/

namespace TcpStream

theorem length_read_le (room : ℕ) (stream : TcpStream) :
    (stream.read room).2.length ≤ stream.length := by
  cases stream with
  | nil => exact le_rfl
  | cons arrival later =>
      cases arrival with
      | data first rest =>
          rw [read]
          split
          · exact Nat.le_succ _
          · exact le_rfl
      | wouldBlock => exact Nat.le_succ _
      | closed => exact Nat.le_succ _
      | failed => exact Nat.le_succ _

/-- A read that would block has taken this from the socket. -/
theorem length_read_lt {room : ℕ} (stream : TcpStream) (hne : stream ≠ [])
    (h : (stream.read room).1 = .wouldBlock) : (stream.read room).2.length < stream.length := by
  cases stream with
  | nil => exact absurd rfl hne
  | cons arrival later =>
      cases arrival with
      | data first rest =>
          rw [read] at h
          split at h
          all_goals cases h
      | wouldBlock => exact Nat.lt_succ_self _
      | closed => cases h
      | failed => cases h

end TcpStream

variable {build : Build} {worker worker' : Worker} {jump : WishJump}

/-- What a worker still has to do: bytes to read and to parse, and reads that would block. -/
def Worker.toil (worker : Worker) : ℕ := worker.measure + worker.stream.length

section Toil

variable (build) (hwf : worker.virtue.WellFormed)

include hwf

/-- What a read does to the socket: it gets shorter when the read would block. -/
theorem readMore_stream (h : readMore build worker = .ok (worker', jump)) :
    worker'.stream.length ≤ worker.stream.length ∧
      (jump = .leave (.ok ()) → worker.stream ≠ [] →
        worker'.stream.length < worker.stream.length) := by
  obtain ⟨room, -, hstream, hblocked⟩ | ⟨sin, rfl, hstream⟩ := readMore_takes build hwf h
  · rw [hstream]
    refine ⟨TcpStream.length_read_le room _, ?_⟩
    intro hleave hne
    exact TcpStream.length_read_lt _ hne (hblocked hleave)
  · rw [hstream]
    refine ⟨le_rfl, ?_⟩
    intro hleave
    cases hleave

theorem readMore_toil (h : readMore build worker = .ok (worker', jump)) :
    worker'.toil ≤ worker.toil ∧
      (jump = .again ∨ (jump = .leave (.ok ()) ∧ worker.stream ≠ []) →
        worker'.toil < worker.toil) := by
  obtain ⟨hlength, hshorter⟩ := readMore_stream build hwf h
  have hmeasure := measure_eq hwf
  have hkeep := readMore_keeps build hwf h
  have hle : worker'.measure ≤ worker.measure := by
    cases readMore_step hwf h with
    | failed => exact le_rfl
    | blocked wf same window payload => rw [measure_eq wf, hmeasure, payload, window]
    | received =>
        have hlt := hkeep.2 rfl
        omega
  unfold Worker.toil
  refine ⟨Nat.add_le_add hle hlength, ?_⟩
  rintro (rfl | ⟨rfl, hne⟩)
  · have hlt := hkeep.2 rfl
    omega
  · have hlt := hshorter rfl hne
    omega

theorem pass_toil (h : pass build worker = .ok (worker', jump)) :
    worker'.toil ≤ worker.toil ∧ (jump = .again → worker'.toil < worker.toil) := by
  have hkeep := pass_keeps build hwf h
  cases pass_moves build hwf h with
  | stop => exact ⟨le_rfl, fun h => by cases h⟩
  | refuse => exact ⟨le_rfl, fun h => by cases h⟩
  | consume =>
      have hlt := Nat.add_lt_add_right (hkeep.2 rfl) worker.stream.length
      exact ⟨hlt.le, fun _ => hlt⟩
  | @more n _ _ hmove inside wf hread =>
      have hwindow : (worker.skip n).toil ≤ worker.toil := by
        have hstream : (worker.skip n).stream = worker.stream := rfl
        unfold Worker.toil
        rw [measure_eq wf, measure_eq hwf, hstream, worker.skip_window, List.length_drop]
        omega
      obtain ⟨hle, hlt⟩ := readMore_toil build wf hread
      exact ⟨hle.trans hwindow, fun hagain => lt_of_lt_of_le (hlt (.inl hagain)) hwindow⟩

end Toil

/-! ### The toil of a client -/

theorem length_grant (request : Request) (clock : SystemTime) (token : Token) :
    (grant request.val request.property clock token).length ≤ 2 := by
  obtain ⟨rest, hrest, hgrant⟩ := grant_answers request.val request.property clock token
  have hone : rest.length = 1 := by
    obtain ⟨response, rfl⟩ | ⟨command, -, rfl⟩ := hrest
    · rfl
    · rfl
  rw [hgrant, List.length_append, hone]
  split_ifs
  · exact le_rfl
  · exact Nat.le_succ _

theorem length_emissionsFor (token : Token) (clock : SystemTime) (requests : List Request) :
    (emissionsFor token clock requests).length ≤ 2 * requests.length := by
  induction requests with
  | nil => exact le_rfl
  | cons request requests ih =>
      have hgrant := length_grant request clock token
      rw [emissionsFor_cons, List.length_append, List.length_cons]
      omega

def Stage.toil : Stage → ℕ
  | .entry pilgrim => 8 * pilgrim.worker.toil + 4
  | .loop worker => 8 * worker.toil + 3
  | .exit pilgrim _ => 8 * pilgrim.worker.toil + 2

def Song.toil (song : Song) : ℕ := song.stage.toil + 2 * song.outbox.length

/-- A pilgrim goes from the map to an angel and back for at least one byte or one blocked read. -/
def Spot.toil : Spot → ℕ
  | .mapped pilgrim => 8 * pilgrim.worker.toil
  | .queued pilgrim => 8 * pilgrim.worker.toil + 5
  | .sung song => song.toil
  | .returned pilgrim => 8 * pilgrim.worker.toil + 1

variable {requests : List Request} {tail : Bytes} {hfits : ∀ request ∈ requests, request.Fits}

/-- The first read of a song. -/
theorem exists_advance_entry {pilgrim : Pilgrim}
    (h : (Discipline.fits build requests tail hfits).rest pilgrim.worker) (clock : SystemTime)
    (token : Token) :
    ∃ song, Song.advance build clock ⟨token, .entry pilgrim, []⟩ = .ok song ∧
      song.toil ≤ 8 * pilgrim.worker.toil + 3 ∧
      (pilgrim.stream ≠ [] → song.toil < 8 * pilgrim.worker.toil) := by
  obtain ⟨todo, hrests⟩ := h
  have hadvance : ∀ worker jump, readMore build pilgrim.worker = .ok (worker, jump) →
      Song.advance build clock ⟨token, .entry pilgrim, []⟩ =
        .ok ⟨token, jump.stage worker, []⟩ := by
    intro worker jump hread
    show (readMore build pilgrim.worker).map _ = _
    rw [hread]
    rfl
  obtain ⟨worker, hread, -⟩ | ⟨worker, hread, -⟩ := hrests.readMore build
  · refine ⟨_, hadvance _ _ hread, ?_⟩
    obtain ⟨hle, hlt⟩ := readMore_toil build hrests.wf hread
    have hless := hlt (.inl rfl)
    have htoil : (⟨token, .loop worker, []⟩ : Song).toil = 8 * worker.toil + 3 := rfl
    rw [show WishJump.stage worker .again = .loop worker from rfl, htoil]
    exact ⟨by omega, fun _ => by omega⟩
  · refine ⟨_, hadvance _ _ hread, ?_⟩
    obtain ⟨hle, hlt⟩ := readMore_toil build hrests.wf hread
    have htoil : (⟨token, .exit worker.pilgrim (.ok ()), []⟩ : Song).toil = 8 * worker.toil + 2 :=
      rfl
    rw [show WishJump.stage worker (.leave (.ok ())) = .exit worker.pilgrim (.ok ()) from rfl,
      htoil]
    refine ⟨by omega, ?_⟩
    intro hne
    have hless := hlt (.inr ⟨rfl, hne⟩)
    omega

/-- A pass of a song, in the first second, when no handler panics. -/
theorem exists_advance_loop {worker : Worker}
    (h : (Discipline.fits build requests tail hfits).loop worker) (token : Token) :
    ∃ song, Song.advance build .unixEpoch ⟨token, .loop worker, []⟩ = .ok song ∧
      song.toil < 8 * worker.toil + 3 := by
  obtain ⟨todo, hfollows⟩ := h
  obtain ⟨out, hpass⟩ := ((Discipline.fits build requests tail hfits).pass_ok worker
    ⟨todo, hfollows⟩).resolve_left id
  obtain ⟨worker', jump⟩ := out
  obtain ⟨hle, hlt⟩ := pass_toil build hfollows.wf hpass
  obtain ⟨more, hmore, hone, hnone⟩ := pass_grants build hfollows.wf hpass
  have hnew : worker'.granted.drop worker.granted.length = more := by
    rw [hmore, List.drop_left]
  have hcalm : more.any (Request.panics build .unixEpoch) = false := by
    rw [List.any_eq_false]
    intro request _
    rw [not_panics_unixEpoch]
    exact Bool.false_ne_true
  have hsong : Song.advance build .unixEpoch ⟨token, .loop worker, []⟩ =
      .ok ⟨token, jump.stage worker', emissionsFor token .unixEpoch more⟩ := by
    simp only [Song.advance, hpass, hnew, hcalm]
    rfl
  refine ⟨_, hsong, ?_⟩
  have hlength := length_emissionsFor token .unixEpoch more
  have htoil : (⟨token, jump.stage worker', emissionsFor token .unixEpoch more⟩ : Song).toil =
      (jump.stage worker').toil + 2 * (emissionsFor token .unixEpoch more).length := rfl
  rw [htoil]
  cases jump with
  | again =>
      have hless := hlt rfl
      show 8 * worker'.toil + 3 + _ < _
      omega
  | leave result =>
      rw [hnone (fun h => by cases h)]
      show 8 * worker'.toil + 2 + 0 < _
      omega

/-! ### The toil of the server -/

/-- Whatever the request asks the temple for, the temple answers. -/
def Request.Steady : Request → Prop
  | ⟨terms, h⟩ => ∀ (clock : SystemTime) (token : Token) (wish : Wish),
      Emission.toTemple wish ∈ grant terms h clock token →
        ∀ t : Temple, ∃ decree, (t.turn wish).2 = .ok decree

namespace Server

/-- What the server still has to do. -/
def toil (s : Server) : ℕ :=
  ∑ token ∈ Finset.Ico 1 s.pilgrimCounter, ((s.holders token).map Spot.toil).sum +
    s.wishes.length

/-- All clients are connected, an angel and the temple are there, and no command ends the temple. -/
structure Attended (streams : Token → TcpStream) (requests : Token → List Request) (s : Server) :
    Prop where
  complete : ∀ token, s.Known token → Complete (requests token) (streams token)
  connected : ∀ token, s.Known token → s.holders token ≠ 0
  steady : ∀ token, s.Known token → ∀ request ∈ requests token, request.Steady
  pool : ∃ angel ∈ s.angels, angel ≠ .gone
  temple : ∃ temple, s.temple = some temple

structure Serving (build : Build) (streams : Token → TcpStream) (requests : Token → List Request)
    (s : Server) : Prop extends Attended streams requests s where
  sound : s.Sound build streams

variable {streams : Token → TcpStream} {requests : Token → List Request} {s s' : Server}
  {token : Token}

theorem toil_moves {old new : Spot} (hmoves : Moves s.holders s'.holders token {old} {new})
    (hknown : s.Known token) (hcounter : s'.pilgrimCounter = s.pilgrimCounter) :
    s'.toil + old.toil + s.wishes.length = s.toil + new.toil + s'.wishes.length := by
  have hsum := hmoves.sum_add Spot.toil (Finset.mem_Ico.mpr hknown)
  rw [Multiset.map_singleton, Multiset.map_singleton, Multiset.sum_singleton,
    Multiset.sum_singleton] at hsum
  unfold toil
  rw [hcounter]
  omega

/-- The clients stay connected when the pilgrim of one is moved. -/
theorem Serving.moved (h : s.Serving build streams requests)
    (hstep : Transition build streams s s') {old new : Spot}
    (hmoves : Moves s.holders s'.holders token {old} {new})
    (hcounter : s'.pilgrimCounter = s.pilgrimCounter)
    (hpool : ∃ angel ∈ s'.angels, angel ≠ .gone) (htemple : s'.temple = s.temple) :
    s'.Serving build streams requests := by
  have hknown : ∀ token, s'.Known token ↔ s.Known token := by
    intro token
    rw [Known, Known, hcounter]
  refine ⟨⟨fun t ht => h.complete t ((hknown t).mp ht), ?_,
    fun t ht => h.steady t ((hknown t).mp ht), hpool, htemple ▸ h.temple⟩, h.sound.step hstep⟩
  intro t ht
  by_cases heq : t = token
  · obtain ⟨rest, -, hnew⟩ := hmoves.own
    rw [heq, hnew, Multiset.singleton_add]
    exact Multiset.cons_ne_zero
  · rw [hmoves.others t heq]
    exact h.connected t ((hknown t).mp ht)

/-- A song that is being sung is fit for its next step, and cannot fail. -/
theorem Serving.singing (h : s.Serving build streams requests) {before after : List Angel}
    {song : Song} (hangels : s.angels = before ++ .singing song :: after) :
    s.Known song.token ∧ ∃ (hfits : ∀ request ∈ requests song.token, request.Fits)
      (sent : List Wish),
      Singing (Discipline.fits build (requests song.token) [] hfits) song.token sent song := by
  have hmoves := moves_angel .idle hangels fun _ _ => rfl
  have hknown := h.sound.known_of_moves hmoves
  have hcomplete := h.complete song.token hknown
  obtain ⟨life, hreached, hlife⟩ := h.sound.lives song.token
  obtain ⟨hspot, -⟩ := hmoves.of_toList hlife.spot
  have hbytes : encodeAll (requests song.token) = (streams song.token).payload ++ [] := by
    rw [List.append_nil, hcomplete.bytes]
  have hnew : (Discipline.fits build (requests song.token) [] hcomplete.fits).rest
      (Pilgrim.new (streams song.token)).worker := ⟨_, rests_new hcomplete.stays hbytes⟩
  exact ⟨hknown, hcomplete.fits, life.sent, (hreached.kept hnew).fits _ hspot⟩

/-! ### Some party can go on -/

/-- One step that lowers the toil. -/
def Descends (build : Build) (streams : Token → TcpStream) (requests : Token → List Request)
    (s : Server) : Prop :=
  ∃ actions s', Run (step build streams) s actions s' ∧ s'.Serving build streams requests ∧
    s'.pilgrimCounter = s.pilgrimCounter ∧ s'.toil < s.toil

theorem mem_around {before after : List Angel} {angel : Angel} (h : angel ≠ .gone) :
    ∃ angel' ∈ before ++ angel :: after, angel' ≠ .gone :=
  ⟨angel, List.mem_append_right _ List.mem_cons_self, h⟩

theorem Serving.descends_of_moves (h : s.Serving build streams requests) {action : Action}
    (hstep : s.step build streams action = .ok s') {old new : Spot}
    (hmoves : Moves s.holders s'.holders token {old} {new})
    (hcounter : s'.pilgrimCounter = s.pilgrimCounter)
    (hpool : ∃ angel ∈ s'.angels, angel ≠ .gone) (htemple : s'.temple = s.temple)
    (hless : new.toil + s'.wishes.length < old.toil + s.wishes.length) :
    Descends build streams requests s := by
  have htoil := toil_moves hmoves (h.sound.known_of_moves hmoves) hcounter
  refine ⟨[action], s', .cons hstep (.nil s'),
    h.moved (step_transition hstep) hmoves hcounter hpool htemple, hcounter, ?_⟩
  omega

/-- A song goes on inside `wish`. -/
theorem Serving.advances (h : s.Serving build streams requests) {i : ℕ} {stage : Stage}
    {clock : SystemTime} (hi : s.angels[i]? = some (.singing ⟨token, stage, []⟩))
    (hstage : ¬ stage.Ended) {song : Song}
    (hsong : Song.advance build clock ⟨token, stage, []⟩ = .ok song) :
    ∃ s', s.step build streams (.sing i clock) = .ok s' ∧ s'.Serving build streams requests ∧
      s'.pilgrimCounter = s.pilgrimCounter ∧ s'.toil + stage.toil = s.toil + song.toil := by
  obtain ⟨before, after, hangels, hset⟩ := exists_around hi
  have hstep : s.step build streams (.sing i clock) =
      .ok { s with angels := before ++ .singing song :: after } := by
    simp only [step, hi, sing_ok hstage hsong, setAngel, hset]
  have hmoves := moves_singing hangels (advance_own hsong).1
  refine ⟨_, hstep, h.moved (step_transition hstep) hmoves rfl (mem_around (by simp)) rfl, rfl, ?_⟩
  have htoil := toil_moves hmoves (h.sound.known_of_moves hmoves) rfl
  exact Nat.add_right_cancel htoil

theorem Serving.descends_of_advance (h : s.Serving build streams requests) {i : ℕ} {stage : Stage}
    {clock : SystemTime} (hi : s.angels[i]? = some (.singing ⟨token, stage, []⟩))
    (hstage : ¬ stage.Ended) {song : Song}
    (hsong : Song.advance build clock ⟨token, stage, []⟩ = .ok song)
    (hless : song.toil < stage.toil) : Descends build streams requests s := by
  obtain ⟨s', hstep, hserving, hcounter, htoil⟩ := h.advances hi hstage hsong
  refine ⟨_, s', .cons hstep (.nil s'), hserving, hcounter, ?_⟩
  omega

/-- A song whose call has ended well gives its pilgrim back. -/
theorem Serving.descends_finish (h : s.Serving build streams requests) {i : ℕ} {pilgrim : Pilgrim}
    (hi : s.angels[i]? = some (.singing ⟨token, .exit pilgrim (.ok ()), []⟩)) :
    Descends build streams requests s := by
  obtain ⟨before, after, hangels, hset⟩ := exists_around hi
  have hstep : s.step build streams (.sing i .unixEpoch) = .ok { s with
      angels := before ++ .idle :: after
      returned := s.returned ++ [(token, pilgrim)] } := by
    simp only [step, hi, sing, setAngel, hset]
  have hless : (Spot.returned pilgrim).toil <
      (Spot.sung ⟨token, .exit pilgrim (.ok ()), []⟩).toil := Nat.lt_succ_self _
  exact h.descends_of_moves hstep (moves_finish hangels) rfl (mem_around (by simp)) rfl
    (Nat.add_lt_add_right hless _)

/-- A song with messages left sends one of them. -/
theorem Serving.descends_send (h : s.Serving build streams requests) {i : ℕ} {stage : Stage}
    {emission : Emission} {outbox : List Emission}
    (hi : s.angels[i]? = some (.singing ⟨token, stage, emission :: outbox⟩)) :
    Descends build streams requests s := by
  obtain ⟨before, after, hangels, hset⟩ := exists_around hi
  have hstep : s.step build streams (.sing i .unixEpoch) = .ok
      (post { s with angels := before ++ .singing ⟨token, stage, outbox⟩ :: after }
        emission) := by
    simp only [step, hi, sing, setAngel, hset]
  have hmoves := moves_send hangels
  have hless : (Spot.sung ⟨token, stage, outbox⟩).toil + 1 <
      (Spot.sung ⟨token, stage, emission :: outbox⟩).toil := by
    simp only [Spot.toil, Song.toil, List.length_cons]
    omega
  cases emission with
  | toTemple wish =>
      apply h.descends_of_moves hstep hmoves rfl (mem_around (by simp)) rfl
      have hlength : (s.wishes ++ [wish]).length = s.wishes.length + 1 := List.length_append
      simp only [post, hlength]
      omega
  | toEgress decree =>
      apply h.descends_of_moves hstep hmoves rfl (mem_around (by simp)) rfl
      simp only [post]
      omega

/-- An angel that sings can go on. -/
theorem Serving.descends_sing (h : s.Serving build streams requests) {song : Song}
    (hmem : Angel.singing song ∈ s.angels) : Descends build streams requests s := by
  obtain ⟨i, hi⟩ := List.getElem?_of_mem hmem
  obtain ⟨before, after, hangels, -⟩ := exists_around hi
  obtain ⟨-, hfits, sent, hsinging⟩ := h.singing hangels
  obtain ⟨token, stage, _ | ⟨emission, outbox⟩⟩ := song
  · cases stage with
    | entry pilgrim =>
        obtain ⟨song, hsong, hle, -⟩ := exists_advance_entry hsinging.stage .unixEpoch token
        apply h.descends_of_advance hi id hsong
        rw [Stage.toil]
        omega
    | loop worker =>
        obtain ⟨song, hsong, hlt⟩ := exists_advance_loop hsinging.stage token
        apply h.descends_of_advance hi id hsong
        rw [Stage.toil]
        omega
    | exit pilgrim result =>
        cases result with
        | error sin => exact (hsinging.stage : False).elim
        | ok _ => exact h.descends_finish hi
  · exact h.descends_send hi

/-- An idle angel takes a song from the queue. -/
theorem Serving.descends_pick (h : s.Serving build streams requests)
    (hidle : Angel.idle ∈ s.angels) {pilgrim : Pilgrim} {songs : List (Token × Pilgrim)}
    (hsongs : s.songs = (token, pilgrim) :: songs) : Descends build streams requests s := by
  obtain ⟨i, hi⟩ := List.getElem?_of_mem hidle
  obtain ⟨before, after, hangels, hset⟩ := exists_around hi
  have hstep : s.step build streams (.pick i) = .ok { s with
      songs, angels := before ++ .singing ⟨token, .entry pilgrim, []⟩ :: after } := by
    simp only [step, hi, hsongs, hset]
  have hless : (Spot.sung ⟨token, .entry pilgrim, []⟩).toil < (Spot.queued pilgrim).toil :=
    Nat.lt_succ_self _
  exact h.descends_of_moves hstep (moves_pick hangels hsongs) rfl (mem_around (by simp)) rfl
    (Nat.add_lt_add_right hless _)

/-- The server loop takes a pilgrim back. -/
theorem Serving.descends_collect (h : s.Serving build streams requests) {pilgrim : Pilgrim}
    {returned : List (Token × Pilgrim)} (hreturned : s.returned = (token, pilgrim) :: returned) :
    Descends build streams requests s := by
  obtain ⟨life, -, hlife⟩ := h.sound.lives token
  have hstep : s.step build streams .collect =
      .ok { s with returned, ingressMap := s.ingressMap.insert token pilgrim } := by
    simp only [step, hreturned]
  have hless : (Spot.mapped pilgrim).toil < (Spot.returned pilgrim).toil := Nat.lt_succ_self _
  exact h.descends_of_moves hstep (moves_collect hreturned (hlife.free hreturned)) rfl h.pool rfl
    (Nat.add_lt_add_right hless _)

/-- The temple takes a wish. -/
theorem Serving.descends_turn (h : s.Serving build streams requests) {wish : Wish}
    {wishes : List Wish} (hwishes : s.wishes = wish :: wishes) :
    Descends build streams requests s := by
  obtain ⟨temple, htemple⟩ := h.temple
  have hmem : wish ∈ s.wishes := by
    rw [hwishes]
    exact List.mem_cons_self
  have hknown := h.sound.known_of_queued hmem
  have hbytes : (streams wish.token).payload <+: encodeAll (requests wish.token) := by
    rw [(h.complete wish.token hknown).bytes]
  obtain ⟨request, hrequest, clock, hgrant⟩ := h.sound.wish_of_mem hmem hbytes
  obtain ⟨decree, hdecree⟩ :=
    h.steady wish.token hknown request hrequest clock wish.token wish hgrant temple
  have hstep : s.step build streams .turn = .ok (s.serve temple wish wishes) := by
    simp only [step, htemple, hwishes]
  obtain ⟨hcounter, hangels⟩ := s.serve_rest temple wish wishes
  have hsame := serve_same temple hwishes
  have hserved : (s.serve temple wish wishes).temple = some (temple.turn wish).1 ∧
      (s.serve temple wish wishes).wishes = wishes := by
    unfold serve
    split
    case h_1 temple' decree' hturn =>
      rw [hturn]
      exact ⟨rfl, rfl⟩
    case h_2 temple' panic hturn =>
      rw [hturn] at hdecree
      cases hdecree
  have hknown' : ∀ t, (s.serve temple wish wishes).Known t ↔ s.Known t := by
    intro t
    rw [Known, Known, hcounter]
  refine ⟨[.turn], _, .cons hstep (.nil _), ?_, hcounter, ?_⟩
  · refine ⟨⟨fun t ht => h.complete t ((hknown' t).mp ht), ?_,
      fun t ht => h.steady t ((hknown' t).mp ht), hangels ▸ h.pool, _, hserved.1⟩,
      h.sound.step (step_transition hstep)⟩
    intro t ht
    rw [(hsame t).1]
    exact h.connected t ((hknown' t).mp ht)
  · have hholders : (s.serve temple wish wishes).holders = s.holders := funext fun t => (hsame t).1
    unfold toil
    rw [hcounter, hholders, hserved.2, hwishes, List.length_cons]
    omega

/-- A client whose input has not been read is served. -/
theorem Serving.descends_ready (h : s.Serving build streams requests)
    (hidle : Angel.idle ∈ s.angels) (hsongs : s.songs = []) {pilgrim : Pilgrim}
    (hget : s.ingressMap.get? token = some pilgrim) (hunread : pilgrim.stream.payload ≠ []) :
    Descends build streams requests s := by
  obtain ⟨i, hi⟩ := List.getElem?_of_mem hidle
  obtain ⟨before, after, hangels, hset⟩ := exists_around hi
  -- the pilgrim goes into the queue
  let queued : Server := { s with
    ingressMap := s.ingressMap.erase token, songs := s.songs ++ [(token, pilgrim)] }
  have hready : s.step build streams (.ready token) = .ok queued := by
    simp only [step, hget]
    apply if_neg
    intro hgone
    cases hgone _ hidle
  have hmoves := moves_ready hget
  have hqueued : queued.Serving build streams requests :=
    h.moved (step_transition hready) hmoves rfl h.pool rfl
  have hknown := h.sound.known_of_moves hmoves
  -- an angel takes it
  have hsong : queued.songs = (token, pilgrim) :: [] := by
    show s.songs ++ [(token, pilgrim)] = _
    rw [hsongs, List.nil_append]
  let picked : Server := { queued with
    songs := [], angels := before ++ .singing ⟨token, .entry pilgrim, []⟩ :: after }
  have hpick : queued.step build streams (.pick i) = .ok picked := by
    have hi' : queued.angels[i]? = some .idle := hi
    simp only [step, hi', hsong]
    rw [show queued.angels.set i _ = _ from hset _]
  have hmoves' := moves_pick (s := queued) hangels hsong
  have hpicked : picked.Serving build streams requests :=
    hqueued.moved (step_transition hpick) hmoves' rfl (mem_around (by simp)) rfl
  -- and reads
  have hsinging : Angel.singing ⟨token, .entry pilgrim, []⟩ ∈ picked.angels :=
    List.mem_append_right _ List.mem_cons_self
  obtain ⟨j, hj⟩ := List.getElem?_of_mem hsinging
  obtain ⟨-, hfits, sent, hfit⟩ := hpicked.singing rfl
  obtain ⟨song, hadvance, -, hless⟩ := exists_advance_entry hfit.stage .unixEpoch token
  obtain ⟨s', hread, hserving, hcounter, htoil⟩ := hpicked.advances hj id hadvance
  refine ⟨_, s', .cons hready (.cons hpick (.cons hread (.nil s'))), hserving, hcounter, ?_⟩
  have hqueue : queued.toil + 8 * pilgrim.worker.toil = s.toil + (8 * pilgrim.worker.toil + 5) :=
    Nat.add_right_cancel (toil_moves hmoves hknown rfl)
  have hpool : picked.toil + (8 * pilgrim.worker.toil + 5) =
      queued.toil + (8 * pilgrim.worker.toil + 4) :=
    Nat.add_right_cancel (toil_moves hmoves' (hqueued.sound.known_of_moves hmoves') rfl)
  have hstream : pilgrim.stream ≠ [] := by
    intro hnil
    rw [hnil] at hunread
    exact hunread rfl
  have hlt := hless hstream
  rw [Stage.toil] at htoil
  omega

/-- **While something is left to do, some party can go on.** -/
theorem Serving.descends (h : s.Serving build streams requests) (hbusy : ¬ s.Quiet) :
    Descends build streams requests s := by
  by_cases hsinging : ∃ song, Angel.singing song ∈ s.angels
  · obtain ⟨song, hsong⟩ := hsinging
    exact h.descends_sing hsong
  have hidle : Angel.idle ∈ s.angels := by
    obtain ⟨angel, hangel, hpresent⟩ := h.pool
    cases angel with
    | idle => exact hangel
    | singing song => exact absurd ⟨song, hangel⟩ hsinging
    | gone => exact absurd rfl hpresent
  rcases hsongs : s.songs with _ | ⟨⟨token, pilgrim⟩, songs⟩
  case cons => exact h.descends_pick hidle hsongs
  rcases hreturned : s.returned with _ | ⟨⟨token, pilgrim⟩, returned⟩
  case cons => exact h.descends_collect hreturned
  rcases hwishes : s.wishes with _ | ⟨wish, wishes⟩
  case cons => exact h.descends_turn hwishes
  -- all pilgrims are in the map, and one has something to read
  by_contra hstuck
  apply hbusy
  refine ⟨hwishes, ?_⟩
  intro token hknown
  have hangels : found (sungAt token) s.angels = 0 := by
    have hnone : s.angels.filterMap (sungAt token) = [] := by
      rw [List.filterMap_eq_nil_iff]
      intro angel hangel
      cases angel with
      | singing song => exact absurd ⟨song, hangel⟩ hsinging
      | _ => rfl
    rw [found, hnone, Multiset.coe_nil]
  cases hget : s.ingressMap.get? token with
  | none =>
      apply absurd _ (h.connected token hknown)
      simp only [holders, hget, hsongs, hreturned, hangels, Option.map_none, Option.toList_none,
        Multiset.coe_nil, Custody.found_nil, add_zero]
  | some pilgrim =>
      refine ⟨pilgrim, rfl, ?_⟩
      by_contra hunread
      exact hstuck (h.descends_ready hidle hsongs hget hunread)

/-- **The server can finish: all input is read, and the temple has taken every wish.** -/
theorem Serving.finishes (h : s.Serving build streams requests) :
    ∃ actions s', Run (step build streams) s actions s' ∧ s'.Serving build streams requests ∧
      s'.pilgrimCounter = s.pilgrimCounter ∧ s'.Quiet := by
  induction hn : s.toil using Nat.strong_induction_on generalizing s with
  | h n ih =>
      by_cases hquiet : s.Quiet
      · exact ⟨[], s, .nil s, h, rfl, hquiet⟩
      · obtain ⟨actions, s', hrun, hserving, hcounter, hless⟩ := h.descends hquiet
        obtain ⟨actions', s'', hrun', hserving', hcounter', hquiet'⟩ :=
          ih s'.toil (hn ▸ hless) hserving rfl
        exact ⟨actions ++ actions', s'', hrun.append hrun', hserving', hcounter'.trans hcounter,
          hquiet'⟩

end Server
end Heaven
