import Heaven.Draining
import Heaven.Reader

/-! # Chunking

Two clients send the same bytes, cut into different pieces.  The parser makes the same moves on them
(`Reader`), but it may stop at different places: behind a byte in the place of a marker it reads
from the socket before it goes on, and if nothing more comes, what it has already in its window is
not parsed.

A connection `Settles` when all bytes have been read.  The pieces cannot be observed if behind every
byte that is skipped nothing is granted or refused; for inputs that fit into the first buffer that
is precisely the condition (`unobservable_iff`). -/

namespace Heaven

open Decimal (ascii)
open Loops (Jump Head)
open StateTransition (Reaches eval mem_eval)

/-- All bytes have been read and the last call has returned, or a call has returned an error. -/
def Settles (build : Build) (stream : TcpStream) (pilgrim : Pilgrim) (result : Except Sin Unit) :
    Prop :=
  ∃ n, calls build (.new stream) n = some (.ok (pilgrim, result)) ∧
    (pilgrim.stream.payload = [] ∨ result ≠ .ok ())

/-- However the bytes are cut into pieces, the same requests are granted in the end, and the
connection is open or closed. -/
def Unobservable (build : Build) (bytes : Bytes) : Prop :=
  ∀ stream stream' : TcpStream, stream.Open → stream'.Open → stream.payload = bytes →
    stream'.payload = bytes → ∀ pilgrim result pilgrim' result',
      Settles build stream pilgrim result → Settles build stream' pilgrim' result' →
        pilgrim.granted = pilgrim'.granted ∧ (result = .ok () ↔ result' = .ok ())

/-- Behind a byte that is skipped, nothing is granted or refused. -/
def Harmless (bytes : Bytes) : Prop :=
  ∀ reader, Reaches Reader.next (.start bytes) reader → reader.Skips →
    ∀ reader', Reaches Reader.next reader reader' →
      reader'.granted = reader.granted ∧ ∀ sin, reader'.move ≠ .refuse sin

/-- The bytes announce no bulk string of `2 ^ 63` bytes or more. -/
def Announces (bytes : Bytes) : Prop :=
  ∀ reader, Reaches Reader.next (.start bytes) reader →
    ∀ len, reader.phase = .awaitingBulkString len → len < 2 ^ 63

variable {build : Build} {stream : TcpStream} {pilgrim : Pilgrim} {result : Except Sin Unit}

/-! ### Every connection settles -/

/-- No call panics. -/
theorem calls_ok_of_announces (build : Build) (hannounces : Announces stream.payload) (n : ℕ) :
    ∃ out, calls build (.new stream) n = some (.ok out) := by
  apply (calls_ok_iff build stream).mpr
  rintro head hhead ⟨len, hphase, hlen, -⟩
  have hsmall := hannounces _ (onPath_of_atLoop hhead).reaches len hphase
  omega

theorem exists_settles (build : Build) (hannounces : Announces stream.payload) :
    ∃ pilgrim result, Settles build stream pilgrim result := by
  obtain ⟨⟨pilgrim, result⟩, hcalls⟩ := calls_ok_of_announces build hannounces stream.size
  refine ⟨pilgrim, result, stream.size, hcalls, ?_⟩
  rcases result with sin | _
  · exact .inr nofun
  · have hdry := calls_dry (Pilgrim.wellFormed_new stream) (Nat.le_refl _) hcalls
    exact .inl (by rw [hdry]; rfl)

/-! ### What a connection comes to -/

/-- The connection has come to the end of the reader's path. -/
def Completes (bytes : Bytes) (pilgrim : Pilgrim) (result : Except Sin Unit) : Prop :=
  ∀ e ∈ eval Reader.next (.start bytes),
    pilgrim.granted = e.granted ∧ (result = .ok () ↔ ∀ sin, e.move ≠ .refuse sin)

theorem exists_end (bytes : Bytes) : ∃ e, e ∈ eval Reader.next (.start bytes) := by
  have hless : ∀ r r' : Reader, r.next = some r' → r'.input.length < r.input.length :=
    Reader.length_next_lt
  exact Paths.exists_mem_eval hless _

theorem eq_of_next_eq_none {bytes : Bytes} {reader e : Reader}
    (h : Reaches Reader.next (.start bytes) reader) (hstop : reader.next = none)
    (he : e ∈ eval Reader.next (.start bytes)) : e = reader :=
  Paths.eq_of_reaches (Paths.reaches_end h he) hstop

/-- Nothing is left in the socket, and the window is not complete. -/
theorem needsMore_reader {worker : Worker} (hdry : worker.stream.payload = [])
    (h : worker.virtue.NeedsMore) : worker.reader.virtue.NeedsMore := by
  have hwindow : worker.reader.virtue.window = worker.virtue.window := by
    rw [Reader.window_virtue, Worker.reader, hdry, List.append_nil]
  exact h.congr hwindow ⟨rfl, rfl, rfl⟩

theorem completes_of_needsMore {bytes : Bytes}
    (hpath : Reaches Reader.next (.start bytes) pilgrim.worker.reader)
    (hdry : pilgrim.stream.payload = []) (h : pilgrim.worker.virtue.NeedsMore) :
    Completes bytes pilgrim (.ok ()) := by
  intro e he
  have hneeds : pilgrim.worker.reader.virtue.NeedsMore := needsMore_reader hdry h
  obtain rfl := eq_of_next_eq_none hpath (Reader.next_needsMore hneeds) he
  refine ⟨rfl, iff_of_true rfl ?_⟩
  intro sin hrefuse
  obtain hstop | hmore := hneeds
  · cases hstop.symm.trans hrefuse
  · cases hmore.symm.trans hrefuse

theorem completes_of_refuse {bytes : Bytes} {sin : Sin}
    (hpath : Reaches Reader.next (.start bytes) pilgrim.worker.reader)
    (h : pilgrim.worker.reader.move = .refuse sin) : Completes bytes pilgrim (.error sin) := by
  intro e he
  obtain rfl := eq_of_next_eq_none hpath (Reader.next_refuse h) he
  exact ⟨rfl, iff_of_false nofun fun hnot => hnot sin h⟩

/-- Where skipped bytes do no harm, every connection comes to the end. -/
theorem completes_of_harmless (hwhole : stream.Whole) (hharmless : Harmless stream.payload)
    (h : Settles build stream pilgrim result) : Completes stream.payload pilgrim result := by
  obtain ⟨n, hcalls, hsettled⟩ := h
  obtain ⟨hpath, hleaves⟩ := leaves_of_calls hcalls
  rcases result with sin | _
  · exact completes_of_refuse hpath.reaches (hleaves hwhole)
  · obtain hdry | hne := hsettled
    · obtain hneeds | ⟨reader, hreader, hskips, hnext⟩ := hleaves
      · exact completes_of_needsMore hpath.reaches hdry hneeds
      · intro e he
        have hnone := hharmless reader hreader hskips
        have hbehind := hnone pilgrim.worker.reader (.single hnext)
        have hend := hnone e (Paths.reaches_end hreader he)
        exact ⟨hbehind.1.trans hend.1.symm, iff_of_true rfl hend.2⟩
    · exact absurd rfl hne

theorem whole_of_lt {bytes : Bytes} (hopen : stream.Open) (hbytes : stream.payload = bytes)
    (hlength : bytes.length < 64 * 1024 * 1024 - 1024) : stream.Whole := by
  rw [← hbytes] at hlength
  exact ⟨hopen, hlength.le⟩

theorem unobservable_of_harmless {bytes : Bytes}
    (hlength : bytes.length < 64 * 1024 * 1024 - 1024) (hharmless : Harmless bytes) :
    Unobservable build bytes := by
  intro stream stream' hopen hopen' hbytes hbytes' pilgrim result pilgrim' result' h h'
  have hwhole := whole_of_lt hopen hbytes hlength
  have hwhole' := whole_of_lt hopen' hbytes' hlength
  obtain ⟨e, he⟩ := exists_end bytes
  have hcomplete := completes_of_harmless hwhole (hbytes ▸ hharmless) h
  have hcomplete' := completes_of_harmless hwhole' (hbytes' ▸ hharmless) h'
  rw [hbytes] at hcomplete
  rw [hbytes'] at hcomplete'
  obtain ⟨hgranted, hopens⟩ := hcomplete e he
  obtain ⟨hgranted', hopens'⟩ := hcomplete' e he
  exact ⟨hgranted.trans hgranted'.symm, hopens.trans hopens'.symm⟩

/-! ### One byte at a time -/

/-- Every byte arrives alone. -/
def TcpStream.Single (stream : TcpStream) : Prop := ∀ arrival ∈ stream, ∃ b, arrival = .data b []

def singly (bytes : Bytes) : TcpStream := bytes.map fun b => .data b []

theorem single_singly (bytes : Bytes) : (singly bytes).Single := by
  intro arrival hmem
  obtain ⟨b, -, rfl⟩ := List.mem_map.mp hmem
  exact ⟨b, rfl⟩

theorem TcpStream.Single.isOpen {stream : TcpStream} (h : stream.Single) : stream.Open := by
  intro arrival hmem
  obtain ⟨b, rfl⟩ := h arrival hmem
  exact ⟨nofun, nofun⟩

/-- A read takes one byte, if it takes any. -/
theorem TcpStream.Single.read {stream : TcpStream} (h : stream.Single) {room : ℕ}
    (hroom : 0 < room) :
    (stream.read room).2.Single ∧ ∀ bytes, bytes ≠ [] →
      stream.payload = bytes ++ (stream.read room).2.payload → ∃ b, bytes = [b] := by
  cases stream with
  | nil =>
      refine ⟨h, ?_⟩
      intro bytes hne hpayload
      exact absurd (List.nil_eq_append_iff.mp hpayload).1 hne
  | cons arrival later =>
      obtain ⟨⟨b, rfl⟩, hlater⟩ := List.forall_mem_cons.mp h
      obtain ⟨room, rfl⟩ := Nat.exists_eq_add_of_lt hroom
      have hread : TcpStream.read (0 + room + 1) (.data b [] :: later) = (.ok [b], later) := by
        simp [TcpStream.read]
      rw [hread]
      refine ⟨hlater, ?_⟩
      intro bytes _ hpayload
      exact ⟨b, (List.append_cancel_right hpayload).symm⟩

theorem payload_singly (bytes : Bytes) : (singly bytes).payload = bytes := by
  induction bytes with
  | nil => rfl
  | cons b bytes ih => exact congrArg (b :: ·) ih

namespace Virtue

variable {virtue virtue' : Virtue} {b : UInt8}

/-- **The byte that the parser has waited for completes the window**: what it consumes then is all
of it. -/
theorem Consumes.all {n : ℕ} {phase : Phase} {expectedTerms : ℕ} {terms : List Bytes}
    {granted : List Request} (h : virtue'.Consumes n phase expectedTerms terms granted)
    (hlacks : virtue.Lacks) (hwindow : virtue'.window = virtue.window ++ [b])
    (same : virtue.SamePlace virtue') : virtue'.window.length ≤ n := by
  have hlength : virtue'.window.length = virtue.window.length + 1 := by
    rw [hwindow, List.length_append, List.length_singleton]
  -- a line that ends before the last byte has not been waited for
  have hline : ∀ i, findCrlf virtue.window = none → findCrlf virtue'.window = some i →
      virtue'.window.length ≤ i + 2 := by
    intro i hnone hsome
    rw [hwindow] at hsome
    by_contra hlt
    have hfound := findCrlf_of_append_le [b] hsome (by omega)
    rw [hnone] at hfound
    cases hfound
  rw [Lacks, ← same.phase] at hlacks
  cases h with
  | array hphase _ =>
      rw [hphase] at hlacks
      have hnil : virtue.window = [] := hlacks
      rw [hlength, hnil, List.length_nil]
  | marker hphase _ =>
      rw [hphase] at hlacks
      have hnil : virtue.window = [] := hlacks
      rw [hlength, hnil, List.length_nil]
  | count hphase hsome _ =>
      rw [hphase] at hlacks
      exact hline _ hlacks hsome
  | length hphase hsome _ =>
      rw [hphase] at hlacks
      exact hline _ hlacks hsome
  | term hphase _ _ _ =>
      rw [hphase] at hlacks
      rw [hlength]
      exact hlacks
  | last hphase _ _ _ =>
      rw [hphase] at hlacks
      rw [hlength]
      exact hlacks

/-- A byte that is skipped is the one that the parser has waited for. -/
theorem window_of_skip (hmove : virtue'.move = .more 1) (hlacks : virtue.Lacks)
    (hwindow : virtue'.window = virtue.window ++ [b]) (same : virtue.SamePlace virtue') :
    virtue'.window = [b] := by
  have hmoves := virtue'.moves
  rw [hmove] at hmoves
  cases hmoves with
  | skip hphase _ _ =>
      rw [Lacks, ← same.phase, hphase] at hlacks
      have hnil : virtue.window = [] := hlacks
      rw [hwindow, hnil, List.nil_append]

end Virtue

/-- The window is empty, or its last byte is one that the parser has waited for. -/
def Fresh (virtue : Virtue) : Prop :=
  virtue.window = [] ∨
    ∃ (before : Virtue) (b : UInt8), before.NeedsMore ∧ virtue.window = before.window ++ [b] ∧
      before.SamePlace virtue

/-- At the head of the loop, where the bytes come one at a time. -/
structure SingleLoop (worker : Worker) : Prop where
  single : worker.stream.Single
  fresh : Fresh worker.virtue

/-- Between two calls, where the bytes come one at a time. -/
structure SingleRest (worker : Worker) (result : Except Sin Unit) : Prop where
  single : worker.stream.Single
  needsMore : result = .ok () → worker.virtue.NeedsMore

section Single

variable {worker worker' : Worker} {jump : WishJump} (hwf : worker.virtue.WellFormed)

include hwf

theorem readMore_single (hsingle : worker.stream.Single) (hneeds : worker.virtue.NeedsMore)
    (h : readMore build worker = .ok (worker', jump)) :
    jump.Leads SingleLoop SingleRest worker' := by
  have htakes : worker'.stream.Single ∧ ∀ bytes, bytes ≠ [] →
      worker.stream.payload = bytes ++ worker'.stream.payload → ∃ b, bytes = [b] := by
    obtain ⟨room, hroom, hstream, -⟩ | ⟨sin, -, hstream⟩ := readMore_takes build hwf h
    · rw [hstream]
      exact hsingle.read hroom
    · rw [hstream]
      refine ⟨hsingle, ?_⟩
      intro bytes hne hpayload
      exact absurd (List.self_eq_append_left.mp hpayload) hne
  cases readMore_step hwf h with
  | failed => exact ⟨hsingle, fun hresult => by cases hresult⟩
  | blocked wf same window => exact ⟨htakes.1, fun _ => hneeds.congr window same⟩
  | received bytes wf same nonempty window payload =>
      obtain ⟨b, rfl⟩ := htakes.2 bytes nonempty payload
      exact ⟨htakes.1, .inr ⟨worker.virtue, b, hneeds, window, same⟩⟩

/-- The step lemma. -/
theorem pass_single (hloop : SingleLoop worker) (h : pass build worker = .ok (worker', jump)) :
    jump.Leads SingleLoop SingleRest worker' := by
  obtain ⟨hsingle, hfresh⟩ := hloop
  cases pass_step build hwf h with
  | stop hmove => exact ⟨hsingle, fun _ => .inl hmove⟩
  | refuse hmove => exact ⟨hsingle, nofun⟩
  | consume hmove hwindow hreader hstream =>
      refine ⟨hstream ▸ hsingle, .inl ?_⟩
      obtain hnil | ⟨before, b, hneeds, happend, same⟩ := hfresh
      · rw [hwindow, hnil, List.drop_nil]
      · rw [hwindow]
        exact List.drop_of_length_le
          ((Virtue.consumes_of_move hmove).all hneeds.lacks happend same)
  | more hmove hread => exact readMore_single hwf hsingle (.inr hmove) hread
  | skip hmove hwf' hskips hreader hread =>
      obtain hnil | ⟨before, b, hneeds, happend, same⟩ := hfresh
      · rw [Virtue.move, hnil] at hmove
        cases hmove
      · have hone := Virtue.window_of_skip hmove hneeds.lacks happend same
        have hempty : (worker.skip 1).virtue.window = [] := by
          rw [worker.skip_window, hone]
          rfl
        have hstream : (worker.skip 1).stream.Single := hsingle
        exact readMore_single hwf' hstream (Virtue.needsMore_of_window_eq_nil hempty) hread

end Single

theorem needsMore_singly {bytes : Bytes} {n : ℕ}
    (h : calls build (.new (singly bytes)) n = some (.ok (pilgrim, .ok ()))) :
    pilgrim.worker.virtue.NeedsMore := by
  have hread : ∀ worker worker' jump, worker.virtue.WellFormed → SingleRest worker (.ok ()) →
      readMore build worker = .ok (worker', jump) → jump.Leads SingleLoop SingleRest worker' :=
    fun _ _ _ hwf hrest hread => readMore_single hwf hrest.single (hrest.needsMore rfl) hread
  have hpass : ∀ worker worker' jump, worker.virtue.WellFormed → SingleLoop worker →
      pass build worker = .ok (worker', jump) → jump.Leads SingleLoop SingleRest worker' :=
    fun _ _ _ hwf hloop hpass => pass_single hwf hloop hpass
  have hwindow : (Pilgrim.new (singly bytes)).worker.virtue.window = [] := rfl
  have hnew : SingleRest (Pilgrim.new (singly bytes)).worker (.ok ()) :=
    ⟨single_singly bytes, fun _ => Virtue.needsMore_of_window_eq_nil hwindow⟩
  exact (calls_leads hread hpass (Pilgrim.wellFormed_new _) hnew h).needsMore rfl

/-- A connection on which every byte arrives alone comes to the end. -/
theorem completes_singly {bytes : Bytes} (hlength : bytes.length < 64 * 1024 * 1024 - 1024)
    (h : Settles build (singly bytes) pilgrim result) : Completes bytes pilgrim result := by
  obtain ⟨n, hcalls, hsettled⟩ := h
  have hwhole := whole_of_lt (single_singly bytes).isOpen (payload_singly bytes) hlength
  obtain ⟨hpath, hleaves⟩ := leaves_of_calls hcalls
  have hreaches := hpath.reaches
  rw [payload_singly] at hreaches
  rcases result with sin | _
  · exact completes_of_refuse hreaches (hleaves hwhole)
  · obtain hdry | hne := hsettled
    · exact completes_of_needsMore hreaches hdry (needsMore_singly hcalls)
    · exact absurd rfl hne

/-! ### All bytes at once -/

/-- A new buffer takes 4096 bytes in one read. -/
theorem readMore_first {first : UInt8} {rest : Bytes} (hlength : (first :: rest).length ≤ 4096)
    {worker' : Worker} {jump : WishJump}
    (h : readMore build (Pilgrim.new [.data first rest]).worker = .ok (worker', jump)) :
    jump = .again ∧ worker'.stream = [] := by
  have hbacklog : Virtue.new.backlog.length = 4096 := List.length_replicate
  have hsub : subUsize build Virtue.new.backlog.length 1024 = .ok 3072 := by
    rw [hbacklog]
    exact subUsize_of_le build (by omega)
  have hresize : Virtue.new.potentiallyResize build = .ok (.ok Virtue.new) := by
    unfold Virtue.potentiallyResize
    rw [hsub]
    rfl
  have hroom : slice Virtue.new.backlog 0 Virtue.new.backlog.length = .ok Virtue.new.backlog := by
    rw [slice_zero (Nat.le_refl _), List.take_length]
  have hread : TcpStream.read Virtue.new.backlog.length [.data first rest] =
      (.ok (first :: rest), []) := by
    rw [TcpStream.read, List.drop_of_length_le (by omega)]
  have hadd : addUsize build 0 (first :: rest).length = .ok (0 + (first :: rest).length) :=
    addUsize_of_lt build (by omega)
  have hwrite : Virtue.new.writeIdx = 0 := rfl
  have hworker : (Pilgrim.new [.data first rest]).worker = ⟨.new, [.data first rest], []⟩ := rfl
  unfold readMore Virtue.potentiallyResizeAndRead at h
  rw [hworker] at h
  dsimp only at h
  rw [hresize] at h
  dsimp only [bind, Except.bind] at h
  rw [hwrite, hroom] at h
  dsimp only at h
  rw [hread] at h
  dsimp only at h
  rw [hadd] at h
  cases h
  exact ⟨rfl, rfl⟩

/-- Nothing is left to read, and no byte has been skipped. -/
structure Swallows (bytes : Bytes) (worker : Worker) : Prop where
  dry : worker.stream = []
  path : Paths.Until Reader.next Reader.Skips (.start bytes) worker.reader

/-- The connection has stopped behind the first byte that is skipped, or at the end of a path
without one. -/
structure Stops (bytes : Bytes) (worker : Worker) (result : Except Sin Unit) : Prop where
  dry : worker.stream = []
  place : (result = .ok () ∧ ∃ reader,
      Paths.Until Reader.next Reader.Skips (.start bytes) reader ∧ reader.Skips ∧
        reader.next = some worker.reader) ∨
    (Paths.Until Reader.next Reader.Skips (.start bytes) worker.reader ∧ worker.reader.next = none)

/-- The connection has not been called yet, or has stopped. -/
def NewOrStops (first : UInt8) (rest : Bytes) (worker : Worker) (result : Except Sin Unit) : Prop :=
  (worker = (Pilgrim.new [.data first rest]).worker ∧ result = .ok ()) ∨
    Stops (first :: rest) worker result

section AtOnce

variable {bytes : Bytes} (hlength : bytes.length ≤ 4096) {worker worker' : Worker} {jump : WishJump}
  (hwf : worker.virtue.WellFormed)

include hlength hwf

/-- An empty socket blocks. -/
theorem readMore_empty (hdry : worker.stream = [])
    (hpath : Reaches Reader.next (.start bytes) worker.reader)
    (h : readMore build worker = .ok (worker', jump)) :
    jump = .leave (.ok ()) ∧ worker'.stream = [] := by
  have hwindow := length_window_le hpath
  have htakes := readMore_takes build hwf h
  cases readMore_step hwf h with
  | failed full =>
      have hopen : worker.stream.Open := by
        rw [hdry]
        intro arrival harrival
        cases harrival
      have hlarge := full hopen
      omega
  | blocked =>
      obtain ⟨room, -, hstream, -⟩ | ⟨sin, hsin, -⟩ := htakes
      · rw [hdry] at hstream
        exact ⟨rfl, hstream⟩
      · cases hsin
  | received bytes' wf same nonempty window payload =>
      rw [hdry] at payload
      exact absurd (List.nil_eq_append_iff.mp payload).1 nonempty

theorem Swallows.pass (h : Swallows bytes worker)
    (hpass : Heaven.pass build worker = .ok (worker', jump)) :
    jump.Leads (Swallows bytes) (Stops bytes) worker' := by
  have hpayload : worker.stream.payload = [] := by
    rw [h.dry]
    rfl
  have hstops : worker.virtue.NeedsMore → worker.reader.next = none := fun hneeds =>
    Reader.next_needsMore (needsMore_reader hpayload hneeds)
  cases pass_step build hwf hpass with
  | stop hmove => exact ⟨h.dry, .inr ⟨h.path, hstops (.inl hmove)⟩⟩
  | refuse hmove =>
      have hrefuse := Worker.reader_move hmove (by simp) (by simp)
      exact ⟨h.dry, .inr ⟨h.path, Reader.next_refuse hrefuse⟩⟩
  | consume hmove hwindow hreader hstream =>
      refine ⟨hstream.trans h.dry, h.path.tail ⟨hreader, ?_⟩⟩
      intro hskips
      cases hskips.symm.trans (Worker.reader_move hmove (by simp) (by simp))
  | more hmove hread =>
      obtain ⟨rfl, hdry⟩ := readMore_empty hlength hwf h.dry h.path.toReaches hread
      have hreader := readMore_reader build hwf hread
      refine ⟨hdry, .inr ?_⟩
      rw [hreader]
      exact ⟨h.path, hstops (.inr hmove)⟩
  | skip hmove hwf' hskips hreader hread =>
      have hpath : Reaches Reader.next (.start bytes) (worker.skip 1).reader :=
        h.path.toReaches.tail hreader
      obtain ⟨rfl, hdry⟩ := readMore_empty hlength hwf' h.dry hpath hread
      refine ⟨hdry, .inl ⟨rfl, worker.reader, h.path, hskips, ?_⟩⟩
      rw [readMore_reader build hwf' hread]
      exact hreader

theorem Stops.readMore (h : Stops bytes worker (.ok ()))
    (hread : Heaven.readMore build worker = .ok (worker', jump)) :
    jump.Leads (Swallows bytes) (Stops bytes) worker' := by
  have hpath : Reaches Reader.next (.start bytes) worker.reader := by
    obtain ⟨-, reader, hreader, -, hnext⟩ | ⟨hend, -⟩ := h.place
    · exact hreader.toReaches.tail hnext
    · exact hend.toReaches
  obtain ⟨rfl, hdry⟩ := readMore_empty hlength hwf h.dry hpath hread
  have hreader := readMore_reader build hwf hread
  refine ⟨hdry, ?_⟩
  rw [hreader]
  exact h.place

end AtOnce

theorem NewOrStops.readMore {first : UInt8} {rest : Bytes}
    (hlength : (first :: rest).length ≤ 4096) {worker worker' : Worker} {jump : WishJump}
    (hwf : worker.virtue.WellFormed) (h : NewOrStops first rest worker (.ok ()))
    (hread : Heaven.readMore build worker = .ok (worker', jump)) :
    jump.Leads (Swallows (first :: rest)) (NewOrStops first rest) worker' := by
  obtain ⟨rfl, -⟩ | hstops := h
  · have hreader := readMore_reader build hwf hread
    obtain ⟨rfl, hdry⟩ := readMore_first hlength hread
    refine ⟨hdry, ?_⟩
    rw [hreader, reader_new, TcpStream.payload, TcpStream.payload, List.append_nil]
    exact .refl
  · have hleads := hstops.readMore hlength hwf hread
    cases jump with
    | again => exact hleads
    | leave result => exact .inr hleads

/-- A connection on which all bytes arrive at once stops behind the first byte that is skipped. -/
theorem stops_atOnce {first : UInt8} {rest : Bytes} (hlength : (first :: rest).length ≤ 4096)
    (h : Settles build [.data first rest] pilgrim result) :
    Stops (first :: rest) pilgrim.worker result := by
  obtain ⟨n, hcalls, hsettled⟩ := h
  have hpass : ∀ worker worker' jump, worker.virtue.WellFormed → Swallows (first :: rest) worker →
      pass build worker = .ok (worker', jump) →
        jump.Leads (Swallows (first :: rest)) (NewOrStops first rest) worker' := by
    intro worker worker' jump hwf hloop hpass
    have hleads := hloop.pass hlength hwf hpass
    cases jump with
    | again => exact hleads
    | leave result => exact .inr hleads
  have hrest := calls_leads (fun _ _ _ hwf hrest hread => hrest.readMore hlength hwf hread) hpass
    (Pilgrim.wellFormed_new _) (.inl ⟨rfl, rfl⟩) hcalls
  obtain ⟨hnew, hok⟩ | hstops := hrest
  · -- the bytes are still in the socket
    obtain hdry | hne := hsettled
    · have hstream : pilgrim.stream = [.data first rest] := congrArg Worker.stream hnew
      rw [hstream] at hdry
      cases hdry
    · exact absurd hok hne
  · exact hstops

/-! ### Which inputs show how they are cut -/

/-- The two extremes for an input that fits into the first buffer: all bytes at once, and one byte
at a time. -/
theorem exists_extremes {first : UInt8} {rest : Bytes} (hlength : (first :: rest).length ≤ 4096)
    (hannounces : Announces (first :: rest)) (h : Unobservable build (first :: rest)) :
    ∃ pilgrim result, Stops (first :: rest) pilgrim.worker result ∧
      Completes (first :: rest) pilgrim result := by
  have hpayload : TcpStream.payload [.data first rest] = first :: rest := List.append_nil _
  have hopen : TcpStream.Open [.data first rest] := by
    intro arrival hmem
    rw [List.mem_singleton.mp hmem]
    exact ⟨nofun, nofun⟩
  have hatOnce : Announces (TcpStream.payload [.data first rest]) := hpayload ▸ hannounces
  have hsingly : Announces (singly (first :: rest)).payload :=
    (payload_singly (first :: rest)).symm ▸ hannounces
  obtain ⟨pilgrim, result, hsettles⟩ := exists_settles build hatOnce
  obtain ⟨pilgrim', result', hsettles'⟩ := exists_settles build hsingly
  obtain ⟨hgranted, hresult⟩ := h _ _ hopen (single_singly _).isOpen hpayload (payload_singly _)
    pilgrim result pilgrim' result' hsettles hsettles'
  have hcompletes := completes_singly (by omega) hsettles'
  refine ⟨pilgrim, result, stops_atOnce hlength hsettles, ?_⟩
  intro e he
  obtain ⟨hend, hopens⟩ := hcompletes e he
  exact ⟨hgranted.trans hend, hresult.trans hopens⟩

theorem harmless_of_unobservable {bytes : Bytes} (hlength : bytes.length ≤ 4096)
    (hannounces : Announces bytes) (h : Unobservable build bytes) : Harmless bytes := by
  intro reader hreader hskips reader' hreader'
  obtain ⟨e, he⟩ := exists_end bytes
  cases bytes with
  | nil =>
      have hstart := Paths.eq_of_reaches hreader rfl
      rw [hstart] at hskips
      cases hskips
  | cons first rest =>
      obtain ⟨pilgrim, result, hstops, hcompletes⟩ := exists_extremes hlength hannounces h
      obtain ⟨hgranted, hopens⟩ := hcompletes e he
      obtain ⟨hok, skipped, hpath, hfirst, hnext⟩ | ⟨hpath, hstop⟩ := hstops.place
      · -- the first byte that is skipped lies before `reader`, and the end behind `reader'`
        have hbegin := Reader.granted_reaches (hpath.reaches hreader hskips)
        have hmiddle := Reader.granted_reaches hreader'
        have hend := Paths.reaches_end (hreader.trans hreader') he
        have hsame : e.granted = skipped.granted :=
          hgranted.symm.trans (Reader.granted_skip hfirst hnext)
        have hlast := Reader.granted_reaches hend
        rw [hsame] at hlast
        refine ⟨?_, ?_⟩
        · exact (hlast.trans hbegin).eq_of_length_le hmiddle.length_le
        · intro sin hrefuse
          have hstopped := Paths.eq_of_reaches hend (Reader.next_refuse hrefuse)
          exact hopens.mp hok sin (hstopped ▸ hrefuse)
      · -- nothing has been skipped on the whole path
        have hback := Paths.eq_of_reaches (hpath.reaches hreader hskips) hstop
        rw [← hback, Reader.next_skip hskips] at hstop
        cases hstop

/-- **The pieces cannot be observed if** behind every byte that is skipped nothing is granted or
refused, and for inputs that fit into the first buffer only if. -/
theorem unobservable_iff (build : Build) (bytes : Bytes)
    (hlength : bytes.length < 64 * 1024 * 1024 - 1024) (hannounces : Announces bytes) :
    (Harmless bytes → Unobservable build bytes) ∧
      (bytes.length ≤ 4096 → (Unobservable build bytes ↔ Harmless bytes)) := by
  refine ⟨unobservable_of_harmless hlength, ?_⟩
  intro hsmall
  exact ⟨harmless_of_unobservable hsmall hannounces, unobservable_of_harmless hlength⟩

/-- The announcements of an input can be looked up on the path of the reader. -/
theorem announces_of_trace {bytes : Bytes}
    (h : ((Paths.trace Reader.next bytes.length (.start bytes)).all fun reader =>
      match reader.phase with
      | .awaitingBulkString len => decide (len < 2 ^ 63)
      | _ => true) = true) : Announces bytes := by
  intro reader hreader len hphase
  have hreader' := List.all_eq_true.mp h reader (Reader.mem_trace hreader)
  rw [hphase] at hreader'
  exact of_decide_eq_true hreader'

/-- A byte is skipped, and nothing comes behind it. -/
theorem unobservable_iff_skipped :
    (Harmless (ascii "*1\r\nx") → Unobservable .release (ascii "*1\r\nx")) ∧
      ((ascii "*1\r\nx").length ≤ 4096 →
        (Unobservable .release (ascii "*1\r\nx") ↔ Harmless (ascii "*1\r\nx"))) :=
  unobservable_iff .release (ascii "*1\r\nx") (by decide) (announces_of_trace (by decide +kernel))

/-- A connection that has settled after calls that have been carried out. -/
theorem exists_settles_of_calls {n : ℕ} {granted : List Request}
    (h : (calls build (.new stream) n).map (·.map fun out =>
      decide (out.1.granted = granted ∧ out.1.stream = [])) = some (.ok true)) :
    ∃ pilgrim result, Settles build stream pilgrim result ∧ pilgrim.granted = granted := by
  obtain ⟨pilgrim, result, hcalls, htest⟩ := exists_calls h
  obtain ⟨hgranted, hdry⟩ := of_decide_eq_true htest
  have hpayload : pilgrim.stream.payload = [] := congrArg TcpStream.payload hdry
  exact ⟨pilgrim, result, ⟨n, hcalls, .inl hpayload⟩, hgranted⟩

/-- PING behind a byte that is skipped: in one piece it is not granted, in two it is. -/
theorem pieces_decide_over_ping :
    ¬ ∀ (build : Build) (bytes : Bytes), bytes.length < 64 * 1024 * 1024 - 1024 →
      Announces bytes → Unobservable build bytes := by
  intro h
  let whole : TcpStream := [.data 42 (ascii "1\r\nx$4\r\nPING\r\n")]
  let pieces : TcpStream := [.data 42 (ascii "1\r\nx"), .data 36 (ascii "4\r\nPING\r\n")]
  have hwhole : ∃ pilgrim result, Settles .release whole pilgrim result ∧ pilgrim.granted = [] :=
    exists_settles_of_calls (n := 1) (by decide +kernel)
  have hpieces : ∃ pilgrim result, Settles .release pieces pilgrim result ∧
      pilgrim.granted = [⟨[ascii "PING"], List.cons_ne_nil _ _⟩] :=
    exists_settles_of_calls (n := 2) (by decide +kernel)
  obtain ⟨pilgrim, result, hsettles, hnone⟩ := hwhole
  obtain ⟨pilgrim', result', hsettles', hone⟩ := hpieces
  have hsame := h .release (ascii "*1\r\nx$4\r\nPING\r\n") (by decide)
    (announces_of_trace (by decide +kernel)) whole pieces (by decide) (by decide) (by decide)
    (by decide) pilgrim result pilgrim' result' hsettles hsettles'
  rw [hnone, hone] at hsame
  cases hsame.1

end Heaven
