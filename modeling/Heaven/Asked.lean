import Heaven.Execution
import Heaven.Reader

/-! # What a client asks for

A client may send any bytes, in any pieces, and hang up at any time.  The parser on all of its bytes
finds certain commands in them (`asked`).  Whatever the other clients do, the temple executes for it
an initial part of these (`Sound.executed_asked`), and its song panics only where the parser comes
to a length that is too large to add 2 (`calls_ok_of_not_announces`), or in a build with overflow
checks on a deadline that it asks for (`Sound.kills_of_panic`).

Where the bytes are an initial part of an encoding, the commands that are found are the first of
those that are encoded (`asked_initial`), and where they are all of it, they are all of them
(`asked_encodeAll`). -/

namespace Heaven

open StateTransition (Reaches mem_eval)

/-! ### The commands in the bytes -/

/-- The parser at the end of the bytes, or where it refuses them. -/
def Reader.last (bytes : Bytes) : Reader := Paths.finish Reader.next bytes.length (.start bytes)

/-- The commands that the parser finds in the bytes. -/
def asked (bytes : Bytes) : List Request := (Reader.last bytes).granted

/-- The parser comes to a length so large that adding 2 overflows, and to a byte behind it. -/
def AnnouncesHuge (bytes : Bytes) : Prop :=
  ∃ reader, Reaches Reader.next (.start bytes) reader ∧ reader.virtue.Overlong

/-- The bytes can make a worker panic: they announce such a length, or ask for a deadline that the
handler panics on. -/
def Kills (build : Build) (bytes : Bytes) : Prop :=
  AnnouncesHuge bytes ∨ ∃ request ∈ asked bytes, ∃ clock, request.panics build clock = true

/-- In a release build the handlers do not panic. -/
theorem kills_release {bytes : Bytes} : Kills .release bytes ↔ AnnouncesHuge bytes := by
  constructor
  · rintro (hannounces | ⟨request, -, clock, hpanics⟩)
    · exact hannounces
    · rw [not_panics_release] at hpanics
      cases hpanics
  · exact .inl

section Asked

variable {bytes tail : Bytes} {reader reader' : Reader} {requests todo : List Request}

theorem Reader.last_spec (bytes : Bytes) :
    Reaches Reader.next (.start bytes) (Reader.last bytes) ∧ (Reader.last bytes).next = none := by
  have hless : ∀ r r' : Reader, r.next = some r' → r'.input.length < r.input.length :=
    Reader.length_next_lt
  have hlast : Reader.last bytes ∈ StateTransition.eval Reader.next (.start bytes) :=
    Paths.finish_mem_eval hless (Nat.le_refl _)
  exact mem_eval.mp hlast

/-- What the parser has granted on its way is the first of what it finds. -/
theorem granted_asked (h : Reaches Reader.next (.start bytes) reader) :
    reader.granted <+: asked bytes := by
  have hless : ∀ r r' : Reader, r.next = some r' → r'.input.length < r.input.length :=
    Reader.length_next_lt
  exact Reader.granted_reaches (Paths.reaches_finish hless (Nat.le_refl _) h)

/-- The reader is inside the encoding of `requests`, of which `tail` has not been sent and `todo`
not been granted. -/
structure Reader.Inside (requests : List Request) (tail : Bytes) (todo : List Request)
    (reader : Reader) : Prop where
  split : requests = reader.granted ++ todo
  place : Place reader.phase reader.terms reader.expectedTerms todo (reader.input ++ tail)

theorem Reader.Inside.next (h : reader.Inside requests tail todo)
    (hnext : reader.next = some reader') : ∃ todo', reader'.Inside requests tail todo' := by
  have hplace := h.place
  rw [← reader.window_virtue] at hplace
  obtain ⟨n, phase, expectedTerms, terms, granted, todo', hmove, hsplit, hplace'⟩ | hhalts :=
    @move_within reader.virtue todo tail hplace
  · rw [Reader.next_consume hmove] at hnext
    cases hnext
    refine ⟨todo', ?_, ?_⟩
    · rw [h.split, hsplit, List.append_assoc]
    · rwa [reader.window_virtue] at hplace'
  · obtain hstop | hmore | ⟨sin, hrefuse⟩ := hhalts
    · rw [Reader.next_needsMore (.inl hstop)] at hnext
      cases hnext
    · rw [Reader.next_needsMore (.inr hmore)] at hnext
      cases hnext
    · rw [Reader.next_refuse hrefuse] at hnext
      cases hnext

/-- On initial bytes of an encoding the reader stays inside. -/
theorem inside_of_reaches (hbytes : bytes ++ tail = encodeAll requests)
    (h : Reaches Reader.next (.start bytes) reader) :
    ∃ todo, reader.Inside requests tail todo := by
  refine Paths.keeps (I := fun reader : Reader => ∃ todo, reader.Inside requests tail todo) ?_ h ?_
  · rintro reader reader' ⟨todo, hinside⟩ hnext
    exact hinside.next hnext
  · refine ⟨requests, rfl, ?_⟩
    rw [Reader.start, hbytes]
    exact .idle 0 requests

theorem asked_initial (h : bytes <+: encodeAll requests) : asked bytes <+: requests := by
  obtain ⟨tail, hbytes⟩ := h
  obtain ⟨todo, hinside⟩ := inside_of_reaches hbytes (Reader.last_spec bytes).1
  rw [hinside.split]
  exact List.prefix_append _ _

/-- **Requests that fit are found in their encoding.** -/
theorem asked_encodeAll (hfits : ∀ request ∈ requests, request.Fits) :
    asked (encodeAll requests) = requests := by
  obtain ⟨hreaches, hstop⟩ := Reader.last_spec (encodeAll requests)
  obtain ⟨todo, hsplit, hplace⟩ := inside_of_reaches (List.append_nil _) hreaches
  rw [← Reader.window_virtue] at hplace
  have htodo : ∀ request ∈ todo, request.Fits := by
    intro request hrequest
    apply hfits
    rw [hsplit]
    exact List.mem_append_right _ hrequest
  obtain ⟨n, phase, expectedTerms, terms, granted, todo', hmove, -⟩ | ⟨-, -, hincomplete⟩ :=
    @move_place (Reader.last (encodeAll requests)).virtue todo [] hplace htodo
  · rw [Reader.next_consume hmove] at hstop
    cases hstop
  · cases todo with
    | nil => exact (hsplit.trans (List.append_nil _)).symm
    | cons request todo => exact absurd (hincomplete request todo rfl) (Nat.not_lt_zero _)

/-- Requests that fit announce no such length. -/
theorem not_announcesHuge (hfits : ∀ request ∈ requests, request.Fits)
    (h : bytes <+: encodeAll requests) : ¬ AnnouncesHuge bytes := by
  rintro ⟨reader, hreaches, len, hphase, hlen, -⟩
  obtain ⟨tail, hbytes⟩ := h
  obtain ⟨todo, hsplit, hplace⟩ := inside_of_reaches hbytes hreaches
  have hphase' : reader.phase = .awaitingBulkString len := hphase
  rw [hphase'] at hplace
  generalize reader.input ++ tail = rest at hplace
  generalize reader.terms = terms at hplace
  generalize reader.expectedTerms = expectedTerms at hplace
  cases hplace with
  | bulkString done term rest hne todo =>
      have hmem : (⟨terms ++ term :: rest, hne⟩ : Request) ∈ requests := by
        rw [hsplit]
        exact List.mem_append_right _ List.mem_cons_self
      have hterm := (hfits _ hmem).2 term (by simp)
      omega

end Asked

/-! ### The worker -/

theorem announcesHuge_of_overlong {bytes : Bytes} {worker : Worker}
    (h : Reaches Reader.next (.start bytes) worker.reader) (hlong : worker.virtue.Overlong) :
    AnnouncesHuge bytes := by
  obtain ⟨len, hphase, hlen, hwindow⟩ := hlong
  refine ⟨worker.reader, h, len, hphase, hlen, ?_⟩
  rw [Reader.window_virtue, Worker.reader]
  exact List.append_ne_nil_of_left_ne_nil hwindow _

/-- **Only streams in which such a length is announced make a worker panic.** -/
theorem calls_ok_of_not_announces (build : Build) {stream : TcpStream}
    (h : ¬ AnnouncesHuge stream.payload) (n : ℕ) :
    ∃ out, calls build (.new stream) n = some (.ok out) := by
  refine calls_ok build (fun head hhead hlong => ?_) n
  exact h (announcesHuge_of_overlong (onPath_of_atLoop hhead).reaches hlong)

/-- The worker is on the path of the parser. -/
structure Parses (bytes : Bytes) (worker : Worker) : Prop where
  wf : worker.virtue.WellFormed
  reaches : Reaches Reader.next (.start bytes) worker.reader

section Parses

variable {bytes : Bytes} {worker worker' : Worker} {jump : WishJump} (build : Build)

theorem parses_new (stream : TcpStream) : Parses stream.payload (Pilgrim.new stream).worker :=
  ⟨Virtue.wellFormed_new, .refl⟩

theorem Parses.readMore (h : Parses bytes worker)
    (hread : Heaven.readMore build worker = .ok (worker', jump)) : Parses bytes worker' := by
  refine ⟨(readMore_keeps build h.wf hread).1, ?_⟩
  rw [readMore_reader build h.wf hread]
  exact h.reaches

theorem Parses.pass (h : Parses bytes worker)
    (hpass : Heaven.pass build worker = .ok (worker', jump)) : Parses bytes worker' := by
  have hwf := (pass_keeps build h.wf hpass).1
  cases pass_step build h.wf hpass with
  | stop hmove => exact h
  | refuse hmove => exact h
  | consume hmove hwindow hreader hstream => exact ⟨hwf, h.reaches.tail hreader⟩
  | more hmove hread => exact h.readMore build hread
  | skip hmove hskipped hskips hreader hread =>
      have hbehind : Parses bytes (worker.skip 1) := ⟨hskipped, h.reaches.tail hreader⟩
      exact hbehind.readMore build hread

theorem Parses.announces (h : Parses bytes worker) (hlong : worker.virtue.Overlong) :
    AnnouncesHuge bytes :=
  announcesHuge_of_overlong h.reaches hlong

/-- The discipline of any connection at all. -/
def Discipline.parses (bytes : Bytes) : Discipline build (asked bytes) where
  rest := Parses bytes
  loop := Parses bytes
  mayFail := True
  readMore_ok := fun _ _ => .inl trivial
  pass_ok := fun _ _ => .inl trivial
  rest_granted := fun _ h => granted_asked h.reaches
  loop_granted := fun _ h => granted_asked h.reaches
  readMore := by
    intro worker worker' jump h hread
    refine ⟨readMore_granted build h.wf hread, ?_⟩
    have hparses := h.readMore build hread
    rcases jump with _ | ⟨_ | _⟩
    · exact hparses
    · trivial
    · exact hparses
  pass := by
    intro worker worker' jump h hpass
    have hparses := h.pass build hpass
    refine ⟨⟨pass_granted build h.wf hpass, granted_asked hparses.reaches⟩, ?_⟩
    rcases jump with _ | ⟨_ | _⟩
    · exact hparses
    · trivial
    · exact hparses

end Parses

/-! ### The server -/

namespace Server

variable {build : Build} {streams : Token → TcpStream} {s : Server} {token : Token}

/-- **The temple executes for a client an initial part of what it asks for.** -/
theorem Sound.executed_asked (h : s.Sound build streams) (token : Token) :
    ∃ done, done <+: asked (streams token).payload ∧ Prayed token done (s.executedBy token) := by
  obtain ⟨life, hreached, hlife⟩ := h.lives token
  have hkept : life.Kept (Discipline.parses build (streams token).payload) token :=
    hreached.kept (parses_new _)
  obtain ⟨sent, hsent, hprayed⟩ := hkept.account
  rw [← hlife.sent] at hprayed
  obtain ⟨done, hdone, hexecuted⟩ := hprayed.initial (s.executedBy_initial token)
  exact ⟨done, hdone.trans hsent, hexecuted⟩

/-- A song keeps any discipline that its client has begun with. -/
theorem Sound.singing_of (h : s.Sound build streams) {requests : List Request}
    (D : Discipline build requests) {before after : List Angel} {song : Song}
    (hangels : s.angels = before ++ .singing song :: after)
    (hnew : D.rest (Pilgrim.new (streams song.token)).worker) :
    ∃ sent, Singing D song.token sent song := by
  obtain ⟨life, hreached, hlife⟩ := h.lives song.token
  have hmoves := moves_angel .idle hangels fun _ _ => rfl
  obtain ⟨hspot, -⟩ := hmoves.of_toList hlife.spot
  exact ⟨life.sent, (hreached.kept hnew).fits _ hspot⟩

/-- **A song panics only on a length that its client announces**, or on a deadline that it asks
for. -/
theorem Sound.kills_of_panic (h : s.Sound build streams) {before after : List Angel}
    {stage : Stage} {clock : SystemTime} {panic : Panic}
    (hangels : s.angels = before ++ .singing ⟨token, stage, []⟩ :: after)
    (hpanic : Song.advance build clock ⟨token, stage, []⟩ = .error panic) :
    Kills build (streams token).payload := by
  obtain ⟨sent, hsinging⟩ := h.singing_of (Discipline.parses build (streams token).payload)
    hangels (parses_new _)
  cases stage with
  | entry pilgrim =>
      have hrest : Parses (streams token).payload pilgrim.worker := hsinging.stage
      obtain ⟨worker, jump, hread, -⟩ := readMore_spec build hrest.wf
      simp only [Song.advance, hread] at hpanic
      cases hpanic
  | loop worker =>
      have hloop : Parses (streams token).payload worker := hsinging.stage
      obtain hfailed | ⟨worker', jump, hpass, request, hrequest, hpanics⟩ := advance_panic hpanic
      · left
        apply hloop.announces
        by_contra hshort
        obtain ⟨out, hpass⟩ := (pass_ok_iff build hloop.wf).mpr hshort
        rw [hpass] at hfailed
        cases hfailed
      · have hgranted := granted_asked (hloop.pass build hpass).reaches
        exact .inr ⟨request, hgranted.subset hrequest, clock, hpanics⟩
  | exit pilgrim result => cases hpanic

end Server
end Heaven
