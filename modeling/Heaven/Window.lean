import Heaven.Wish

/-! # The window of a connection

What the buffer of `wish` stands for: the bytes that have been read and not consumed, its
`window`.  In a well-formed buffer the two indices are ordered and inside the backlog, whose
length is 4096 doubled at most fourteen times.

`compact_spec` and `potentiallyResize_spec` say that the window survives every move of the
buffer, and `potentiallyResizeAndRead_spec` that a read appends to it; none of them can panic.
`move` is the parser on a window, without a buffer, and `pass_eq` says that a pass of the loop
makes exactly this move, unless it adds 2 to an announced length that is too large for it. -/

namespace Heaven

open Loops (Jump)

/-! ### Arithmetic and slices in range -/

theorem addUsize_of_lt (build : Build) {a b : ℕ} (h : a + b < 2 ^ 64) :
    addUsize build a b = .ok (a + b) := if_pos h

theorem subUsize_of_le (build : Build) {a b : ℕ} (h : b ≤ a) :
    subUsize build a b = .ok (a - b) := if_pos h

theorem slice_of_le {bytes : Bytes} {start stop : ℕ} (h : start ≤ stop)
    (h' : stop ≤ bytes.length) : slice bytes start stop = .ok ((bytes.take stop).drop start) :=
  if_pos ⟨h, h'⟩

theorem index_of_lt {bytes : Bytes} {i : ℕ} (h : i < bytes.length) :
    index bytes i = .ok bytes[i] := by
  rw [index, List.getElem?_eq_getElem h]

theorem index_of_le {bytes : Bytes} {i : ℕ} (h : bytes.length ≤ i) :
    index bytes i = .error .indexOutOfBounds := by
  rw [index, List.getElem?_eq_none h]

/-! ### Reads of the socket -/

namespace TcpStream

/-- A read into a buffer with room takes a nonempty piece of the payload, or none. -/
theorem read_spec {room : ℕ} (hroom : 0 < room) (stream : TcpStream) :
    (∃ bytes later, stream.read room = (.ok bytes, later) ∧ bytes ≠ [] ∧ bytes.length ≤ room ∧
        stream.payload = bytes ++ later.payload ∧ (Open stream → Open later)) ∨
      (∃ later, stream.read room = (.wouldBlock, later) ∧ stream.payload = later.payload ∧
        (Open stream → Open later)) ∨
      (∃ later, (stream.read room = (.ok [], later) ∨ stream.read room = (.failed, later)) ∧
        ¬ stream.Open) := by
  cases stream with
  | nil => exact .inr (.inl ⟨[], rfl, rfl, id⟩)
  | cons arrival later =>
      have htail : Open (arrival :: later) → Open later := by
        intro h a ha
        exact h a (List.mem_cons_of_mem _ ha)
      cases arrival with
      | wouldBlock => exact .inr (.inl ⟨later, rfl, rfl, htail⟩)
      | closed =>
          refine .inr (.inr ⟨later, .inl rfl, ?_⟩)
          intro h
          exact (h _ List.mem_cons_self).1 rfl
      | failed =>
          refine .inr (.inr ⟨later, .inr rfl, ?_⟩)
          intro h
          exact (h _ List.mem_cons_self).2 rfl
      | data first rest =>
          left
          rw [read]
          cases hdrop : (first :: rest).drop room with
          | nil =>
              have hle : (first :: rest).length ≤ room := List.drop_eq_nil_iff.mp hdrop
              exact ⟨first :: rest, later, rfl, List.cons_ne_nil _ _, hle, rfl, htail⟩
          | cons next rest' =>
              have hsplit : first :: rest = (first :: rest).take room ++ next :: rest' := by
                rw [← hdrop, List.take_append_drop]
              refine ⟨(first :: rest).take room, .data next rest' :: later, rfl, ?_,
                List.length_take_le _ _, ?_, ?_⟩
              · intro hnil
                have hzero := List.take_eq_nil_iff.mp hnil
                simp only [reduceCtorEq, or_false] at hzero
                omega
              · rw [payload, payload, ← List.append_assoc, ← hsplit]
              · intro hopen
                refine List.forall_mem_cons.mpr ⟨?_, htail hopen⟩
                exact ⟨(nomatch ·), (nomatch ·)⟩

end TcpStream

/-! ### The buffer -/

namespace Virtue

/-- The bytes that have been read and not consumed. -/
def window (virtue : Virtue) : Bytes := (virtue.backlog.take virtue.writeIdx).drop virtue.readIdx

structure WellFormed (virtue : Virtue) : Prop where
  ordered : virtue.readIdx ≤ virtue.writeIdx
  inside : virtue.writeIdx ≤ virtue.backlog.length
  size : ∃ k ≤ 14, virtue.backlog.length = 4096 * 2 ^ k
  len_lt : ∀ len, virtue.phase = .awaitingBulkString len → len < 2 ^ 64

/-- The two buffers belong to the same place in a request. -/
structure SamePlace (virtue virtue' : Virtue) : Prop where
  phase : virtue'.phase = virtue.phase
  terms : virtue'.terms = virtue.terms
  expectedTerms : virtue'.expectedTerms = virtue.expectedTerms

theorem wellFormed_new : new.WellFormed where
  ordered := Nat.le_refl 0
  inside := Nat.zero_le _
  size := ⟨0, by omega, List.length_replicate⟩
  len_lt := fun _ h => nomatch h

theorem WellFormed.le_length {virtue : Virtue} (h : virtue.WellFormed) :
    4096 ≤ virtue.backlog.length ∧ virtue.backlog.length ≤ 64 * 1024 * 1024 := by
  obtain ⟨k, hk, hlen⟩ := h.size
  have hpos : 1 ≤ 2 ^ k := Nat.one_le_two_pow
  have hle : 2 ^ k ≤ 2 ^ 14 := Nat.pow_le_pow_right (by omega) hk
  omega

theorem WellFormed.length_window {virtue : Virtue} (h : virtue.WellFormed) :
    virtue.window.length = virtue.writeIdx - virtue.readIdx := by
  rw [window, List.length_drop, List.length_take, Nat.min_eq_left h.inside]

theorem WellFormed.slice_window {virtue : Virtue} (h : virtue.WellFormed) :
    slice virtue.backlog virtue.readIdx virtue.writeIdx = .ok virtue.window :=
  slice_of_le h.ordered h.inside

/-- Consuming bytes of the window. -/
theorem WellFormed.consume {virtue : Virtue} (h : virtue.WellFormed) {n : ℕ}
    (hn : n ≤ virtue.window.length) {phase : Phase}
    (hphase : ∀ len, phase = .awaitingBulkString len → len < 2 ^ 64) (expectedTerms : ℕ)
    (terms : List Bytes) :
    ({ virtue with readIdx := virtue.readIdx + n, phase, expectedTerms, terms } :
      Virtue).WellFormed := by
  rw [h.length_window] at hn
  have hordered : virtue.readIdx + n ≤ virtue.writeIdx := by
    have hle := h.ordered
    omega
  exact ⟨hordered, h.inside, h.size, hphase⟩

theorem window_consume (virtue : Virtue) (n : ℕ) :
    ({ virtue with readIdx := virtue.readIdx + n } : Virtue).window = virtue.window.drop n := by
  rw [window, window, List.drop_drop]

theorem compact_spec (build : Build) {virtue : Virtue} (h : virtue.WellFormed) :
    ∃ virtue', virtue.compact build = .ok virtue' ∧ virtue'.WellFormed ∧
      virtue'.window = virtue.window ∧ virtue.SamePlace virtue' ∧
      virtue'.writeIdx = virtue.window.length ∧
      virtue'.backlog.length = virtue.backlog.length := by
  have hlen := h.length_window
  have hordered := h.ordered
  have hinside := h.inside
  unfold compact
  by_cases hpos : virtue.readIdx > 0
  · rw [if_pos hpos, subUsize_of_le build h.ordered, copyWithin, h.slice_window]
    refine ⟨_, rfl, ?_, ?_, ⟨rfl, rfl, rfl⟩, hlen.symm, ?_⟩
    · refine ⟨Nat.zero_le _, ?_, ?_, h.len_lt⟩
      · simp only [List.take_zero, List.nil_append, List.length_append, List.length_drop]
        omega
      · obtain ⟨k, hk, hsize⟩ := h.size
        refine ⟨k, hk, ?_⟩
        simp only [List.take_zero, List.nil_append, List.length_append, List.length_drop]
        omega
    · rw [window]
      simp only [List.take_zero, List.nil_append, List.drop_zero, ← hlen]
      exact List.take_left' rfl
    · simp only [List.take_zero, List.nil_append, List.length_append, List.length_drop]
      omega
  · refine ⟨virtue, if_neg hpos, h, rfl, ⟨rfl, rfl, rfl⟩, ?_, rfl⟩
    omega

theorem resize_spec {virtue : Virtue} (h : virtue.WellFormed)
    (hsize : virtue.backlog.length * 2 ≤ 64 * 1024 * 1024) :
    ({ virtue with backlog := resize virtue.backlog (virtue.backlog.length * 2) } :
        Virtue).WellFormed ∧
      ({ virtue with backlog := resize virtue.backlog (virtue.backlog.length * 2) } :
        Virtue).window = virtue.window := by
  have hresize : resize virtue.backlog (virtue.backlog.length * 2) =
      virtue.backlog ++ List.replicate virtue.backlog.length 0 := by
    rw [resize, List.take_of_length_le (by omega)]
    congr 2
    omega
  rw [hresize]
  constructor
  · obtain ⟨k, hk, hlen⟩ := h.size
    have hinside := h.inside
    have hk' : k + 1 ≤ 14 := by
      by_contra hk'
      have hmax : k = 14 := by omega
      subst hmax
      omega
    refine ⟨h.ordered, ?_, ⟨k + 1, hk', ?_⟩, h.len_lt⟩
    · simp only [List.length_append]
      omega
    · simp only [List.length_append, List.length_replicate, pow_succ]
      omega
  · rw [window, window]
    congr 1
    exact List.take_append_of_le_length h.inside

/-- There is room for 1024 bytes afterwards, or the window is too large for any buffer. -/
theorem potentiallyResize_spec (build : Build) {virtue : Virtue} (h : virtue.WellFormed) :
    (∃ virtue', virtue.potentiallyResize build = .ok (.ok virtue') ∧ virtue'.WellFormed ∧
        virtue'.window = virtue.window ∧ virtue.SamePlace virtue' ∧
        virtue'.writeIdx + 1024 ≤ virtue'.backlog.length) ∨
      (virtue.potentiallyResize build = .ok (.error .blasphemy) ∧
        64 * 1024 * 1024 - 1024 < virtue.window.length) := by
  obtain ⟨hle, hle'⟩ := h.le_length
  have hsub : subUsize build virtue.backlog.length 1024 = .ok (virtue.backlog.length - 1024) :=
    subUsize_of_le build (by omega)
  obtain ⟨compacted, hcompact, hwf, hwindow, hplace, hwrite, hlength⟩ := compact_spec build h
  have hsub' : subUsize build compacted.backlog.length 1024 =
      .ok (virtue.backlog.length - 1024) := by rw [hlength, hsub]
  unfold potentiallyResize
  rw [hsub]
  dsimp only [bind, Except.bind]
  by_cases hfull : virtue.writeIdx > virtue.backlog.length - 1024
  · rw [if_pos hfull, hcompact]
    dsimp only
    rw [hsub']
    dsimp only
    by_cases hfull' : compacted.writeIdx > virtue.backlog.length - 1024
    · rw [if_pos hfull', hlength]
      by_cases hmax : virtue.backlog.length * 2 > 64 * 1024 * 1024
      · rw [if_pos hmax]
        refine .inr ⟨rfl, ?_⟩
        -- past half of the largest size there is only the largest size
        obtain ⟨k, hk, hsize⟩ := h.size
        have hlargest : k = 14 := by
          by_contra hne
          have hk' : k ≤ 13 := by omega
          have hpow : 2 ^ k ≤ 2 ^ 13 := Nat.pow_le_pow_right (by omega) hk'
          omega
        rw [hlargest] at hsize
        rw [hwrite, hsize] at hfull'
        exact hfull'
      · rw [if_neg hmax]
        obtain ⟨hwf', hwindow'⟩ := resize_spec hwf (by omega)
        rw [hlength] at hwf' hwindow'
        refine .inl ⟨_, rfl, hwf', hwindow'.trans hwindow,
          ⟨hplace.phase, hplace.terms, hplace.expectedTerms⟩, ?_⟩
        have hinside := hwf.inside
        simp only [resize, List.length_append, List.length_take, List.length_replicate, hlength]
        omega
    · rw [if_neg hfull']
      exact .inl ⟨compacted, rfl, hwf, hwindow, hplace, by omega⟩
  · rw [if_neg hfull]
    exact .inl ⟨virtue, rfl, h, rfl, ⟨rfl, rfl, rfl⟩, by omega⟩

/-- What a read does to a buffer and the socket. -/
inductive ReadStep (virtue : Virtue) (stream : TcpStream) :
    Except Sin (Virtue × TcpStream × Bool) → Prop
  | full (h : 64 * 1024 * 1024 - 1024 < virtue.window.length) :
      ReadStep virtue stream (.error .blasphemy)
  | lost (h : ¬ stream.Open) : ReadStep virtue stream (.error .disconnected)
  | blocked {virtue' : Virtue} {stream' : TcpStream} (wf : virtue'.WellFormed)
      (place : virtue.SamePlace virtue') (window : virtue'.window = virtue.window)
      (payload : stream.payload = stream'.payload) (stays : stream.Open → stream'.Open) :
      ReadStep virtue stream (.ok (virtue', stream', true))
  | filled {virtue' : Virtue} {stream' : TcpStream} (bytes : Bytes) (wf : virtue'.WellFormed)
      (place : virtue.SamePlace virtue') (nonempty : bytes ≠ [])
      (window : virtue'.window = virtue.window ++ bytes)
      (payload : stream.payload = bytes ++ stream'.payload)
      (stays : stream.Open → stream'.Open) :
      ReadStep virtue stream (.ok (virtue', stream', false))

/-- Writing behind the window. -/
theorem fill_spec {virtue : Virtue} (h : virtue.WellFormed) (bytes : Bytes)
    (hroom : virtue.writeIdx + bytes.length ≤ virtue.backlog.length) :
    let virtue' : Virtue := { virtue with
      backlog := virtue.backlog.take virtue.writeIdx ++ bytes ++
        virtue.backlog.drop (virtue.writeIdx + bytes.length)
      writeIdx := virtue.writeIdx + bytes.length }
    virtue'.WellFormed ∧ virtue'.window = virtue.window ++ bytes := by
  have hordered := h.ordered
  have htake : (virtue.backlog.take virtue.writeIdx).length = virtue.writeIdx := by
    rw [List.length_take, Nat.min_eq_left h.inside]
  have hlength : (virtue.backlog.take virtue.writeIdx ++ bytes ++
      virtue.backlog.drop (virtue.writeIdx + bytes.length)).length = virtue.backlog.length := by
    rw [List.length_append, List.length_append, List.length_drop, htake]
    omega
  have hwritten : (virtue.backlog.take virtue.writeIdx ++ bytes).length =
      virtue.writeIdx + bytes.length := by
    rw [List.length_append, htake]
  have hread : virtue.readIdx ≤ (virtue.backlog.take virtue.writeIdx).length := by omega
  refine ⟨⟨?_, ?_, ?_, h.len_lt⟩, ?_⟩
  · dsimp only
    omega
  · dsimp only
    omega
  · obtain ⟨k, hk, hsize⟩ := h.size
    exact ⟨k, hk, hlength.trans hsize⟩
  · rw [window, window]
    dsimp only
    rw [List.take_left' hwritten, List.drop_append_of_le_length hread]

theorem potentiallyResizeAndRead_spec (build : Build) {virtue : Virtue} (h : virtue.WellFormed)
    (stream : TcpStream) :
    ∃ result, virtue.potentiallyResizeAndRead build stream = .ok result ∧
      ReadStep virtue stream result := by
  unfold potentiallyResizeAndRead
  obtain ⟨roomy, hresize, hwf, hwindow, hplace, hroom⟩ | ⟨hresize, hfull⟩ :=
    potentiallyResize_spec build h
  · obtain ⟨-, hle⟩ := hwf.le_length
    rw [hresize]
    dsimp only [bind, Except.bind]
    rw [slice_of_le hwf.inside (Nat.le_refl _), List.take_length]
    dsimp only
    have hpos : 0 < (roomy.backlog.drop roomy.writeIdx).length := by
      rw [List.length_drop]
      omega
    obtain ⟨bytes, later, hread, hne, hlen, hpayload, hopen⟩ | ⟨later, hread, hpayload, hopen⟩ |
      ⟨later, hread | hread, hclosed⟩ := stream.read_spec hpos
    · rw [hread]
      rw [List.length_drop] at hlen
      have hfit : roomy.writeIdx + bytes.length ≤ roomy.backlog.length := by omega
      obtain ⟨hwf', hwindow'⟩ := fill_spec hwf bytes hfit
      cases bytes with
      | nil => exact absurd rfl hne
      | cons b rest =>
          have hlt : roomy.writeIdx + (b :: rest).length < 2 ^ 64 := by omega
          dsimp only
          rw [addUsize_of_lt build hlt]
          refine ⟨_, rfl, .filled (b :: rest) hwf' ?_ hne (hwindow ▸ hwindow') hpayload hopen⟩
          exact ⟨hplace.phase, hplace.terms, hplace.expectedTerms⟩
    · rw [hread]
      exact ⟨_, rfl, .blocked hwf hplace hwindow hpayload hopen⟩
    · rw [hread]
      exact ⟨_, rfl, .lost hclosed⟩
    · rw [hread]
      exact ⟨_, rfl, .lost hclosed⟩
  · rw [hresize]
    exact ⟨_, rfl, .full hfull⟩

end Virtue

/-- What `readMore` does on a well-formed buffer, by the outcome of the read. -/
inductive ReadMoreStep (worker : Worker) : Worker → WishJump → Prop
  | failed {sin : Sin}
      (full : worker.stream.Open → 64 * 1024 * 1024 - 1024 < worker.virtue.window.length) :
      ReadMoreStep worker worker (.leave (.error sin))
  | blocked {virtue : Virtue} {stream : TcpStream} (wf : virtue.WellFormed)
      (same : worker.virtue.SamePlace virtue) (window : virtue.window = worker.virtue.window)
      (payload : worker.stream.payload = stream.payload)
      (stays : worker.stream.Open → stream.Open) :
      ReadMoreStep worker ⟨virtue, stream, worker.granted⟩ (.leave (.ok ()))
  | received {virtue : Virtue} {stream : TcpStream} (bytes : Bytes) (wf : virtue.WellFormed)
      (same : worker.virtue.SamePlace virtue) (nonempty : bytes ≠ [])
      (window : virtue.window = worker.virtue.window ++ bytes)
      (payload : worker.stream.payload = bytes ++ stream.payload)
      (stays : worker.stream.Open → stream.Open) :
      ReadMoreStep worker ⟨virtue, stream, worker.granted⟩ .again

/-- `readMore` never panics on a well-formed buffer. -/
theorem readMore_spec (build : Build) {worker : Worker} (h : worker.virtue.WellFormed) :
    ∃ worker' jump, readMore build worker = .ok (worker', jump) ∧
      ReadMoreStep worker worker' jump := by
  obtain ⟨result, hread, hstep⟩ := Virtue.potentiallyResizeAndRead_spec build h worker.stream
  unfold readMore
  rw [hread]
  cases hstep with
  | full hfull => exact ⟨_, _, rfl, .failed fun _ => hfull⟩
  | lost hlost => exact ⟨_, _, rfl, .failed fun hopen => absurd hopen hlost⟩
  | blocked wf same window payload stays =>
      exact ⟨_, _, rfl, .blocked wf same window payload stays⟩
  | filled bytes wf same nonempty window payload stays =>
      exact ⟨_, _, rfl, .received bytes wf same nonempty window payload stays⟩

/-- All that `readMore` can have done. -/
theorem readMore_step {build : Build} {worker worker' : Worker} {jump : WishJump}
    (hwf : worker.virtue.WellFormed) (h : readMore build worker = .ok (worker', jump)) :
    ReadMoreStep worker worker' jump := by
  obtain ⟨after, jump', hread, hstep⟩ := readMore_spec build hwf
  rw [hread] at h
  cases h
  exact hstep

/-! ### Moves -/

/-- What a pass of the loop does to the window: it stops, refuses the input, consumes bytes (and
perhaps grants a request), or skips bytes and reads. -/
inductive Move where
  | stop
  | refuse (sin : Sin)
  | consume (n : ℕ) (phase : Phase) (expectedTerms : ℕ) (terms : List Bytes)
      (granted : List Request)
  | more (n : ℕ)

namespace Virtue

/-- The term of length `len` and its CRLF are in the window. -/
def takeTerm (virtue : Virtue) (len : ℕ) : Move :=
  if virtue.window.length < len + 2 then .more 0
  else if (virtue.window.drop len).take 2 ≠ [13, 10] then .refuse .blasphemy
  else
    let terms := virtue.terms ++ [virtue.window.take len]
    if terms.length = virtue.expectedTerms then
      .consume (len + 2) .idle virtue.expectedTerms []
        [⟨terms, List.append_ne_nil_of_right_ne_nil _ (List.cons_ne_nil _ _)⟩]
    else .consume (len + 2) .graspingMarker virtue.expectedTerms terms []

/-- A line with a number is in the window. -/
def takeNumber (virtue : Virtue) (next : ℕ → ℕ → Move) : Move :=
  match findCrlf virtue.window with
  | none => .more 0
  | some i =>
      match bytesToUsize (virtue.window.take i) with
      | .error sin => .refuse sin
      | .ok number => next (i + 2) number

/-- The parser, on a window. -/
def move (virtue : Virtue) : Move :=
  match virtue.window with
  | [] => .stop
  | first :: _ =>
      match virtue.phase with
      | .idle =>
          if first = 42 then
            .consume 1 .awaitingTermCount virtue.expectedTerms virtue.terms []
          else .refuse .blasphemy
      | .awaitingTermCount => virtue.takeNumber fun n number =>
          .consume n (if number = 0 then .idle else .graspingMarker) number virtue.terms []
      | .graspingMarker =>
          if first = 36 then
            .consume 1 .awaitingBulkStringLength virtue.expectedTerms virtue.terms []
          else .more 1
      | .awaitingBulkStringLength => virtue.takeNumber fun n number =>
          .consume n (.awaitingBulkString number) virtue.expectedTerms virtue.terms []
      | .awaitingBulkString len => virtue.takeTerm len

/-- The announced length is so large that adding 2 overflows, and there is a byte to look at. -/
def Overlong (virtue : Virtue) : Prop :=
  ∃ len, virtue.phase = .awaitingBulkString len ∧ 2 ^ 64 ≤ len + 2 ∧ virtue.window ≠ []

end Virtue

namespace Worker

def skip (worker : Worker) (n : ℕ) : Worker :=
  { worker with virtue := { worker.virtue with readIdx := worker.virtue.readIdx + n } }

theorem skip_window (worker : Worker) (n : ℕ) :
    (worker.skip n).virtue.window = worker.virtue.window.drop n :=
  worker.virtue.window_consume n

theorem skip_wellFormed {worker : Worker} (h : worker.virtue.WellFormed) {n : ℕ}
    (hn : n ≤ worker.virtue.window.length) : (worker.skip n).virtue.WellFormed :=
  h.consume hn h.len_lt worker.virtue.expectedTerms worker.virtue.terms

/-- Carry out a move. -/
def make (build : Build) (worker : Worker) : Move → Except Panic (Worker × WishJump)
  | .stop => .ok (worker, .leave (.ok ()))
  | .refuse sin => .ok (worker, .leave (.error sin))
  | .consume n phase expectedTerms terms granted =>
      .ok ({ worker with
        virtue := { worker.virtue with
          readIdx := worker.virtue.readIdx + n, phase, expectedTerms, terms }
        granted := worker.granted ++ granted }, .again)
  | .more n => readMore build (worker.skip n)

end Worker

theorem slice_zero {bytes : Bytes} {i : ℕ} (h : i ≤ bytes.length) :
    slice bytes 0 i = .ok (bytes.take i) := by
  rw [slice_of_le (Nat.zero_le i) h, List.drop_zero]

/-- The two bytes behind a term are compared with CRLF. -/
theorem lacksCrlf_eq (build : Build) {window : Bytes} {len : ℕ} (h : len + 2 ≤ window.length)
    (hlen : len + 2 < 2 ^ 64) :
    Phase.lacksCrlf build window len = .ok (decide ((window.drop len).take 2 ≠ [13, 10])) := by
  have hfirst : len < window.length := by omega
  have hsecond : len + 1 < window.length := by omega
  have hnext : len + 1 < 2 ^ 64 := by omega
  have hdrop : (window.drop len).take 2 = [window[len], window[len + 1]] := by
    rw [List.drop_eq_getElem_cons hfirst, List.drop_eq_getElem_cons hsecond]
    rfl
  unfold Phase.lacksCrlf
  rw [index_of_lt hfirst, addUsize_of_lt build hnext, hdrop]
  dsimp only [bind, Except.bind, pure, Except.pure]
  rw [index_of_lt hsecond]
  by_cases hcr : window[len] = 13
  · by_cases hlf : window[len + 1] = 10 <;> simp [hcr, hlf]
  · simp [hcr]

section Passes

variable {worker : Worker} (build : Build) (hwf : worker.virtue.WellFormed)

include hwf

/-- No index of a well-formed buffer comes near the end of `usize`. -/
theorem addUsize_readIdx {n : ℕ} (hn : n ≤ worker.virtue.window.length) :
    addUsize build worker.virtue.readIdx n = .ok (worker.virtue.readIdx + n) := by
  have hlength := hwf.length_window
  have hordered := hwf.ordered
  have hinside := hwf.inside
  obtain ⟨-, hle⟩ := hwf.le_length
  exact addUsize_of_lt build (by omega)

theorem window_lt : worker.virtue.window.length < 2 ^ 64 := by
  have hlength := hwf.length_window
  have hinside := hwf.inside
  obtain ⟨-, hle⟩ := hwf.le_length
  omega

theorem onIdle_eq {first : UInt8} (hne : 1 ≤ worker.virtue.window.length) :
    Phase.onIdle build worker first = worker.make build
      (if first = 42 then
        .consume 1 .awaitingTermCount worker.virtue.expectedTerms worker.virtue.terms []
      else .refuse .blasphemy) := by
  unfold Phase.onIdle
  dsimp only
  rw [addUsize_readIdx build hwf hne]
  split_ifs
  · simp only [Worker.make, List.append_nil]
    rfl
  · rfl

theorem onGraspingMarker_eq {first : UInt8} (hne : 1 ≤ worker.virtue.window.length) :
    Phase.onGraspingMarker build worker first = worker.make build
      (if first = 36 then
        .consume 1 .awaitingBulkStringLength worker.virtue.expectedTerms worker.virtue.terms []
      else .more 1) := by
  unfold Phase.onGraspingMarker
  dsimp only
  rw [addUsize_readIdx build hwf hne]
  dsimp only [bind, Except.bind]
  split_ifs
  · simp only [Worker.make, List.append_nil]
    rfl
  · rfl

theorem onNumber_eq {set : Virtue → ℕ → Virtue} {next : ℕ → ℕ → Move}
    (hset : ∀ number, (set worker.virtue number).readIdx = worker.virtue.readIdx)
    (hnext : ∀ n number, worker.make build (next n number) =
      .ok ({ worker with
        virtue := { set worker.virtue number with readIdx := worker.virtue.readIdx + n } },
        .again)) :
    Phase.onNumber build worker worker.virtue.window set =
      worker.make build (worker.virtue.takeNumber next) := by
  have hlt := window_lt hwf
  unfold Phase.onNumber Virtue.takeNumber
  cases hline : findCrlf worker.virtue.window with
  | none => rfl
  | some i =>
      have hi := findCrlf_lt hline
      have hinside : i ≤ worker.virtue.window.length := by omega
      have hbehind : i + 2 < 2 ^ 64 := by omega
      dsimp only
      rw [slice_zero hinside]
      dsimp only [bind, Except.bind]
      cases bytesToUsize (worker.virtue.window.take i) with
      | error sin => rfl
      | ok number =>
          dsimp only
          rw [addUsize_of_lt build hbehind]
          dsimp only
          rw [hset, addUsize_readIdx build hwf hi, hnext]
          rfl

theorem onAwaitingBulkString_eq {len : ℕ} (hlen : len + 2 < 2 ^ 64) :
    Phase.onAwaitingBulkString build worker worker.virtue.window len =
      worker.make build (worker.virtue.takeTerm len) := by
  unfold Phase.onAwaitingBulkString Virtue.takeTerm
  rw [addUsize_of_lt build hlen]
  dsimp only [bind, Except.bind]
  by_cases hshort : worker.virtue.window.length < len + 2
  · rw [if_pos hshort, if_neg (by omega)]
    rfl
  · have hge : len + 2 ≤ worker.virtue.window.length := by omega
    have hterm : len ≤ worker.virtue.window.length := by omega
    rw [if_neg hshort, if_pos hge, lacksCrlf_eq build hge hlen]
    dsimp only
    by_cases hcrlf : (worker.virtue.window.drop len).take 2 = [13, 10]
    · rw [if_neg (by simp [hcrlf]), if_neg (by simp [hcrlf]), slice_zero hterm]
      dsimp only
      rw [addUsize_readIdx build hwf hge]
      dsimp only
      split_ifs
      · rfl
      · simp only [Worker.make, List.append_nil]
        rfl
    · rw [if_pos (by simp [hcrlf]), if_pos hcrlf]
      rfl

/-- **A pass of the loop makes the move of the parser.** -/
theorem pass_eq (hshort : ¬ worker.virtue.Overlong) :
    pass build worker = worker.make build worker.virtue.move := by
  unfold pass Virtue.move
  dsimp only
  rw [hwf.slice_window]
  dsimp only [bind, Except.bind]
  cases hwindow : worker.virtue.window with
  | nil => rfl
  | cons first rest =>
      have hne : 1 ≤ worker.virtue.window.length := by
        rw [hwindow]
        simp
      dsimp only
      rw [← hwindow]
      cases hphase : worker.virtue.phase with
      | idle => exact onIdle_eq build hwf hne
      | graspingMarker => exact onGraspingMarker_eq build hwf hne
      | awaitingTermCount =>
          apply onNumber_eq build hwf (fun _ => rfl)
          intro n number
          rw [Worker.make, List.append_nil]
      | awaitingBulkStringLength =>
          apply onNumber_eq build hwf (fun _ => rfl)
          intro n number
          rw [Worker.make, List.append_nil]
      | awaitingBulkString len =>
          apply onAwaitingBulkString_eq build hwf
          by_contra hlen
          have hbyte : worker.virtue.window ≠ [] := List.ne_nil_of_length_pos hne
          exact hshort ⟨len, hphase, by omega, hbyte⟩

/-- An overlong announcement fails in both builds: the addition overflows, or the byte that is
looked up lies far behind the window. -/
theorem pass_overlong (hlong : worker.virtue.Overlong) :
    ∃ panic, pass build worker = .error panic := by
  obtain ⟨len, hphase, hlen, hne⟩ := hlong
  have hlt := window_lt hwf
  have hle : len < 2 ^ 64 := hwf.len_lt len hphase
  have hpass : pass build worker =
      Phase.onAwaitingBulkString build worker worker.virtue.window len := by
    unfold pass
    dsimp only
    rw [hwf.slice_window, hphase]
    cases hwindow : worker.virtue.window with
    | nil => exact absurd hwindow hne
    | cons first rest => rfl
  rw [hpass]
  unfold Phase.onAwaitingBulkString addUsize
  rw [if_neg (by omega)]
  cases build with
  | dev => exact ⟨_, rfl⟩
  | release =>
      have hpos : 0 < worker.virtue.window.length := List.length_pos_iff.mpr hne
      have hwrap : worker.virtue.window.length ≥ wrapU64 (len + 2) := by
        unfold wrapU64
        omega
      have hlook : index worker.virtue.window len = .error .indexOutOfBounds := by
        obtain ⟨-, hmax⟩ := hwf.le_length
        have hlength := hwf.length_window
        have hinside := hwf.inside
        exact index_of_le (by omega)
      dsimp only [bind, Except.bind]
      rw [if_pos hwrap, Phase.lacksCrlf, hlook]
      exact ⟨_, rfl⟩

end Passes

/-! ### What moves keep -/

/-- The move stays inside a window of this length, goes forward when it consumes, and announces
a length below `2 ^ 64`. -/
def Move.Fits (length : ℕ) : Move → Prop
  | .consume n phase _ _ _ =>
      0 < n ∧ n ≤ length ∧ ∀ len, phase = .awaitingBulkString len → len < 2 ^ 64
  | .more n => n ≤ length
  | _ => True

namespace Virtue

/-- Reading a number: there is no line yet, or none with a number, or there is one. -/
theorem takeNumber_elim {virtue : Virtue} {next : ℕ → ℕ → Move} {P : Move → Prop}
    (hmore : P (.more 0)) (hrefuse : ∀ sin, P (.refuse sin))
    (hnext : ∀ n number, 0 < n → n ≤ virtue.window.length → number < 2 ^ 64 →
      P (next n number)) :
    P (virtue.takeNumber next) := by
  unfold takeNumber
  cases hline : findCrlf virtue.window with
  | none => exact hmore
  | some i =>
      dsimp only
      cases hnumber : bytesToUsize (virtue.window.take i) with
      | error sin => exact hrefuse sin
      | ok number =>
          have hle := parseUnsigned_le hnumber
          exact hnext (i + 2) number (by omega) (findCrlf_lt hline) (by omega)

theorem takeNumber_fits {virtue : Virtue} {next : ℕ → ℕ → Move}
    (h : ∀ n number, 0 < n → n ≤ virtue.window.length → number < 2 ^ 64 →
      (next n number).Fits virtue.window.length) :
    (virtue.takeNumber next).Fits virtue.window.length :=
  takeNumber_elim (Nat.zero_le _) (fun _ => trivial) h

theorem takeTerm_fits (virtue : Virtue) (len : ℕ) :
    (virtue.takeTerm len).Fits virtue.window.length := by
  unfold takeTerm
  dsimp only
  split_ifs with hshort
  · exact Nat.zero_le _
  · trivial
  · exact ⟨by omega, by omega, fun _ h => nomatch h⟩
  · exact ⟨by omega, by omega, fun _ h => nomatch h⟩

theorem move_fits (virtue : Virtue) : virtue.move.Fits virtue.window.length := by
  unfold move
  cases hwindow : virtue.window with
  | nil => trivial
  | cons first rest =>
      dsimp only
      have hne : 1 ≤ (first :: rest).length := by simp
      cases virtue.phase with
      | idle =>
          dsimp only
          split_ifs
          · exact ⟨by omega, hne, fun _ h => nomatch h⟩
          · trivial
      | graspingMarker =>
          dsimp only
          split_ifs
          · exact ⟨by omega, hne, fun _ h => nomatch h⟩
          · exact hne
      | awaitingTermCount =>
          rw [← hwindow]
          apply takeNumber_fits
          intro n number hpos hn _
          refine ⟨hpos, hn, ?_⟩
          intro len hlen
          split_ifs at hlen
      | awaitingBulkStringLength =>
          rw [← hwindow]
          apply takeNumber_fits
          intro n number hpos hn hnumber
          refine ⟨hpos, hn, ?_⟩
          intro len hlen
          cases hlen
          exact hnumber
      | awaitingBulkString len =>
          rw [← hwindow]
          exact takeTerm_fits virtue len

end Virtue

end Heaven
