import Heaven.Encoding
import Heaven.WishSafety

/-! # What the largest buffer takes

A term is granted only if it fits into the largest buffer together with its CRLF, so a request with
a larger term is never granted, however its bytes arrive (`grantable_of_calls`).  Nor is one with
`2 ^ 64` terms.

Whether a request that just fits is granted depends on the reads: the buffer has to have 1024 bytes
free at each of them.  But if its bytes come in the right pieces, it is (`exists_granted`): here
each item of the encoding, a marker, a line or a term, comes in blocks of at most 1024 bytes,
of which all but the first are full. -/

namespace Heaven

open Decimal (print)

/-- What some cutting of its bytes gets through the buffer: fewer than `2 ^ 64` terms, and none
that is larger than the largest buffer with its CRLF. -/
def Request.Grantable (request : Request) : Prop :=
  request.val.length < 2 ^ 64 ∧ ∀ term ∈ request.val, term.length + 2 ≤ 64 * 1024 * 1024

instance (request : Request) : Decidable request.Grantable := inferInstanceAs (Decidable (_ ∧ _))

/-! ### Nothing larger is granted -/

/-- The terms that have been collected fit, and their number is that of a `usize`. -/
structure Virtue.Holds (virtue : Virtue) : Prop where
  expectedTerms : virtue.expectedTerms < 2 ^ 64
  terms : ∀ term ∈ virtue.terms, term.length + 2 ≤ 64 * 1024 * 1024

/-- The same of what a move leaves behind. -/
def Move.Holds : Move → Prop
  | .consume _ _ expectedTerms terms granted =>
      expectedTerms < 2 ^ 64 ∧ (∀ term ∈ terms, term.length + 2 ≤ 64 * 1024 * 1024) ∧
        ∀ request ∈ granted, request.Grantable
  | _ => True

namespace Virtue

variable {virtue : Virtue}

theorem WellFormed.length_window_le (h : virtue.WellFormed) :
    virtue.window.length ≤ 64 * 1024 * 1024 := by
  have hlength := h.length_window
  have hinside := h.inside
  obtain ⟨-, hle⟩ := h.le_length
  omega

theorem takeNumber_holds {next : ℕ → ℕ → Move}
    (h : ∀ n number, number < 2 ^ 64 → (next n number).Holds) :
    (virtue.takeNumber next).Holds :=
  takeNumber_elim trivial (fun _ => trivial) fun n number _ _ => h n number

/-- A term is cut out of the window. -/
theorem takeTerm_holds (hwf : virtue.WellFormed) (h : virtue.Holds) (len : ℕ) :
    (virtue.takeTerm len).Holds := by
  have hmax := hwf.length_window_le
  unfold takeTerm
  dsimp only
  split_ifs with hshort hcrlf hlast
  · trivial
  · trivial
  all_goals
    have hterms : ∀ term ∈ virtue.terms ++ [virtue.window.take len],
        term.length + 2 ≤ 64 * 1024 * 1024 := by
      intro term hterm
      obtain hold | hnew := List.mem_append.mp hterm
      · exact h.terms term hold
      · rw [List.mem_singleton.mp hnew, List.length_take]
        omega
  · refine ⟨h.expectedTerms, by simp, ?_⟩
    intro request hrequest
    rw [List.mem_singleton.mp hrequest]
    exact ⟨hlast.trans_lt h.expectedTerms, hterms⟩
  · exact ⟨h.expectedTerms, hterms, by simp⟩

theorem move_holds (hwf : virtue.WellFormed) (h : virtue.Holds) : virtue.move.Holds := by
  unfold move
  cases hwindow : virtue.window with
  | nil => trivial
  | cons first rest =>
      dsimp only
      cases virtue.phase with
      | idle =>
          dsimp only
          split_ifs
          · exact ⟨h.expectedTerms, h.terms, by simp⟩
          · trivial
      | graspingMarker =>
          dsimp only
          split_ifs
          · exact ⟨h.expectedTerms, h.terms, by simp⟩
          · trivial
      | awaitingTermCount =>
          exact takeNumber_holds fun n number hnumber => ⟨hnumber, h.terms, by simp⟩
      | awaitingBulkStringLength =>
          exact takeNumber_holds fun n number hnumber => ⟨h.expectedTerms, h.terms, by simp⟩
      | awaitingBulkString len => exact takeTerm_holds hwf h len

end Virtue

/-- What has been collected and what has been granted. -/
structure Worker.Holds (worker : Worker) : Prop where
  virtue : worker.virtue.Holds
  granted : ∀ request ∈ worker.granted, request.Grantable

section Holds

variable {build : Build} {worker worker' : Worker} {jump : WishJump}
  (hwf : worker.virtue.WellFormed) (h : worker.Holds)

include hwf h

theorem Worker.Holds.readMore (hread : Heaven.readMore build worker = .ok (worker', jump)) :
    worker'.Holds := by
  cases readMore_step hwf hread with
  | failed => exact h
  | blocked wf same =>
      refine ⟨⟨?_, ?_⟩, h.granted⟩
      · rw [same.expectedTerms]
        exact h.virtue.expectedTerms
      · rw [same.terms]
        exact h.virtue.terms
  | received bytes wf same =>
      refine ⟨⟨?_, ?_⟩, h.granted⟩
      · rw [same.expectedTerms]
        exact h.virtue.expectedTerms
      · rw [same.terms]
        exact h.virtue.terms

/-- The step lemma. -/
theorem Worker.Holds.pass (hpass : Heaven.pass build worker = .ok (worker', jump)) :
    worker'.Holds := by
  have hmoves := Virtue.move_holds hwf h.virtue
  cases pass_moves build hwf hpass with
  | stop => exact h
  | refuse => exact h
  | consume hmove =>
      rw [hmove] at hmoves
      obtain ⟨hexpected, hterms, hgranted⟩ := hmoves
      refine ⟨⟨hexpected, hterms⟩, ?_⟩
      intro request hrequest
      obtain hold | hnew := List.mem_append.mp hrequest
      · exact h.granted request hold
      · exact hgranted request hnew
  | @more n _ _ hmove inside wf hread =>
      have hskip : (worker.skip n).Holds := ⟨⟨h.virtue.expectedTerms, h.virtue.terms⟩, h.granted⟩
      exact hskip.readMore wf hread

end Holds

/-- **What is granted fits into the largest buffer.** -/
theorem grantable_of_calls {build : Build} {stream : TcpStream} {n : ℕ} {pilgrim : Pilgrim}
    {result : Except Sin Unit} (h : calls build (.new stream) n = some (.ok (pilgrim, result))) :
    ∀ request ∈ pilgrim.granted, request.Grantable := by
  have hnew : (Pilgrim.new stream).worker.Holds :=
    ⟨⟨Nat.two_pow_pos 64, fun _ hterm => absurd hterm List.not_mem_nil⟩,
      fun _ hrequest => absurd hrequest List.not_mem_nil⟩
  have hholds := calls_invariant (I := Worker.Holds)
    (fun _ _ _ hwf hworker hread => hworker.readMore hwf hread)
    (fun _ _ _ hwf hworker hpass => hworker.pass hwf hpass)
    (Pilgrim.wellFormed_new stream) hnew h
  exact hholds.granted

/-! ### A call with one arrival -/

section Arrivals

variable (build : Build) {virtue : Virtue} (hwf : virtue.WellFormed)
  (hsmall : virtue.window.length ≤ 64 * 1024 * 1024 - 1024) (granted : List Request)

include hwf hsmall

/-- Bytes that fit into the free room are read together. -/
theorem readMore_data (first : UInt8) (rest : Bytes) (hshort : (first :: rest).length ≤ 1024)
    (later : TcpStream) :
    ∃ virtue', readMore build ⟨virtue, .data first rest :: later, granted⟩ =
        .ok (⟨virtue', later, granted⟩, .again) ∧
      virtue'.WellFormed ∧ virtue.SamePlace virtue' ∧
      virtue'.window = virtue.window ++ first :: rest := by
  unfold readMore Virtue.potentiallyResizeAndRead
  obtain ⟨roomy, hresize, hroomy, hwindow, hsame, hroom⟩ | ⟨-, hfull⟩ :=
    Virtue.potentiallyResize_spec build hwf
  · obtain ⟨-, hle⟩ := hroomy.le_length
    have hfit : roomy.writeIdx + (first :: rest).length ≤ roomy.backlog.length := by omega
    have hall : (first :: rest).drop (roomy.backlog.drop roomy.writeIdx).length = [] := by
      apply List.drop_of_length_le
      rw [List.length_drop]
      omega
    obtain ⟨hfilled, hwindow'⟩ := Virtue.fill_spec hroomy (first :: rest) hfit
    have hlt : roomy.writeIdx + (first :: rest).length < 2 ^ 64 := by omega
    dsimp only
    rw [hresize]
    dsimp only [bind, Except.bind]
    rw [slice_of_le hroomy.inside (Nat.le_refl _), List.take_length]
    dsimp only
    rw [TcpStream.read, hall]
    dsimp only
    rw [addUsize_of_lt build hlt]
    exact ⟨_, rfl, hfilled, ⟨hsame.phase, hsame.terms, hsame.expectedTerms⟩, hwindow ▸ hwindow'⟩
  · omega

theorem readMore_wouldBlock (later : TcpStream) :
    ∃ virtue', readMore build ⟨virtue, .wouldBlock :: later, granted⟩ =
        .ok (⟨virtue', later, granted⟩, .leave (.ok ())) ∧
      virtue'.WellFormed ∧ virtue.SamePlace virtue' ∧ virtue'.window = virtue.window := by
  unfold readMore Virtue.potentiallyResizeAndRead
  obtain ⟨roomy, hresize, hroomy, hwindow, hsame, hroom⟩ | ⟨-, hfull⟩ :=
    Virtue.potentiallyResize_spec build hwf
  · dsimp only
    rw [hresize]
    dsimp only [bind, Except.bind]
    rw [slice_of_le hroomy.inside (Nat.le_refl _), List.take_length]
    exact ⟨_, rfl, hroomy, hsame, hwindow⟩
  · omega

end Arrivals

/-- The place of the parser between two calls, and the bytes in its window. -/
structure Virtue.At (phase : Phase) (terms : List Bytes) (expectedTerms : ℕ) (window : Bytes)
    (virtue : Virtue) : Prop where
  wf : virtue.WellFormed
  phase : virtue.phase = phase
  terms : virtue.terms = terms
  expectedTerms : virtue.expectedTerms = expectedTerms
  window : virtue.window = window

section Calls

variable (build : Build) {phase phase' : Phase} {terms terms' : List Bytes}
  {expectedTerms expectedTerms' : ℕ} {window chunk : Bytes} {virtue : Virtue}
  {granted more : List Request} {pilgrim : Pilgrim} {later : TcpStream}

/-- The arrival of a piece of at most 1024 bytes. -/
def arrival : Bytes → TcpStream
  | [] => []
  | first :: rest => [.data first rest]

theorem payload_arrival_append (chunk : Bytes) (later : TcpStream) :
    (arrival chunk ++ later).payload = chunk ++ later.payload := by
  cases chunk with
  | nil => rfl
  | cons first rest => rfl

theorem Virtue.At.not_overlong (h : virtue.At phase terms expectedTerms window)
    (hphase : ∀ len, phase = .awaitingBulkString len → len + 2 < 2 ^ 64) :
    ¬ virtue.Overlong := by
  rintro ⟨len, hlen, hlong, -⟩
  have hlt := hphase len (h.phase.symm.trans hlen)
  omega

theorem Virtue.At.congr (h : virtue.At phase terms expectedTerms window) {virtue' : Virtue}
    {window' : Bytes} (hwf : virtue'.WellFormed) (hsame : virtue.SamePlace virtue')
    (hwindow : virtue'.window = window') : virtue'.At phase terms expectedTerms window' :=
  ⟨hwf, hsame.phase.trans h.phase, hsame.terms.trans h.terms,
    hsame.expectedTerms.trans h.expectedTerms, hwindow⟩

variable (h : virtue.At phase terms expectedTerms window) (hchunk : chunk ≠ [])
  (hshort : chunk.length ≤ 1024) (hsmall : window.length ≤ 64 * 1024 * 1024 - 1024)
  (hphase : ∀ len, phase = .awaitingBulkString len → len + 2 < 2 ^ 64)

include h hchunk hshort hsmall hphase

/-- A call reads a piece and consumes all that is in the window then. -/
theorem wish_consumes
    (hworker : pilgrim.worker = ⟨virtue, arrival chunk ++ later, granted⟩)
    (hmove : ∀ virtue' : Virtue, virtue'.At phase terms expectedTerms (window ++ chunk) →
      virtue'.move = .consume (window ++ chunk).length phase' expectedTerms' terms' more) :
    ∃ pilgrim' virtue', wish build pilgrim = some (.ok (pilgrim', .ok ())) ∧
      pilgrim'.worker = ⟨virtue', later, granted ++ more⟩ ∧
      virtue'.At phase' terms' expectedTerms' [] := by
  obtain ⟨first, rest, rfl⟩ := List.exists_cons_of_ne_nil hchunk
  obtain ⟨filled, hread, hwf, hsame, hwindow⟩ := readMore_data build h.wf
    (by rw [h.window]; exact hsmall) granted first rest hshort later
  rw [h.window] at hwindow
  have hfilled := h.congr hwf hsame hwindow
  have hmove := hmove filled hfilled
  have hfits := filled.move_fits
  rw [hmove] at hfits
  let after : Worker :=
    ⟨{ filled with
        readIdx := filled.readIdx + (window ++ first :: rest).length
        phase := phase', expectedTerms := expectedTerms', terms := terms' },
      later, granted ++ more⟩
  have hpass : pass build ⟨filled, later, granted⟩ = .ok (after, .again) := by
    rw [@pass_eq ⟨filled, later, granted⟩ build hwf (hfilled.not_overlong hphase)]
    dsimp only
    rw [hmove]
    rfl
  have hafter : after.virtue.At phase' terms' expectedTerms' [] := by
    refine ⟨hwf.consume hfits.2.1 hfits.2.2 expectedTerms' terms', rfl, rfl, rfl, ?_⟩
    have hdrop := filled.window_consume (window ++ first :: rest).length
    rw [hwindow, List.drop_length] at hdrop
    exact hdrop
  have hstop : pass build after = .ok (after, .leave (.ok ())) := by
    have hnot : ¬ after.virtue.Overlong := fun ⟨_, _, _, hne⟩ => hne hafter.window
    rw [pass_eq build hafter.wf hnot, Virtue.move, hafter.window]
    rfl
  -- two passes: one for the bytes, one for the empty window
  obtain ⟨fuel, hfuel⟩ : ∃ fuel, (⟨filled, later, granted⟩ : Worker).measure = fuel + 1 := by
    refine ⟨_, (Nat.succ_pred_eq_of_pos ?_).symm⟩
    rw [@measure_eq ⟨filled, later, granted⟩ hwf]
    dsimp only
    rw [hwindow, List.length_append, List.length_cons]
    omega
  refine ⟨after.pilgrim, after.virtue, ?_, rfl, hafter⟩
  have hentry : readMore build pilgrim.worker = .ok (⟨filled, later, granted⟩, .again) := by
    rw [hworker]
    exact hread
  unfold wish
  rw [hentry]
  dsimp only
  rw [Worker.loop, hfuel, Loops.run, hpass]
  dsimp only
  rw [Loops.run, hstop]
  rfl

/-- A call reads a piece, and waits for more. -/
theorem wish_waits
    (hworker : pilgrim.worker = ⟨virtue, arrival chunk ++ .wouldBlock :: later, granted⟩)
    (hlarge : (window ++ chunk).length ≤ 64 * 1024 * 1024 - 1024)
    (hmove : ∀ virtue' : Virtue, virtue'.At phase terms expectedTerms (window ++ chunk) →
      virtue'.move = .more 0) :
    ∃ pilgrim' virtue', wish build pilgrim = some (.ok (pilgrim', .ok ())) ∧
      pilgrim'.worker = ⟨virtue', later, granted⟩ ∧
      virtue'.At phase terms expectedTerms (window ++ chunk) := by
  obtain ⟨first, rest, rfl⟩ := List.exists_cons_of_ne_nil hchunk
  obtain ⟨filled, hread, hwf, hsame, hwindow⟩ := readMore_data build h.wf
    (by rw [h.window]; exact hsmall) granted first rest hshort (.wouldBlock :: later)
  rw [h.window] at hwindow
  have hfilled := h.congr hwf hsame hwindow
  obtain ⟨blocked, hblock, hwf', hsame', hwindow'⟩ := readMore_wouldBlock build hwf
    (by rw [hwindow]; exact hlarge) granted later
  have hpass : pass build ⟨filled, .wouldBlock :: later, granted⟩ =
      .ok (⟨blocked, later, granted⟩, .leave (.ok ())) := by
    rw [@pass_eq ⟨filled, .wouldBlock :: later, granted⟩ build hwf
      (hfilled.not_overlong hphase)]
    dsimp only
    rw [hmove filled hfilled]
    exact hblock
  refine ⟨(⟨blocked, later, granted⟩ : Worker).pilgrim, blocked, ?_, rfl,
    hfilled.congr hwf' hsame' (hwindow'.trans hwindow)⟩
  have hentry : readMore build pilgrim.worker =
      .ok (⟨filled, .wouldBlock :: later, granted⟩, .again) := by
    rw [hworker]
    exact hread
  unfold wish
  rw [hentry]
  dsimp only
  rw [Worker.loop, Loops.run, hpass]
  rfl

end Calls

/-! ### Items in pieces -/

/-- For some stream with these bytes, the calls on a connection whose buffer is in this place come
to have granted the requests. -/
def Granting (build : Build) (requests : List Request) (place : Virtue → Prop)
    (granted : List Request) (bytes : Bytes) : Prop :=
  ∃ stream : TcpStream, stream.payload = bytes ∧ ∀ (pilgrim : Pilgrim) (virtue : Virtue),
    place virtue → pilgrim.worker = ⟨virtue, stream, granted⟩ →
      ∃ n pilgrim', calls build pilgrim n = some (.ok (pilgrim', .ok ())) ∧
        pilgrim'.granted = requests

theorem calls_of_wish {build : Build} {pilgrim pilgrim' : Pilgrim}
    (h : wish build pilgrim = some (.ok (pilgrim', .ok ()))) (n : ℕ) :
    calls build pilgrim (n + 1) = calls build pilgrim' n := by
  induction n with
  | zero => exact h
  | succ n ih =>
      rw [calls, ih]
      rfl

section Granting

variable {build : Build} {phase phase' : Phase} {terms terms' : List Bytes}
  {expectedTerms expectedTerms' : ℕ} {window chunk bytes : Bytes}
  {requests granted more : List Request}

/-- What a call does, and what is granted after it. -/
theorem Granting.of_wish {place place' : Virtue → Prop} {granted' : List Request}
    (hnext : Granting build requests place' granted' bytes) (prior : TcpStream)
    (hprior : ∀ later : TcpStream, (prior ++ later).payload = chunk ++ later.payload)
    (hwish : ∀ (later : TcpStream) (pilgrim : Pilgrim) (virtue : Virtue), place virtue →
      pilgrim.worker = ⟨virtue, prior ++ later, granted⟩ →
        ∃ pilgrim' virtue', wish build pilgrim = some (.ok (pilgrim', .ok ())) ∧
          pilgrim'.worker = ⟨virtue', later, granted'⟩ ∧ place' virtue') :
    Granting build requests place granted (chunk ++ bytes) := by
  obtain ⟨later, hpayload, hcalls⟩ := hnext
  refine ⟨prior ++ later, by rw [hprior, hpayload], ?_⟩
  intro pilgrim virtue hplace hworker
  obtain ⟨pilgrim', virtue', hcall, hworker', hplace'⟩ := hwish later pilgrim virtue hplace hworker
  obtain ⟨n, last, hlast, hgranted⟩ := hcalls pilgrim' virtue' hplace' hworker'
  exact ⟨n + 1, last, (calls_of_wish hcall n).trans hlast, hgranted⟩

/-- **An item that comes in blocks is consumed with its last one**, if it is no larger than the
buffer and the parser waits for all of it. -/
theorem Granting.blocks (item : Bytes)
    (hnext : Granting build requests (Virtue.At phase' terms' expectedTerms' [])
      (granted ++ more) bytes)
    (hsize : item.length ≤ 64 * 1024 * 1024)
    (hphase : ∀ len, phase = .awaitingBulkString len → len + 2 < 2 ^ 64)
    (hwaits : ∀ (virtue : Virtue) (window unread : Bytes), window ≠ [] → unread ≠ [] →
      window ++ unread = item → virtue.At phase terms expectedTerms window → virtue.move = .more 0)
    (hconsumes : ∀ virtue : Virtue, virtue.At phase terms expectedTerms item →
      virtue.move = .consume item.length phase' expectedTerms' terms' more)
    (unread : Bytes) (window : Bytes) (hne : unread ≠ []) (hitem : window ++ unread = item)
    (hsmall : window.length ≤ 64 * 1024 * 1024 - 1024) :
    Granting build requests (Virtue.At phase terms expectedTerms window) granted
      (unread ++ bytes) := by
  induction hlength : unread.length using Nat.strong_induction_on generalizing unread window with
  | _ k ih =>
      have hpos : 0 < unread.length := List.length_pos_iff.mpr hne
      -- the first block takes what makes the rest full blocks
      let size : ℕ := (unread.length - 1) % 1024 + 1
      have hle : size ≤ 1024 := by omega
      have hinside : size ≤ unread.length := by
        have hmod := Nat.mod_le (unread.length - 1) 1024
        omega
      have htake : (unread.take size).length = size := by
        rw [List.length_take, Nat.min_eq_left hinside]
      have hblock : unread.take size ≠ [] := by
        apply List.ne_nil_of_length_pos
        omega
      have hsplit : unread.take size ++ unread.drop size = unread := List.take_append_drop _ _
      have hwhole : window ++ unread.take size ++ unread.drop size = item := by
        rw [List.append_assoc, hsplit, hitem]
      by_cases hlast : unread.drop size = []
      · rw [hlast, List.append_nil] at hsplit hwhole
        rw [hsplit] at hwhole
        refine hnext.of_wish (arrival unread) (payload_arrival_append unread) ?_
        intro later pilgrim virtue hat hworker
        refine wish_consumes build hat hne (by rw [← hsplit, htake]; exact hle) hsmall hphase
          hworker ?_
        rw [hwhole]
        exact hconsumes
      · have hrest : (unread.drop size).length = unread.length - size := List.length_drop
        have hrestpos : 0 < (unread.drop size).length := List.length_pos_iff.mpr hlast
        have hlengths := congrArg List.length hwhole
        rw [List.length_append] at hlengths
        have hsmall' : (window ++ unread.take size).length ≤ 64 * 1024 * 1024 - 1024 := by
          have hfull : 1024 ≤ (unread.drop size).length := by omega
          omega
        have hafter := ih (unread.drop size).length (by omega) (unread.drop size)
          (window ++ unread.take size) hlast hwhole hsmall' rfl
        rw [← hsplit, List.append_assoc]
        refine hafter.of_wish (arrival (unread.take size) ++ [.wouldBlock]) ?_ ?_
        · intro later
          rw [List.append_assoc, payload_arrival_append]
          rfl
        · intro later pilgrim virtue hat hworker
          rw [List.append_assoc] at hworker
          refine wish_waits build hat hblock (htake.trans_le hle) hsmall hphase hworker hsmall' ?_
          intro virtue' hat'
          refine hwaits virtue' _ (unread.drop size) ?_ hlast hwhole hat'
          exact List.append_ne_nil_of_right_ne_nil _ hblock

/-- An item of one byte. -/
theorem Granting.byte {b : UInt8}
    (hnext : Granting build requests (Virtue.At phase' terms' expectedTerms' [])
      (granted ++ more) bytes)
    (hphase : ∀ len, phase ≠ .awaitingBulkString len)
    (hconsumes : ∀ virtue : Virtue, virtue.At phase terms expectedTerms [b] →
      virtue.move = .consume 1 phase' expectedTerms' terms' more) :
    Granting build requests (Virtue.At phase terms expectedTerms []) granted (b :: bytes) := by
  refine .blocks [b] hnext ?_ ?_ ?_ hconsumes [b] [] ?_ rfl ?_
  · rw [List.length_singleton]
    norm_num
  · intro len hlen
    exact absurd hlen (hphase len)
  · intro virtue window unread hwindow hunread hsplit
    -- a byte has no piece
    have hlength := congrArg List.length hsplit
    rw [List.length_append, List.length_singleton] at hlength
    have hpos := List.length_pos_iff.mpr hwindow
    have hpos' := List.length_pos_iff.mpr hunread
    omega
  · exact List.cons_ne_nil _ _
  · exact Nat.zero_le _

/-- The line of a number. -/
theorem Granting.line {number : ℕ} (hnumber : number < 2 ^ 64) (next : ℕ → ℕ → Move)
    (hphase : ∀ len, phase ≠ .awaitingBulkString len)
    (hmove : ∀ (virtue : Virtue) (window : Bytes), window ≠ [] →
      virtue.At phase terms expectedTerms window → virtue.move = virtue.takeNumber next)
    (hconsume : ∀ n, next n number = .consume n phase' expectedTerms' terms' [])
    (hnext : Granting build requests (Virtue.At phase' terms' expectedTerms' []) granted bytes) :
    Granting build requests (Virtue.At phase terms expectedTerms []) granted
      (print number ++ 13 :: 10 :: bytes) := by
  have hdigits : (print number).length ≤ 20 :=
    Decimal.length_print_le (by omega) (lt_trans hnumber (by norm_num))
  have hlength : (print number ++ [13, 10]).length = (print number).length + 2 := by
    rw [List.length_append]
    rfl
  have hne : print number ++ [13, 10] ≠ [] :=
    List.append_ne_nil_of_right_ne_nil _ (List.cons_ne_nil _ _)
  have hnext' : Granting build requests (Virtue.At phase' terms' expectedTerms' [])
      (granted ++ []) bytes := by
    rw [List.append_nil]
    exact hnext
  suffices hgranting : Granting build requests (Virtue.At phase terms expectedTerms []) granted
      ((print number ++ [13, 10]) ++ bytes) by
    rwa [List.append_assoc] at hgranting
  refine .blocks (print number ++ [13, 10]) hnext' ?_ ?_ ?_ ?_ _ [] hne rfl (Nat.zero_le _)
  · omega
  · intro len hlen
    exact absurd hlen (hphase len)
  · intro virtue window unread hwindow hunread hsplit hat
    have hpos := List.length_pos_iff.mpr hunread
    have hlengths := congrArg List.length hsplit
    rw [List.length_append, hlength] at hlengths
    rw [← hat.window] at hsplit hlengths
    rw [hmove virtue window hwindow hat, Virtue.takeNumber_line hsplit, if_neg (by omega)]
  · intro virtue hat
    have hsplit : virtue.window ++ [] = print number ++ 13 :: 10 :: [] := by
      rw [List.append_nil, hat.window]
    rw [hmove virtue _ hne hat, Virtue.takeNumber_line hsplit, hat.window, hlength,
      if_pos (Nat.le_refl _), if_pos hnumber, hconsume]

/-- A term with its CRLF, however large. -/
theorem Granting.term {term : Bytes} (hterm : term.length + 2 ≤ 64 * 1024 * 1024)
    (hnext : Granting build requests (Virtue.At phase' terms' expectedTerms []) (granted ++ more)
      bytes)
    (hconsume : (if (terms ++ [term]).length = expectedTerms then
        Move.consume (term.length + 2) .idle expectedTerms []
          [⟨terms ++ [term], List.append_ne_nil_of_right_ne_nil _ (List.cons_ne_nil _ _)⟩]
      else .consume (term.length + 2) .graspingMarker expectedTerms (terms ++ [term]) []) =
        .consume (term.length + 2) phase' expectedTerms terms' more) :
    Granting build requests (Virtue.At (.awaitingBulkString term.length) terms expectedTerms [])
      granted (term ++ 13 :: 10 :: bytes) := by
  have hlength : (term ++ [13, 10]).length = term.length + 2 := by
    rw [List.length_append]
    rfl
  have hne : term ++ [13, 10] ≠ [] :=
    List.append_ne_nil_of_right_ne_nil _ (List.cons_ne_nil _ _)
  have hmove : ∀ (virtue : Virtue) (window : Bytes), window ≠ [] →
      virtue.At (.awaitingBulkString term.length) terms expectedTerms window →
        virtue.move = virtue.takeTerm term.length := by
    intro virtue window hwindow hat
    obtain ⟨first, rest, rfl⟩ := List.exists_cons_of_ne_nil hwindow
    rw [Virtue.move, hat.window, hat.phase]
  suffices hgranting : Granting build requests
      (Virtue.At (.awaitingBulkString term.length) terms expectedTerms []) granted
        ((term ++ [13, 10]) ++ bytes) by
    rwa [List.append_assoc] at hgranting
  refine .blocks (term ++ [13, 10]) hnext ?_ ?_ ?_ ?_ _ [] hne rfl (Nat.zero_le _)
  · omega
  · intro len hlen
    cases hlen
    omega
  · intro virtue window unread hwindow hunread hsplit hat
    have hpos := List.length_pos_iff.mpr hunread
    rw [← hat.window] at hsplit
    obtain ⟨htake, hrest⟩ | ⟨htake, -⟩ := Virtue.takeTerm_place hsplit
    · have hnil := (List.append_eq_nil_iff.mp hrest).2
      exact absurd hnil hunread
    · rw [hmove virtue window hwindow hat, htake]
  · intro virtue hat
    have hsplit : virtue.window ++ [] = term ++ 13 :: 10 :: [] := by
      rw [List.append_nil, hat.window]
    obtain ⟨htake, -⟩ | ⟨-, hshort, -⟩ := Virtue.takeTerm_place hsplit
    · rw [hmove virtue _ hne hat, htake]
      simp only [hat.terms, hat.expectedTerms]
      rw [hconsume, hlength]
    · rw [hat.window] at hshort
      omega

/-! ### A sequence in pieces -/

/-- A term with what comes before it. -/
theorem Granting.encodeTerm {term : Bytes} (hterm : term.length + 2 ≤ 64 * 1024 * 1024)
    (hnext : Granting build requests
      (Virtue.At (.awaitingBulkString term.length) terms expectedTerms []) granted
        (term ++ 13 :: 10 :: bytes)) :
    Granting build requests (Virtue.At .graspingMarker terms expectedTerms []) granted
      (36 :: (print term.length ++ 13 :: 10 :: (term ++ 13 :: 10 :: bytes))) := by
  have hlength : term.length < 2 ^ 64 := by omega
  have hline : Granting build requests (Virtue.At .awaitingBulkStringLength terms expectedTerms [])
      granted (print term.length ++ 13 :: 10 :: (term ++ 13 :: 10 :: bytes)) := by
    refine .line hlength (fun n number =>
      .consume n (.awaitingBulkString number) expectedTerms terms []) (by simp) ?_ (fun _ => rfl)
      hnext
    intro virtue window hwindow hat
    have hne : virtue.window ≠ [] := by
      rw [hat.window]
      exact hwindow
    rw [Virtue.move_awaitingBulkStringLength hat.phase hne, hat.terms, hat.expectedTerms]
  rw [← List.append_nil granted] at hline
  refine hline.byte (by simp) ?_
  intro virtue hat
  rw [Virtue.move, hat.window, hat.phase, hat.terms, hat.expectedTerms]
  rfl

/-- The terms of a request from one on, and what comes after the request. -/
theorem Granting.encodeTerms (done : List Bytes) (term : Bytes) (rest : List Bytes)
    (hne : done ++ term :: rest ≠ [])
    (hterms : ∀ t ∈ term :: rest, t.length + 2 ≤ 64 * 1024 * 1024)
    (hnext : Granting build requests (Virtue.At .idle [] (done ++ term :: rest).length [])
      (granted ++ [⟨done ++ term :: rest, hne⟩]) bytes) :
    Granting build requests
      (Virtue.At .graspingMarker done (done ++ term :: rest).length []) granted
      (Heaven.encodeTerms (term :: rest) ++ bytes) := by
  induction rest generalizing done term with
  | nil =>
      have hterm := hterms term List.mem_cons_self
      rw [encodeTerms_cons]
      refine .encodeTerm hterm (.term hterm hnext ?_)
      rw [if_pos rfl]
  | cons next rest ih =>
      have hterm := hterms term List.mem_cons_self
      have hsplit : done ++ term :: next :: rest = (done ++ [term]) ++ next :: rest := by
        rw [List.append_assoc]
        rfl
      have hrest : Granting build requests
          (Virtue.At .graspingMarker (done ++ [term]) (done ++ term :: next :: rest).length [])
            (granted ++ []) (Heaven.encodeTerms (next :: rest) ++ bytes) := by
        rw [List.append_nil]
        simp only [hsplit] at hnext ⊢
        exact ih (done ++ [term]) next (hsplit ▸ hne)
          (fun t ht => hterms t (List.mem_cons_of_mem _ ht)) hnext
      rw [encodeTerms_cons]
      refine .encodeTerm hterm (.term hterm hrest ?_)
      rw [if_neg (by simp)]

/-- A request that is grantable is granted. -/
theorem Granting.encode {request : Request} (h : request.Grantable) (expectedTerms : ℕ)
    (hnext : ∀ expectedTerms, Granting build requests (Virtue.At .idle [] expectedTerms [])
      (granted ++ [request]) bytes) :
    Granting build requests (Virtue.At .idle [] expectedTerms []) granted
      (Heaven.encode request ++ bytes) := by
  obtain ⟨terms, hne⟩ := request
  obtain ⟨term, rest, rfl⟩ := List.exists_cons_of_ne_nil hne
  obtain ⟨hcount, hterms⟩ := h
  have hgranting := Granting.encodeTerms [] term rest hne hterms (hnext _)
  have hline : Granting build requests (Virtue.At .awaitingTermCount [] expectedTerms []) granted
      (print (term :: rest).length ++ 13 :: 10 ::
        (Heaven.encodeTerms (term :: rest) ++ bytes)) := by
    refine .line hcount (fun n number =>
      .consume n (if number = 0 then .idle else .graspingMarker) number [] []) (by simp) ?_ ?_
      hgranting
    · intro virtue window hwindow hat
      have hne : virtue.window ≠ [] := by
        rw [hat.window]
        exact hwindow
      rw [Virtue.move_awaitingTermCount hat.phase hne, hat.terms]
    · intro n
      rfl
  rw [← List.append_nil granted] at hline
  have hbyte : Granting build requests (Virtue.At .idle [] expectedTerms []) granted
      (42 :: (print (term :: rest).length ++ 13 :: 10 ::
        (Heaven.encodeTerms (term :: rest) ++ bytes))) := by
    refine hline.byte (by simp) ?_
    intro virtue hat
    rw [Virtue.move, hat.window, hat.phase, hat.terms, hat.expectedTerms]
    rfl
  simpa [Heaven.encode] using hbyte

/-- The run lemma. -/
theorem granting_encodeAll {todo : List Request} (h : ∀ request ∈ todo, request.Grantable)
    (tail : Bytes) (granted : List Request) (expectedTerms : ℕ) :
    Granting build (granted ++ todo) (Virtue.At .idle [] expectedTerms []) granted
      (encodeAll todo ++ tail) := by
  induction todo generalizing granted expectedTerms with
  | nil =>
      refine ⟨arrival tail, ?_, ?_⟩
      · have hpayload := payload_arrival_append tail []
        rw [List.append_nil] at hpayload
        exact hpayload.trans (List.append_nil tail)
      · intro pilgrim virtue hat hworker
        refine ⟨0, pilgrim, rfl, ?_⟩
        rw [List.append_nil]
        exact congrArg Worker.granted hworker
  | cons request todo ih =>
      rw [encodeAll_cons, List.append_assoc]
      refine .encode (h request List.mem_cons_self) expectedTerms ?_
      intro expectedTerms
      have hrest := ih (fun r hr => h r (List.mem_cons_of_mem _ hr)) (granted ++ [request])
        expectedTerms
      rwa [List.append_assoc] at hrest

end Granting

/-- **Requests that each fit into the largest buffer are granted, if their bytes come in the right
pieces**, whatever follows them. -/
theorem exists_granted (build : Build) {requests : List Request}
    (h : ∀ request ∈ requests, request.Grantable) (tail : Bytes) :
    ∃ stream : TcpStream, stream.payload = encodeAll requests ++ tail ∧
      ∃ n pilgrim, calls build (.new stream) n = some (.ok (pilgrim, .ok ())) ∧
        pilgrim.granted = requests := by
  obtain ⟨stream, hpayload, hcalls⟩ := @granting_encodeAll build requests h tail [] 0
  have hnew : Virtue.new.At .idle [] 0 [] := ⟨Virtue.wellFormed_new, rfl, rfl, rfl, rfl⟩
  exact ⟨stream, hpayload, hcalls (.new stream) .new hnew rfl⟩

end Heaven
