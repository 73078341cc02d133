import Heaven.Lib.Paths
import Heaven.WishSafety

/-! # The parser in front of its input

`Reader` is the parser of `wish` with all of its input in front of it: no buffer and no socket.  Its
step `Reader.next` is the move of the parser on the whole input.

More bytes behind a window do not change its move, unless the parser waits for them
(`Virtue.move_append`).  So a pass of the loop of `wish` takes the step of the reader in front of
the window and the unread bytes, or none (`OnPath.pass`), and in whatever pieces the bytes come, the
connection stays on the path of one reader.  The one thing that depends on the pieces is where it
waits: in front of a window that is not complete, or behind a byte that it has skipped
(`leaves_of_calls`). -/

namespace Heaven

open Loops (Jump)
open StateTransition (Reaches)

/-! ### More bytes behind a window -/

theorem findCrlf_append : ∀ {bytes : Bytes} {i : ℕ} (more : Bytes), findCrlf bytes = some i →
    findCrlf (bytes ++ more) = some i
  | [], _, _, h => nomatch h
  | [_], _, _, h => nomatch h
  | a :: b :: rest, i, more, h => by
      rw [findCrlf] at h
      rw [List.cons_append, List.cons_append, findCrlf]
      split_ifs at h ⊢ with hcrlf
      · exact h
      · obtain ⟨j, hj, rfl⟩ := Option.map_eq_some_iff.mp h
        have ih := findCrlf_append more hj
        rw [List.cons_append] at ih
        rw [ih]
        rfl

/-- A line that ends inside the first bytes is found there. -/
theorem findCrlf_of_append_le : ∀ {bytes : Bytes} {i : ℕ} (more : Bytes),
    findCrlf (bytes ++ more) = some i → i + 2 ≤ bytes.length → findCrlf bytes = some i
  | [], _, _, _, hle => by simp at hle
  | [_], _, _, _, hle => by simp at hle
  | a :: b :: rest, i, more, h, hle => by
      rw [List.cons_append, List.cons_append, findCrlf] at h
      rw [findCrlf]
      split_ifs at h ⊢ with hcrlf
      · exact h
      · obtain ⟨j, hj, rfl⟩ := Option.map_eq_some_iff.mp h
        rw [← List.cons_append] at hj
        have hle' : j + 2 ≤ (b :: rest).length := by
          rw [List.length_cons] at hle ⊢
          rw [List.length_cons] at hle
          omega
        rw [findCrlf_of_append_le more hj hle']
        rfl

namespace Virtue

/-- The parser waits for more bytes. -/
def NeedsMore (virtue : Virtue) : Prop := virtue.move = .stop ∨ virtue.move = .more 0

variable {virtue virtue' : Virtue} {more : Bytes}

/-- The move depends on the window and the place. -/
theorem move_congr (hwindow : virtue'.window = virtue.window) (h : virtue.SamePlace virtue') :
    virtue'.move = virtue.move := by
  simp only [move, takeNumber, takeTerm, hwindow, h.phase, h.terms, h.expectedTerms]

theorem NeedsMore.congr (hneeds : virtue.NeedsMore) (hwindow : virtue'.window = virtue.window)
    (h : virtue.SamePlace virtue') : virtue'.NeedsMore := by
  unfold NeedsMore
  rw [move_congr hwindow h]
  exact hneeds

theorem needsMore_of_window_eq_nil (h : virtue.window = []) : virtue.NeedsMore := by
  left
  rw [move, h]

theorem takeNumber_append (hwindow : virtue'.window = virtue.window ++ more)
    (next : ℕ → ℕ → Move) :
    virtue.takeNumber next = .more 0 ∨ virtue'.takeNumber next = virtue.takeNumber next := by
  unfold takeNumber
  cases hline : findCrlf virtue.window with
  | none => exact .inl rfl
  | some i =>
      have hi := findCrlf_lt hline
      have hline' := findCrlf_append more hline
      have htake : (virtue.window ++ more).take i = virtue.window.take i :=
        List.take_append_of_le_length (by omega)
      right
      simp only [hwindow, hline', htake]

theorem takeTerm_append (hwindow : virtue'.window = virtue.window ++ more)
    (h : virtue.SamePlace virtue') (len : ℕ) :
    virtue.takeTerm len = .more 0 ∨ virtue'.takeTerm len = virtue.takeTerm len := by
  unfold takeTerm
  by_cases hshort : virtue.window.length < len + 2
  · exact .inl (if_pos hshort)
  · right
    have hshort' : ¬ virtue'.window.length < len + 2 := by
      rw [hwindow, List.length_append]
      omega
    have htwo : 2 ≤ (virtue.window.drop len).length := by
      rw [List.length_drop]
      omega
    have hdrop : (virtue'.window.drop len).take 2 = (virtue.window.drop len).take 2 := by
      rw [hwindow, List.drop_append_of_le_length (by omega), List.take_append_of_le_length htwo]
    have htake : virtue'.window.take len = virtue.window.take len := by
      rw [hwindow, List.take_append_of_le_length (by omega)]
    rw [if_neg hshort, if_neg hshort']
    simp only [hdrop, htake, h.terms, h.expectedTerms]

/-- **More bytes behind the window change the move only where the parser waits for them.** -/
theorem move_append (hwindow : virtue'.window = virtue.window ++ more)
    (h : virtue.SamePlace virtue') : virtue.NeedsMore ∨ virtue'.move = virtue.move := by
  cases hfirst : virtue.window with
  | nil => exact .inl (needsMore_of_window_eq_nil hfirst)
  | cons first rest =>
      have hfirst' : virtue'.window = first :: (rest ++ more) := by
        rw [hwindow, hfirst, List.cons_append]
      unfold NeedsMore move
      rw [hfirst, hfirst', h.phase]
      dsimp only
      cases virtue.phase with
      | idle =>
          right
          rw [h.terms, h.expectedTerms]
      | graspingMarker =>
          right
          rw [h.terms, h.expectedTerms]
      | awaitingTermCount =>
          dsimp only
          rw [h.terms]
          exact (takeNumber_append hwindow _).imp_left .inr
      | awaitingBulkStringLength =>
          dsimp only
          rw [h.terms, h.expectedTerms]
          exact (takeNumber_append hwindow _).imp_left .inr
      | awaitingBulkString len =>
          dsimp only
          exact (takeTerm_append hwindow h len).imp_left .inr

/-- What the parser finds when it consumes. -/
inductive Consumes (virtue : Virtue) : ℕ → Phase → ℕ → List Bytes → List Request → Prop
  | array {rest : Bytes} (hphase : virtue.phase = .idle) (hwindow : virtue.window = 42 :: rest) :
      Consumes virtue 1 .awaitingTermCount virtue.expectedTerms virtue.terms []
  | count {i number : ℕ} (hphase : virtue.phase = .awaitingTermCount)
      (hline : findCrlf virtue.window = some i)
      (hnumber : bytesToUsize (virtue.window.take i) = .ok number) :
      Consumes virtue (i + 2) (if number = 0 then .idle else .graspingMarker) number virtue.terms []
  | marker {rest : Bytes} (hphase : virtue.phase = .graspingMarker)
      (hwindow : virtue.window = 36 :: rest) :
      Consumes virtue 1 .awaitingBulkStringLength virtue.expectedTerms virtue.terms []
  | length {i len : ℕ} (hphase : virtue.phase = .awaitingBulkStringLength)
      (hline : findCrlf virtue.window = some i)
      (hnumber : bytesToUsize (virtue.window.take i) = .ok len) :
      Consumes virtue (i + 2) (.awaitingBulkString len) virtue.expectedTerms virtue.terms []
  | term {len : ℕ} (hphase : virtue.phase = .awaitingBulkString len)
      (hinside : len + 2 ≤ virtue.window.length)
      (hcrlf : (virtue.window.drop len).take 2 = [13, 10])
      (hmore : (virtue.terms ++ [virtue.window.take len]).length ≠ virtue.expectedTerms) :
      Consumes virtue (len + 2) .graspingMarker virtue.expectedTerms
        (virtue.terms ++ [virtue.window.take len]) []
  | last {len : ℕ} (hphase : virtue.phase = .awaitingBulkString len)
      (hinside : len + 2 ≤ virtue.window.length)
      (hcrlf : (virtue.window.drop len).take 2 = [13, 10])
      (hlast : (virtue.terms ++ [virtue.window.take len]).length = virtue.expectedTerms) :
      Consumes virtue (len + 2) .idle virtue.expectedTerms []
        [⟨virtue.terms ++ [virtue.window.take len],
          List.append_ne_nil_of_right_ne_nil _ (List.cons_ne_nil _ _)⟩]

/-- The parser has too little in its window. -/
def Lacks (virtue : Virtue) : Prop :=
  match virtue.phase with
  | .idle | .graspingMarker => virtue.window = []
  | .awaitingTermCount | .awaitingBulkStringLength => findCrlf virtue.window = none
  | .awaitingBulkString len => virtue.window.length < len + 2

/-- The moves of the parser. -/
inductive Moves (virtue : Virtue) : Move → Prop
  | stop (h : virtue.Lacks) : Moves virtue .stop
  | wait (h : virtue.Lacks) : Moves virtue (.more 0)
  | refuse (sin : Sin) : Moves virtue (.refuse sin)
  | consume {n : ℕ} {phase : Phase} {expectedTerms : ℕ} {terms : List Bytes}
      {granted : List Request} (h : virtue.Consumes n phase expectedTerms terms granted) :
      Moves virtue (.consume n phase expectedTerms terms granted)
  | skip {first : UInt8} {rest : Bytes} (hphase : virtue.phase = .graspingMarker)
      (hwindow : virtue.window = first :: rest) (hfirst : first ≠ 36) : Moves virtue (.more 1)

theorem moves_takeNumber {next : ℕ → ℕ → Move}
    (hlacks : findCrlf virtue.window = none → virtue.Lacks)
    (hnext : ∀ i number, findCrlf virtue.window = some i →
      bytesToUsize (virtue.window.take i) = .ok number → virtue.Moves (next (i + 2) number)) :
    virtue.Moves (virtue.takeNumber next) := by
  unfold takeNumber
  cases hline : findCrlf virtue.window with
  | none => exact .wait (hlacks hline)
  | some i =>
      dsimp only
      cases hnumber : bytesToUsize (virtue.window.take i) with
      | error sin => exact .refuse sin
      | ok number => exact hnext i number hline hnumber

/-- **What each move says about the window.** -/
theorem moves (virtue : Virtue) : virtue.Moves virtue.move := by
  unfold move
  cases hwindow : virtue.window with
  | nil =>
      apply Moves.stop
      unfold Lacks
      rw [hwindow]
      cases virtue.phase with
      | awaitingBulkString len => exact Nat.succ_pos _
      | _ => rfl
  | cons first rest =>
      dsimp only
      cases hphase : virtue.phase with
      | idle =>
          dsimp only
          split_ifs with hfirst
          · rw [hfirst] at hwindow
            exact .consume (.array hphase hwindow)
          · exact .refuse _
      | graspingMarker =>
          dsimp only
          split_ifs with hfirst
          · rw [hfirst] at hwindow
            exact .consume (.marker hphase hwindow)
          · exact .skip hphase hwindow hfirst
      | awaitingTermCount =>
          apply moves_takeNumber
          · intro hnone
            rw [Lacks, hphase]
            exact hnone
          · intro i number hline hnumber
            exact .consume (.count hphase hline hnumber)
      | awaitingBulkStringLength =>
          apply moves_takeNumber
          · intro hnone
            rw [Lacks, hphase]
            exact hnone
          · intro i number hline hnumber
            exact .consume (.length hphase hline hnumber)
      | awaitingBulkString len =>
          dsimp only [takeTerm]
          split_ifs with hshort hcrlf hlast
          · apply Moves.wait
            rw [Lacks, hphase]
            exact hshort
          · exact .refuse _
          · exact .consume (.last hphase (not_lt.mp hshort) (not_not.mp hcrlf) hlast)
          · exact .consume (.term hphase (not_lt.mp hshort) (not_not.mp hcrlf) hlast)

theorem NeedsMore.lacks (h : virtue.NeedsMore) : virtue.Lacks := by
  have hmoves := virtue.moves
  obtain hmove | hmove := h
  all_goals
    rw [hmove] at hmoves
    cases hmoves
    assumption

/-- Only a single byte is ever skipped. -/
theorem move_more {n : ℕ} (h : virtue.move = .more n) : n = 0 ∨ n = 1 := by
  have hmoves := virtue.moves
  rw [h] at hmoves
  cases hmoves
  · exact .inl rfl
  · exact .inr rfl

theorem consumes_of_move {n : ℕ} {phase : Phase} {expectedTerms : ℕ} {terms : List Bytes}
    {granted : List Request} (h : virtue.move = .consume n phase expectedTerms terms granted) :
    virtue.Consumes n phase expectedTerms terms granted := by
  have hmoves := virtue.moves
  rw [h] at hmoves
  cases hmoves
  assumption

end Virtue

/-! ### The reader -/

/-- The parser with all of its input in front of it. -/
structure Reader where
  phase : Phase
  terms : List Bytes
  expectedTerms : ℕ
  /-- What has not been consumed. -/
  input : Bytes
  granted : List Request
deriving DecidableEq

namespace Reader

/-- In front of all the bytes of a connection. -/
def start (bytes : Bytes) : Reader := ⟨.idle, [], 0, bytes, []⟩

/-- A buffer that holds the whole input. -/
def virtue (reader : Reader) : Virtue where
  backlog := reader.input
  readIdx := 0
  writeIdx := reader.input.length
  terms := reader.terms
  expectedTerms := reader.expectedTerms
  phase := reader.phase

theorem window_virtue (reader : Reader) : reader.virtue.window = reader.input := by
  rw [Virtue.window, virtue, List.take_length, List.drop_zero]

def move (reader : Reader) : Move := reader.virtue.move

/-- The next byte is not the marker that should be there. -/
def Skips (reader : Reader) : Prop := reader.move = .more 1

/-- Consume, or skip a byte. -/
def next (reader : Reader) : Option Reader :=
  match reader.move with
  | .consume n phase expectedTerms terms granted =>
      some ⟨phase, terms, expectedTerms, reader.input.drop n, reader.granted ++ granted⟩
  | .more 1 => some { reader with input := reader.input.drop 1 }
  | _ => none

variable {reader reader' : Reader}

theorem next_consume {n : ℕ} {phase : Phase} {expectedTerms : ℕ} {terms : List Bytes}
    {granted : List Request} (h : reader.move = .consume n phase expectedTerms terms granted) :
    reader.next =
      some ⟨phase, terms, expectedTerms, reader.input.drop n, reader.granted ++ granted⟩ := by
  rw [next, h]

theorem next_skip (h : reader.Skips) :
    reader.next = some { reader with input := reader.input.drop 1 } := by
  rw [next, h]
  rfl

theorem granted_skip (h : reader.Skips) (hnext : reader.next = some reader') :
    reader'.granted = reader.granted := by
  rw [next_skip h] at hnext
  cases hnext
  rfl

theorem next_refuse {sin : Sin} (h : reader.move = .refuse sin) : reader.next = none := by
  rw [next, h]

theorem next_needsMore (h : reader.virtue.NeedsMore) : reader.next = none := by
  unfold next move
  obtain h | h := h
  · rw [h]
  · rw [h]
    rfl

/-- What a step does. -/
theorem next_cases (h : reader.next = some reader') :
    (∃ n phase expectedTerms terms granted,
        reader.move = .consume n phase expectedTerms terms granted ∧ 0 < n ∧
          n ≤ reader.input.length ∧
          reader' = ⟨phase, terms, expectedTerms, reader.input.drop n,
            reader.granted ++ granted⟩) ∨
      (reader.Skips ∧ 0 < reader.input.length ∧
        reader' = { reader with input := reader.input.drop 1 }) := by
  have hfits := reader.virtue.move_fits
  rw [window_virtue] at hfits
  have hmove : reader.virtue.move = reader.move := rfl
  rw [hmove] at hfits
  unfold next at h
  split at h
  · rename_i n phase expectedTerms terms granted hconsume
    rw [hconsume] at hfits
    cases h
    exact .inl ⟨n, phase, expectedTerms, terms, granted, hconsume, hfits.1, hfits.2.1, rfl⟩
  · rename_i hskip
    rw [hskip] at hfits
    cases h
    exact .inr ⟨hskip, hfits, rfl⟩
  · cases h

theorem length_next_lt (reader reader' : Reader) (h : reader.next = some reader') :
    reader'.input.length < reader.input.length := by
  obtain ⟨n, phase, expectedTerms, terms, granted, -, hpos, hn, rfl⟩ | ⟨-, hpos, rfl⟩ :=
    next_cases h
  · rw [List.length_drop]
    omega
  · rw [List.length_drop]
    omega

/-- The states on the path can be looked up. -/
theorem mem_trace {bytes : Bytes} (h : Reaches next (.start bytes) reader) :
    reader ∈ Paths.trace next bytes.length (.start bytes) := by
  have hless : ∀ r r' : Reader, r.next = some r' → r'.input.length < r.input.length :=
    length_next_lt
  exact Paths.mem_trace hless (Nat.le_refl _) h

/-- The reader grants more and more. -/
theorem granted_reaches (h : Reaches next reader reader') : reader.granted <+: reader'.granted := by
  apply Paths.keeps (I := fun r => reader.granted <+: r.granted) _ h List.prefix_rfl
  intro r r' hr hnext
  obtain ⟨n, phase, expectedTerms, terms, granted, -, -, -, rfl⟩ | ⟨-, -, rfl⟩ := next_cases hnext
  · exact hr.trans (List.prefix_append _ _)
  · exact hr

theorem length_reaches (h : Reaches next reader reader') :
    reader'.input.length ≤ reader.input.length := by
  apply Paths.keeps (I := fun r => r.input.length ≤ reader.input.length) _ h (Nat.le_refl _)
  intro r r' hr hnext
  exact (length_next_lt r r' hnext).le.trans hr

end Reader

/-! ### A connection follows its reader -/

namespace Worker

/-- The reader in front of the window and the unread bytes. -/
def reader (worker : Worker) : Reader where
  phase := worker.virtue.phase
  terms := worker.virtue.terms
  expectedTerms := worker.virtue.expectedTerms
  input := worker.virtue.window ++ worker.stream.payload
  granted := worker.granted

/-- The reader makes the move of the window, unless the parser waits there for more bytes. -/
theorem reader_move {worker : Worker} {move : Move} (hmove : worker.virtue.move = move)
    (hstop : move ≠ .stop) (hmore : move ≠ .more 0) : worker.reader.move = move := by
  obtain hneeds | hsame :=
    Virtue.move_append (Reader.window_virtue worker.reader) ⟨rfl, rfl, rfl⟩
  · rw [Virtue.NeedsMore, hmove] at hneeds
    exact absurd hneeds (not_or.mpr ⟨hstop, hmore⟩)
  · exact hsame.trans hmove

end Worker

/-- A pass of the loop, by the move of the window. -/
inductive PassStep (build : Build) (worker : Worker) : Worker → WishJump → Prop
  | stop (h : worker.virtue.move = .stop) : PassStep build worker worker (.leave (.ok ()))
  | refuse {sin : Sin} (h : worker.virtue.move = .refuse sin) :
      PassStep build worker worker (.leave (.error sin))
  | consume {worker' : Worker} {n : ℕ} {phase : Phase} {expectedTerms : ℕ} {terms : List Bytes}
      {granted : List Request}
      (h : worker.virtue.move = .consume n phase expectedTerms terms granted)
      (hwindow : worker'.virtue.window = worker.virtue.window.drop n)
      (hreader : worker.reader.next = some worker'.reader)
      (hstream : worker'.stream = worker.stream) : PassStep build worker worker' .again
  | more {worker' : Worker} {jump : WishJump} (h : worker.virtue.move = .more 0)
      (hread : readMore build worker = .ok (worker', jump)) : PassStep build worker worker' jump
  | skip {worker' : Worker} {jump : WishJump} (h : worker.virtue.move = .more 1)
      (hwf : (worker.skip 1).virtue.WellFormed) (hskips : worker.reader.Skips)
      (hreader : worker.reader.next = some (worker.skip 1).reader)
      (hread : readMore build (worker.skip 1) = .ok (worker', jump)) :
      PassStep build worker worker' jump

section Steps

variable {worker worker' : Worker} {jump : WishJump} (build : Build)
  (hwf : worker.virtue.WellFormed)

include hwf

theorem pass_step (h : pass build worker = .ok (worker', jump)) :
    PassStep build worker worker' jump := by
  cases pass_moves build hwf h with
  | stop hmove => exact .stop hmove
  | refuse hmove => exact .refuse hmove
  | @consume n phase expectedTerms terms granted hmove positive inside =>
      have hwindow := worker.virtue.window_consume n
      refine .consume hmove hwindow ?_ rfl
      rw [Reader.next_consume (Worker.reader_move hmove (by simp) (by simp))]
      congr 2
      show (worker.virtue.window ++ worker.stream.payload).drop n = _
      rw [List.drop_append_of_le_length inside, ← hwindow]
      rfl
  | more hmove inside wf hread =>
      obtain rfl | rfl := Virtue.move_more hmove
      · exact .more hmove hread
      · have hskips : worker.reader.Skips := Worker.reader_move hmove (by simp) (by simp)
        refine .skip hmove wf hskips ?_ hread
        rw [Reader.next_skip hskips]
        congr 2
        show (worker.virtue.window ++ worker.stream.payload).drop 1 = _
        rw [List.drop_append_of_le_length inside, ← worker.skip_window 1]
        rfl

/-- Reading brings the bytes from the socket into the window, and changes no more. -/
theorem readMore_reader (h : readMore build worker = .ok (worker', jump)) :
    worker'.reader = worker.reader := by
  cases readMore_step hwf h with
  | failed => rfl
  | blocked wf same window payload =>
      simp only [Worker.reader, same.phase, same.terms, same.expectedTerms, window, payload]
  | received bytes wf same nonempty window payload =>
      simp only [Worker.reader, same.phase, same.terms, same.expectedTerms, window, payload,
        List.append_assoc]

end Steps

theorem length_window_le {bytes : Bytes} {worker : Worker}
    (h : Reaches Reader.next (.start bytes) worker.reader) :
    worker.virtue.window.length ≤ bytes.length := by
  have hlength := Reader.length_reaches h
  rw [Worker.reader, List.length_append] at hlength
  exact (Nat.le_add_right _ _).trans hlength

/-- The reader of a new connection. -/
theorem reader_new (stream : TcpStream) :
    (Pilgrim.new stream).worker.reader = Reader.start stream.payload := rfl

/-! ### Where a connection waits -/

/-- Between two calls the connection waits for more bytes, or it stands behind a byte that it has
skipped, whatever is in its window. -/
def Awaits (bytes : Bytes) (worker : Worker) : Prop :=
  worker.virtue.NeedsMore ∨
    ∃ reader, Reaches Reader.next (.start bytes) reader ∧ reader.Skips ∧
      reader.next = some worker.reader

/-- The input stays open, and all of it fits into the largest buffer. -/
def TcpStream.Whole (stream : TcpStream) : Prop :=
  stream.Open ∧ stream.payload.length ≤ 64 * 1024 * 1024 - 1024

/-- How a call leaves a connection: waiting, or with an error, namely that of the parser if the
input is whole. -/
def Leaves (stream : TcpStream) (worker : Worker) : Except Sin Unit → Prop
  | .ok _ => Awaits stream.payload worker
  | .error sin => stream.Whole → worker.reader.move = .refuse sin

/-- On the path of the reader, and open if the input is whole. -/
structure OnPath (stream : TcpStream) (worker : Worker) : Prop where
  reaches : Reaches Reader.next (.start stream.payload) worker.reader
  stays : stream.Whole → worker.stream.Open

section OnPath

variable {stream : TcpStream} {worker worker' : Worker} {jump : WishJump} (build : Build)
  (hwf : worker.virtue.WellFormed)

include hwf

/-- A connection that waits and reads, goes on or waits again. -/
theorem OnPath.readMore (h : OnPath stream worker) (hawaits : Awaits stream.payload worker)
    (hread : Heaven.readMore build worker = .ok (worker', jump)) :
    jump.Leads (OnPath stream)
      (fun worker result => OnPath stream worker ∧ Leaves stream worker result) worker' := by
  have hreader := readMore_reader build hwf hread
  have hreaches := h.reaches
  rw [← hreader] at hreaches
  cases readMore_step hwf hread with
  | failed full =>
      refine ⟨h, ?_⟩
      intro hwhole
      have hlarge := full (h.stays hwhole)
      have hsmall := (length_window_le h.reaches).trans hwhole.2
      omega
  | blocked wf same window payload stays =>
      refine ⟨⟨hreaches, fun hwhole => stays (h.stays hwhole)⟩, ?_⟩
      obtain hneeds | ⟨reader, hpath, hskips, hnext⟩ := hawaits
      · exact .inl (hneeds.congr window same)
      · exact .inr ⟨reader, hpath, hskips, hnext.trans (congrArg some hreader.symm)⟩
  | received bytes wf same nonempty window payload stays =>
      exact ⟨hreaches, fun hwhole => stays (h.stays hwhole)⟩

/-- The step lemma. -/
theorem OnPath.pass (h : OnPath stream worker)
    (hpass : Heaven.pass build worker = .ok (worker', jump)) :
    jump.Leads (OnPath stream)
      (fun worker result => OnPath stream worker ∧ Leaves stream worker result) worker' := by
  cases pass_step build hwf hpass with
  | stop hmove => exact ⟨h, .inl (.inl hmove)⟩
  | refuse hmove => exact ⟨h, fun _ => Worker.reader_move hmove (by simp) (by simp)⟩
  | consume hmove hwindow hreader hstream =>
      refine ⟨h.reaches.tail hreader, ?_⟩
      rw [hstream]
      exact h.stays
  | more hmove hread => exact h.readMore build hwf (.inl (.inr hmove)) hread
  | skip hmove hwf' hskips hreader hread =>
      have hskipped : OnPath stream (worker.skip 1) := ⟨h.reaches.tail hreader, h.stays⟩
      exact hskipped.readMore build hwf' (.inr ⟨_, h.reaches, hskips, hreader⟩) hread

end OnPath

/-- **Every call leaves the connection waiting on the path of its reader**, or ends with an
error. -/
theorem leaves_of_calls {build : Build} {stream : TcpStream} {n : ℕ} {pilgrim : Pilgrim}
    {result : Except Sin Unit} (h : calls build (.new stream) n = some (.ok (pilgrim, result))) :
    OnPath stream pilgrim.worker ∧ Leaves stream pilgrim.worker result := by
  have hnew : OnPath stream (Pilgrim.new stream).worker := ⟨.refl, fun hwhole => hwhole.1⟩
  have hwindow : (Pilgrim.new stream).worker.virtue.window = [] := rfl
  have hread : ∀ worker worker' jump, worker.virtue.WellFormed →
      OnPath stream worker ∧ Leaves stream worker (.ok ()) →
        readMore build worker = .ok (worker', jump) →
          jump.Leads (OnPath stream)
            (fun worker result => OnPath stream worker ∧ Leaves stream worker result) worker' :=
    fun _ _ _ hwf hrest hread => hrest.1.readMore build hwf hrest.2 hread
  have hpass : ∀ worker worker' jump, worker.virtue.WellFormed → OnPath stream worker →
      pass build worker = .ok (worker', jump) →
        jump.Leads (OnPath stream)
          (fun worker result => OnPath stream worker ∧ Leaves stream worker result) worker' :=
    fun _ _ _ hwf hloop hpass => hloop.pass build hwf hpass
  exact calls_leads hread hpass (Pilgrim.wellFormed_new stream)
    ⟨hnew, .inl (Virtue.needsMore_of_window_eq_nil hwindow)⟩ h

/-- Inside the calls too. -/
theorem onPath_of_atLoop {build : Build} {stream : TcpStream} {head : Worker}
    (h : AtLoop build (.new stream) head) : OnPath stream head := by
  obtain ⟨n, pilgrim, entry, hcalls, hread, hhead⟩ := h
  have hwf := calls_keeps (Pilgrim.wellFormed_new stream) hcalls
  obtain ⟨hpath, hawaits⟩ := leaves_of_calls hcalls
  have hentry : OnPath stream entry := hpath.readMore build hwf hawaits hread
  have hkeep : ∀ w w' : Worker, (w.virtue.WellFormed ∧ OnPath stream w) →
      pass build w = .ok (w', .again) → w'.virtue.WellFormed ∧ OnPath stream w' := by
    rintro w w' ⟨hw, hw'⟩ hpass
    exact ⟨(pass_keeps build hw hpass).1, hw'.pass build hw hpass⟩
  exact (hhead.keeps hkeep ⟨(readMore_keeps build hwf hread).1, hentry⟩).2

end Heaven
