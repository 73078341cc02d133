import Heaven.Lib.Requests
import Heaven.Reader

/-! # Malformed input

What the parser has consumed is a sequence of arrays and the front of another one
(`FollowsArrays`), until it skips a byte in the place of a marker.  So the requests it has granted
are those that stand in front of it, and what is in its window behind them is an array that has
begun (`rejects_malformed`).

The parser judges a line or a bulk string when all of it is there: a wrong byte inside is answered
then, and not before. -/

namespace Heaven

open Decimal (ascii)
open Resp (IsNumber IsBulkString IsArray IsSequence IsFront Unended Begun crlf)
open StateTransition (Reaches)

/-! ### Lines and numbers -/

theorem line_of_findCrlf : ∀ {bytes : Bytes} {i : ℕ}, findCrlf bytes = some i →
    bytes = bytes.take i ++ crlf ++ bytes.drop (i + 2)
  | [], _, h => nomatch h
  | [_], _, h => nomatch h
  | a :: b :: rest, i, h => by
      rw [findCrlf] at h
      split_ifs at h with hcrlf
      · obtain ⟨rfl, rfl⟩ := hcrlf
        cases h
        rfl
      · obtain ⟨j, hj, rfl⟩ := Option.map_eq_some_iff.mp h
        exact congrArg (a :: ·) (line_of_findCrlf hj)

theorem findCrlf_ne_none (rest : Bytes) : ∀ line : Bytes, findCrlf (line ++ crlf ++ rest) ≠ none
  | [] => by
      show findCrlf (13 :: 10 :: rest) ≠ none
      rw [findCrlf, if_pos ⟨rfl, rfl⟩]
      exact Option.some_ne_none _
  | [a] => by
      show findCrlf (a :: 13 :: 10 :: rest) ≠ none
      rw [findCrlf]
      split_ifs
      · exact Option.some_ne_none _
      · rw [findCrlf, if_pos ⟨rfl, rfl⟩]
        exact Option.some_ne_none _
  | a :: b :: line => by
      have ih := findCrlf_ne_none rest (b :: line)
      show findCrlf (a :: b :: (line ++ crlf ++ rest)) ≠ none
      rw [findCrlf]
      split_ifs
      · exact Option.some_ne_none _
      · intro hnone
        exact ih (Option.map_eq_none_iff.mp hnone)

theorem unended_of_findCrlf {bytes : Bytes} (h : findCrlf bytes = none) : Unended bytes := by
  rintro ⟨line, rest, rfl⟩
  exact findCrlf_ne_none rest line h

theorem isNumber_of_bytesToUsize {digits : Bytes} {n : ℕ} (h : bytesToUsize digits = .ok n) :
    IsNumber digits n := by
  rw [bytesToUsize, parseUnsigned_eq] at h
  split_ifs at h with hdigits
  obtain ⟨hne, hall, -⟩ := hdigits
  refine ⟨?_, Except.ok.inj h⟩
  rw [Resp.isNumber, hall, Bool.and_true, Bool.not_eq_true', List.isEmpty_eq_false_iff]
  exact hne

/-! ### What has been consumed -/

/-- What the parser has consumed of the array that it is in. -/
def Consumed (phase : Phase) (terms : List Bytes) (count : ℕ) (begun : Bytes) : Prop :=
  match phase with
  | .idle => terms = [] ∧ begun = []
  | .awaitingTermCount => terms = [] ∧ begun = [42]
  | .graspingMarker => IsFront begun terms count
  | .awaitingBulkStringLength => ∃ front, IsFront front terms count ∧ begun = front ++ [36]
  | .awaitingBulkString len =>
      ∃ front digits, IsFront front terms count ∧ IsNumber digits len ∧
        begun = front ++ 36 :: (digits ++ crlf)

/-- The line that ends in the window, with its CRLF. -/
theorem take_line {window : Bytes} {i : ℕ} (h : findCrlf window = some i) :
    window.take (i + 2) = window.take i ++ crlf := by
  have hline := line_of_findCrlf h
  have hlength : (window.take i ++ crlf).length = i + 2 := by
    have hi := findCrlf_lt h
    rw [List.length_append, List.length_take_of_le (by omega)]
    rfl
  calc window.take (i + 2)
      = (window.take i ++ crlf ++ window.drop (i + 2)).take (i + 2) := by rw [← hline]
    _ = window.take i ++ crlf := List.take_left' hlength

/-- The bulk string at the head of the window. -/
theorem take_payload {window : Bytes} {len : ℕ} (hcrlf : (window.drop len).take 2 = [13, 10]) :
    window.take (len + 2) = window.take len ++ crlf := by
  rw [List.take_add, hcrlf]
  rfl

theorem isBulkString_take {window digits : Bytes} {len : ℕ} (hlen : IsNumber digits len)
    (hinside : len + 2 ≤ window.length) :
    IsBulkString (36 :: (digits ++ crlf ++ window.take len ++ crlf)) (window.take len) := by
  apply IsBulkString.intro
  rw [List.length_take_of_le (by omega)]
  exact hlen

variable {virtue : Virtue} {whole begun : Bytes} {commands : List (List Bytes)}

/-- What is consumed ends an array, or prolongs the one that has begun. -/
theorem Consumed.consumes {n : ℕ} {phase : Phase} {expectedTerms : ℕ} {terms : List Bytes}
    {granted : List Request} (hwhole : IsSequence whole commands)
    (hbegun : Consumed virtue.phase virtue.terms virtue.expectedTerms begun)
    (h : virtue.Consumes n phase expectedTerms terms granted) :
    ∃ whole' begun', whole ++ begun ++ virtue.window.take n = whole' ++ begun' ∧
      IsSequence whole' (commands ++ granted.map Subtype.val) ∧
        Consumed phase terms expectedTerms begun' := by
  cases h with
  | array hphase hwindow =>
      rw [hphase] at hbegun
      obtain ⟨hterms, rfl⟩ := hbegun
      rw [hwindow, List.append_nil, List.map_nil, List.append_nil]
      exact ⟨whole, [42], rfl, hwhole, hterms, rfl⟩
  | count hphase hline hnumber =>
      rw [hphase] at hbegun
      obtain ⟨hterms, rfl⟩ := hbegun
      have hcount := isNumber_of_bytesToUsize hnumber
      rw [take_line hline, List.map_nil, List.append_nil, List.append_assoc, hterms]
      split_ifs with hzero
      · rw [hzero] at hcount
        have harray := hwhole.skip (.empty hcount)
        exact ⟨_, [], (List.append_nil _).symm, harray, rfl, rfl⟩
      · exact ⟨whole, _, rfl, hwhole, .start hcount (Nat.pos_of_ne_zero hzero)⟩
  | marker hphase hwindow =>
      rw [hphase] at hbegun
      rw [hwindow, List.map_nil, List.append_nil, List.append_assoc]
      exact ⟨whole, _, rfl, hwhole, begun, hbegun, rfl⟩
  | length hphase hline hnumber =>
      rw [hphase] at hbegun
      obtain ⟨front, hfront, rfl⟩ := hbegun
      have hlen := isNumber_of_bytesToUsize hnumber
      rw [take_line hline, List.map_nil, List.append_nil, List.append_assoc, List.append_assoc]
      exact ⟨whole, _, rfl, hwhole, front, _, hfront, hlen, rfl⟩
  | @term len hphase hinside hcrlf hmore =>
      rw [hphase] at hbegun
      obtain ⟨front, digits, hfront, hlen, rfl⟩ := hbegun
      have hitem := isBulkString_take hlen hinside
      have hfull := hfront.concat hitem (hfront.lt_of_ne hmore)
      rw [take_payload hcrlf, List.map_nil, List.append_nil, List.append_assoc]
      refine ⟨whole, _, ?_, hwhole, hfull⟩
      simp
  | @last len hphase hinside hcrlf hlast =>
      rw [hphase] at hbegun
      obtain ⟨front, digits, hfront, hlen, rfl⟩ := hbegun
      have hitem := isBulkString_take hlen hinside
      have harray := hwhole.command (hfront.last hitem hlast) (by simp)
      rw [take_payload hcrlf, List.append_assoc]
      refine ⟨_, [], ?_, harray, rfl, rfl⟩
      simp

/-- What has begun and lacks its end. -/
theorem begun_of_lacks (hbegun : Consumed virtue.phase virtue.terms virtue.expectedTerms begun)
    (hlacks : virtue.Lacks) : Begun (begun ++ virtue.window) := by
  unfold Virtue.Lacks at hlacks
  unfold Consumed at hbegun
  cases hphase : virtue.phase with
  | idle =>
      rw [hphase] at hbegun hlacks
      obtain ⟨-, rfl⟩ := hbegun
      dsimp only at hlacks
      rw [hlacks]
      exact .nothing
  | awaitingTermCount =>
      rw [hphase] at hbegun hlacks
      obtain ⟨-, rfl⟩ := hbegun
      exact .count (unended_of_findCrlf hlacks)
  | graspingMarker =>
      rw [hphase] at hbegun hlacks
      dsimp only at hlacks
      rw [hlacks, List.append_nil]
      exact .items hbegun
  | awaitingBulkStringLength =>
      rw [hphase] at hbegun hlacks
      obtain ⟨front, hfront, rfl⟩ := hbegun
      rw [List.append_assoc]
      exact .length hfront (unended_of_findCrlf hlacks)
  | awaitingBulkString len =>
      rw [hphase] at hbegun hlacks
      obtain ⟨front, digits, hfront, hlen, rfl⟩ := hbegun
      rw [List.append_assoc]
      exact .payload hfront hlen hlacks

/-! ### In front of the input that is left -/

/-- The reader has come behind a sequence of arrays, with the requests granted, and what it has
consumed of another array. -/
def FollowsArrays (bytes : Bytes) (reader : Reader) : Prop :=
  ∃ whole begun, bytes = whole ++ begun ++ reader.input ∧
    IsSequence whole (reader.granted.map Subtype.val) ∧
      Consumed reader.phase reader.terms reader.expectedTerms begun

variable {bytes : Bytes} {reader reader' : Reader}

theorem followsArrays_start (bytes : Bytes) : FollowsArrays bytes (.start bytes) :=
  ⟨[], [], rfl, .nil, rfl, rfl⟩

/-- The step lemma. -/
theorem FollowsArrays.next (h : FollowsArrays bytes reader) (hskips : ¬ reader.Skips)
    (hnext : reader.next = some reader') : FollowsArrays bytes reader' := by
  obtain ⟨whole, begun, hbytes, hwhole, hbegun⟩ := h
  obtain ⟨n, phase, expectedTerms, terms, granted, hmove, -, -, rfl⟩ | ⟨hskips', -⟩ :=
    Reader.next_cases hnext
  · obtain ⟨whole', begun', hconsumed, hwhole', hbegun'⟩ :=
      Consumed.consumes hwhole hbegun (Virtue.consumes_of_move hmove)
    rw [Reader.window_virtue] at hconsumed
    refine ⟨whole', begun', ?_, ?_, hbegun'⟩
    · rw [← hconsumed, List.append_assoc, List.take_append_drop]
      exact hbytes
    · rw [List.map_append]
      exact hwhole'
  · exact absurd hskips' hskips

/-- As far as no byte is skipped. -/
theorem followsArrays_of_until (h : Paths.Until Reader.next Reader.Skips (.start bytes) reader) :
    FollowsArrays bytes reader := by
  induction h with
  | refl => exact followsArrays_start bytes
  | tail _ hstep ih => exact ih.next hstep.2 hstep.1

/-! ### Malformed input is rejected -/

/-- So far no byte has been skipped in the place of a marker. -/
def Unskipped (stream : TcpStream) (worker : Worker) : Prop :=
  ∀ reader, Reaches Reader.next (.start stream.payload) reader → reader.Skips →
    Reaches Reader.next worker.reader reader

variable {build : Build} {stream : TcpStream} {worker : Worker}

theorem Unskipped.followsArrays (h : Unskipped stream worker) (hpath : OnPath stream worker) :
    FollowsArrays stream.payload worker.reader := by
  have hless : ∀ r r' : Reader, r.next = some r' → r'.input.length < r.input.length :=
    Reader.length_next_lt
  exact followsArrays_of_until (Paths.until_of_reaches hless hpath.reaches h)

/-- A connection that has skipped no byte waits for more bytes. -/
theorem Unskipped.needsMore (h : Unskipped stream worker)
    (hawaits : Awaits stream.payload worker) : worker.virtue.NeedsMore := by
  obtain hneeds | ⟨reader, hreader, hskips, hnext⟩ := hawaits
  · exact hneeds
  · have hless := Reader.length_next_lt _ _ hnext
    have hback := Reader.length_reaches (h reader hreader hskips)
    omega

/-- The bytes received, and those that are still in the socket. -/
theorem FollowsArrays.received (h : FollowsArrays bytes worker.reader) :
    ∃ whole begun, bytes = whole ++ (begun ++ worker.virtue.window) ++ worker.stream.payload ∧
      IsSequence whole (worker.granted.map Subtype.val) ∧
        Consumed worker.virtue.phase worker.virtue.terms worker.virtue.expectedTerms begun := by
  obtain ⟨whole, begun, hbytes, hwhole, hbegun⟩ := h
  refine ⟨whole, begun, ?_, hwhole, hbegun⟩
  rw [hbytes, Worker.reader]
  simp

/-- **Malformed input is rejected, as long as no byte is skipped in the place of a marker.**  Inside
every call the requests granted are the commands of a sequence of arrays that has been received.
After a call they are too, and if it has ended well, nothing has been received behind the sequence
but an array that has begun. -/
theorem rejects_malformed (build : Build) (stream : TcpStream) :
    (∀ head, AtLoop build (.new stream) head → Unskipped stream head →
      ∃ whole rest, stream.payload = whole ++ rest ++ head.stream.payload ∧
        IsSequence whole (head.granted.map Subtype.val)) ∧
      ∀ n pilgrim result, calls build (.new stream) n = some (.ok (pilgrim, result)) →
        Unskipped stream pilgrim.worker →
          ∃ whole rest, stream.payload = whole ++ rest ++ pilgrim.stream.payload ∧
            IsSequence whole (pilgrim.granted.map Subtype.val) ∧
              (result = .ok () → Begun rest) := by
  constructor
  · intro head hhead hunskipped
    have hfollows := hunskipped.followsArrays (onPath_of_atLoop hhead)
    obtain ⟨whole, begun, hbytes, hwhole, -⟩ := hfollows.received
    exact ⟨whole, _, hbytes, hwhole⟩
  · intro n pilgrim result hcalls hunskipped
    obtain ⟨hpath, hleaves⟩ := leaves_of_calls hcalls
    obtain ⟨whole, begun, hbytes, hwhole, hbegun⟩ := (hunskipped.followsArrays hpath).received
    refine ⟨whole, _, hbytes, hwhole, ?_⟩
    rintro rfl
    exact begun_of_lacks hbegun (hunskipped.needsMore hleaves).lacks

/-- No byte is skipped in the whole input. -/
theorem unskipped_of_trace (h : ((Paths.trace Reader.next stream.payload.length
    (.start stream.payload)).all fun reader =>
      match reader.move with
      | .more 1 => false
      | _ => true) = true) : Unskipped stream worker := by
  intro reader hreader hskips
  have hmove := List.all_eq_true.mp h reader (Reader.mem_trace hreader)
  rw [(hskips : reader.move = .more 1)] at hmove
  cases hmove

/-- An empty array, PING, and the beginning of a third array that has come to its count. -/
theorem rejects_malformed_ping :
    ∃ pilgrim, calls .release (.new [.data 42 (ascii "0\r\n*1\r\n$4\r\nPING\r\n*x")]) 1 =
        some (.ok (pilgrim, .ok ())) ∧
      ∃ whole rest, ascii "*0\r\n*1\r\n$4\r\nPING\r\n*x" = whole ++ rest ∧
        IsSequence whole [[ascii "PING"]] ∧ Begun rest := by
  obtain ⟨pilgrim, result, hcalls, htest⟩ := exists_calls
    (by decide +kernel : (calls .release
      (.new [.data 42 (ascii "0\r\n*1\r\n$4\r\nPING\r\n*x")]) 1).map (·.map fun out =>
        decide (out.1.granted = [⟨[ascii "PING"], List.cons_ne_nil _ _⟩] ∧ out.1.stream = [] ∧
          out.2 = .ok ())) = some (.ok true))
  obtain ⟨hgranted, hdry, rfl⟩ := of_decide_eq_true htest
  obtain ⟨whole, rest, hbytes, hwhole, hrest⟩ := (rejects_malformed .release _).2 1 pilgrim _ hcalls
    (unskipped_of_trace (by decide +kernel))
  rw [hdry, TcpStream.payload, List.append_nil] at hbytes
  rw [hgranted] at hwhole
  exact ⟨pilgrim, hcalls, whole, rest, hbytes, hwhole, hrest rfl⟩

/-- Behind a count of one comes another byte than the marker. -/
theorem not_isSequence_of_skip {bytes rest : Bytes} {commands : List (List Bytes)}
    (hne : commands ≠ []) (hbytes : bytes ++ rest = ascii "*1\r\nx$4\r\nPING\r\n") :
    ¬ IsSequence bytes commands := by
  intro h
  obtain ⟨-, hnone⟩ | ⟨array, terms, more, ⟨hcount, hitems⟩, rfl⟩ := h.head
  · exact hne hnone
  · rename_i digits items
    have hline : digits ++ crlf ++ (items.flatten ++ (more ++ rest)) =
        ascii "1\r\nx$4\r\nPING\r\n" := by
      have htail : digits ++ crlf ++ items.flatten ++ more ++ rest =
          ascii "1\r\nx$4\r\nPING\r\n" := congrArg List.tail hbytes
      rw [← htail]
      simp only [List.append_assoc]
    have hdigits := hcount.takeWhile (items.flatten ++ (more ++ rest))
    rw [hline] at hdigits
    have hone : digits = [49] := by
      rw [← hdigits]
      decide
    subst hone
    have hlength : terms.length = 1 := hcount.2.symm
    obtain ⟨term, rfl⟩ := List.length_eq_one_iff.mp hlength
    cases hitems with
    | cons hitem hnil =>
        cases hitem
        cases hline

theorem not_isSequence_of_letter {more : Bytes} {commands : List (List Bytes)} :
    ¬ IsSequence (ascii "*x" ++ more) commands := by
  intro h
  obtain ⟨hnil, -⟩ | ⟨array, terms, rest, ⟨hcount, hitems⟩, hbytes⟩ := h.head
  · cases hnil
  · rename_i digits items
    have hline : 120 :: more = digits ++ crlf ++ (items.flatten ++ rest) := by
      have htail : 120 :: more = digits ++ crlf ++ items.flatten ++ rest :=
        congrArg List.tail hbytes
      rw [htail]
      simp only [List.append_assoc]
    have hdigits := hcount.takeWhile (items.flatten ++ rest)
    rw [← hline] at hdigits
    have hnone : digits = [] := by
      rw [← hdigits]
      rfl
    rw [hnone] at hcount
    cases hcount.1

/-- Behind a byte in the place of a marker PING is granted, and a letter in the place of a digit is
not answered. -/
theorem malformed_granted_and_unanswered :
    (¬ ∀ build stream n pilgrim result,
      calls build (.new stream) n = some (.ok (pilgrim, result)) →
        ∃ whole rest, stream.payload = whole ++ rest ∧
          IsSequence whole (pilgrim.granted.map Subtype.val)) ∧
      ¬ ∀ build stream n pilgrim,
        calls build (.new stream) n = some (.ok (pilgrim, .ok ())) →
          ∀ received, stream.payload = received ++ pilgrim.stream.payload →
            ∃ more commands, IsSequence (received ++ more) commands := by
  constructor
  · intro h
    obtain ⟨pilgrim, result, hcalls, hgranted⟩ := exists_calls
      (by decide +kernel : (calls .release
        (.new [.data 42 (ascii "1\r\nx"), .data 36 (ascii "4\r\nPING\r\n")]) 2).map
          (·.map fun out => decide (out.1.granted = [⟨[ascii "PING"], List.cons_ne_nil _ _⟩])) =
            some (.ok true))
    obtain ⟨whole, rest, hbytes, hwhole⟩ := h _ _ _ _ _ hcalls
    rw [of_decide_eq_true hgranted] at hwhole
    exact not_isSequence_of_skip (List.cons_ne_nil _ _) hbytes.symm hwhole
  · intro h
    obtain ⟨pilgrim, result, hcalls, htest⟩ := exists_calls
      (by decide +kernel : (calls .release (.new [.data 42 (ascii "x")]) 1).map (·.map fun out =>
        decide (out.1.stream = [] ∧ out.2 = .ok ())) = some (.ok true))
    obtain ⟨hdry, rfl⟩ := of_decide_eq_true htest
    have hreceived : TcpStream.payload [.data 42 (ascii "x")] =
        ascii "*x" ++ pilgrim.stream.payload := by
      rw [hdry]
      rfl
    obtain ⟨more, commands, hwhole⟩ := h _ _ _ _ hcalls _ hreceived
    exact not_isSequence_of_letter hwhole

end Heaven
