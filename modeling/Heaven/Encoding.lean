import Heaven.Window

/-! # Requests on the wire

The encoding a client sends: `*` and the number of terms, then for each term `$`, its length and
its bytes, every number and every term ended by CRLF.

`Place` lists the places of the parser inside the encoding of a sequence of requests: what its
phase, its terms and its number of expected terms say about the bytes that follow.  `move_place`
is the step lemma: as long as the window and the bytes that are still to come spell out a place,
the parser never refuses; it consumes its way to the next place or waits, and it waits only while
the first request of the sequence is incomplete. -/

namespace Heaven

open Decimal (print)

def encodeTerm (term : Bytes) : Bytes :=
  36 :: print term.length ++ [13, 10] ++ term ++ [13, 10]

def encodeTerms (terms : List Bytes) : Bytes := terms.flatMap encodeTerm

def encode (request : Request) : Bytes :=
  42 :: print request.val.length ++ [13, 10] ++ encodeTerms request.val

def encodeAll (requests : List Request) : Bytes := requests.flatMap encode

/-- The requests whose encodings lie completely inside the first `n` bytes. -/
def completeWithin : List Request → ℕ → List Request
  | [], _ => []
  | request :: requests, n =>
      if (encode request).length ≤ n then
        request :: completeWithin requests (n - (encode request).length)
      else []

/-- What the server can read: fewer than `2 ^ 64` terms, and each of them fits into the largest
buffer together with its CRLF. -/
def Request.Fits (request : Request) : Prop :=
  request.val.length < 2 ^ 64 ∧ ∀ term ∈ request.val, term.length ≤ 64 * 1024 * 1024 - 1026

instance (request : Request) : Decidable request.Fits := inferInstanceAs (Decidable (_ ∧ _))

theorem encodeAll_cons (request : Request) (requests : List Request) :
    encodeAll (request :: requests) = encode request ++ encodeAll requests :=
  List.flatMap_cons

theorem encodeAll_cons_eq (request : Request) (requests : List Request) :
    encodeAll (request :: requests) = 42 :: (print request.val.length ++ 13 :: 10 ::
      (encodeTerms request.val ++ encodeAll requests)) := by
  simp [encodeAll_cons, encode]

theorem encodeAll_append (requests requests' : List Request) :
    encodeAll (requests ++ requests') = encodeAll requests ++ encodeAll requests' :=
  List.flatMap_append

theorem completeWithin_append (done todo : List Request) (n : ℕ) :
    completeWithin (done ++ todo) ((encodeAll done).length + n) =
      done ++ completeWithin todo n := by
  induction done with
  | nil =>
      show completeWithin todo (0 + n) = completeWithin todo n
      rw [Nat.zero_add]
  | cons request done ih =>
      rw [List.cons_append, completeWithin, encodeAll_cons, List.length_append,
        if_pos (by omega), List.cons_append, ← ih]
      congr 2
      omega

/-! ### Places -/

/-- The places of the parser in the encoding of the requests still to be granted, with the bytes
that follow. -/
inductive Place : Phase → List Bytes → ℕ → List Request → Bytes → Prop
  | idle (expectedTerms : ℕ) (todo : List Request) :
      Place .idle [] expectedTerms todo (encodeAll todo)
  | termCount (expectedTerms : ℕ) (request : Request) (todo : List Request) :
      Place .awaitingTermCount [] expectedTerms (request :: todo)
        (print request.val.length ++ 13 :: 10 :: (encodeTerms request.val ++ encodeAll todo))
  | marker (done : List Bytes) (term : Bytes) (rest : List Bytes)
      (h : done ++ term :: rest ≠ []) (todo : List Request) :
      Place .graspingMarker done (done ++ term :: rest).length (⟨done ++ term :: rest, h⟩ :: todo)
        (36 :: (print term.length ++ 13 :: 10 ::
          (term ++ 13 :: 10 :: (encodeTerms rest ++ encodeAll todo))))
  | length (done : List Bytes) (term : Bytes) (rest : List Bytes)
      (h : done ++ term :: rest ≠ []) (todo : List Request) :
      Place .awaitingBulkStringLength done (done ++ term :: rest).length
        (⟨done ++ term :: rest, h⟩ :: todo)
        (print term.length ++ 13 :: 10 ::
          (term ++ 13 :: 10 :: (encodeTerms rest ++ encodeAll todo)))
  | bulkString (done : List Bytes) (term : Bytes) (rest : List Bytes)
      (h : done ++ term :: rest ≠ []) (todo : List Request) :
      Place (.awaitingBulkString term.length) done (done ++ term :: rest).length
        (⟨done ++ term :: rest, h⟩ :: todo)
        (term ++ 13 :: 10 :: (encodeTerms rest ++ encodeAll todo))

/-- The first request of `todo` is not complete before the unread bytes. -/
def Incomplete (todo : List Request) (unread : Bytes) : Prop :=
  ∀ request todo', todo = request :: todo' → (encodeAll todo').length < unread.length

theorem encodeTerms_cons (term : Bytes) (rest : List Bytes) (tail : Bytes) :
    encodeTerms (term :: rest) ++ tail = 36 :: (print term.length ++ 13 :: 10 ::
      (term ++ 13 :: 10 :: (encodeTerms rest ++ tail))) := by
  simp [encodeTerms, encodeTerm]

theorem Incomplete.cons {request : Request} {todo : List Request} {unread : Bytes}
    (h : (encodeAll todo).length < unread.length) : Incomplete (request :: todo) unread := by
  intro request' todo' htodo
  cases htodo
  exact h

theorem Incomplete.of_lt {request : Request} {todo : List Request} {unread rest : Bytes}
    (h : (encodeAll todo).length ≤ rest.length) (hlt : rest.length < unread.length) :
    Incomplete (request :: todo) unread :=
  .cons (h.trans_lt hlt)

/-- The encoding of a request from one of its terms on, with the requests that follow. -/
theorem length_encodeAll_ge (done : List Bytes) (term : Bytes) (rest : List Bytes)
    (h : done ++ term :: rest ≠ []) (todo : List Request) :
    (encodeTerm term ++ (encodeTerms rest ++ encodeAll todo)).length ≤
      (encodeAll (⟨done ++ term :: rest, h⟩ :: todo)).length := by
  have hterms : encodeTerms (done ++ term :: rest) =
      encodeTerms done ++ (encodeTerm term ++ encodeTerms rest) := by
    simp [encodeTerms]
  rw [encodeAll_cons, encode, hterms]
  simp only [List.length_append]
  omega

/-- The bytes from a place on are at most those of the requests, and more than those of the
requests after the first. -/
theorem Place.length_rest {phase : Phase} {terms : List Bytes} {expectedTerms : ℕ}
    {todo : List Request} {rest : Bytes} (h : Place phase terms expectedTerms todo rest) :
    rest.length ≤ (encodeAll todo).length ∧ Incomplete todo rest := by
  cases h with
  | idle =>
      refine ⟨Nat.le_refl _, ?_⟩
      intro request todo' htodo
      rw [htodo, encodeAll_cons, List.length_append, encode, List.length_append,
        List.length_append, List.length_cons]
      omega
  | termCount request todo =>
      refine ⟨?_, .cons ?_⟩
      · rw [encodeAll_cons, encode]
        simp only [List.length_append, List.length_cons, List.length_nil]
        omega
      · simp only [List.length_append, List.length_cons]
        omega
  | marker done term rest hne todo =>
      have hlength := length_encodeAll_ge _ term rest hne todo
      rw [encodeTerm] at hlength
      simp only [List.length_append, List.length_cons, List.length_nil] at hlength ⊢
      refine ⟨by omega, .cons ?_⟩
      simp only [List.length_append, List.length_cons]
      omega
  | length done term rest hne todo =>
      have hlength := length_encodeAll_ge _ term rest hne todo
      rw [encodeTerm] at hlength
      simp only [List.length_append, List.length_cons, List.length_nil] at hlength ⊢
      refine ⟨by omega, .cons ?_⟩
      simp only [List.length_append, List.length_cons]
      omega
  | bulkString done term rest hne todo =>
      have hlength := length_encodeAll_ge _ term rest hne todo
      rw [encodeTerm] at hlength
      simp only [List.length_append, List.length_cons, List.length_nil] at hlength ⊢
      refine ⟨by omega, .cons ?_⟩
      simp only [List.length_append, List.length_cons]
      omega

/-! ### Moves between places -/

/-- Where the window and the unread bytes meet an item and its rest. -/
theorem split_item {window unread rest : Bytes} (item : Bytes)
    (h : window ++ unread = item ++ rest) (hle : item.length ≤ window.length) :
    window.take item.length = item ∧ window.drop item.length ++ unread = rest := by
  constructor
  · rw [← List.take_append_of_le_length hle, h, List.take_left]
  · rw [← List.drop_append_of_le_length hle, h, List.drop_left]

theorem split_first {window unread rest : Bytes} {b : UInt8}
    (h : window ++ unread = b :: rest) (hne : window ≠ []) :
    ∃ window', window = b :: window' ∧ window.drop 1 ++ unread = rest := by
  cases window with
  | nil => exact absurd rfl hne
  | cons first window' =>
      obtain ⟨rfl, hrest⟩ := List.cons.inj h
      exact ⟨window', rfl, hrest⟩

namespace Virtue

variable {virtue : Virtue} {unread rest : Bytes}

theorem move_awaitingTermCount (hphase : virtue.phase = .awaitingTermCount)
    (hne : virtue.window ≠ []) : virtue.move = virtue.takeNumber fun n number =>
      .consume n (if number = 0 then .idle else .graspingMarker) number virtue.terms [] := by
  obtain ⟨first, window, hwindow⟩ := List.exists_cons_of_ne_nil hne
  rw [move, hwindow]
  dsimp only
  rw [hphase]

theorem move_awaitingBulkStringLength (hphase : virtue.phase = .awaitingBulkStringLength)
    (hne : virtue.window ≠ []) : virtue.move = virtue.takeNumber fun n number =>
      .consume n (.awaitingBulkString number) virtue.expectedTerms virtue.terms [] := by
  obtain ⟨first, window, hwindow⟩ := List.exists_cons_of_ne_nil hne
  rw [move, hwindow]
  dsimp only
  rw [hphase]

/-- The line of a number is read as soon as it is in the window. -/
theorem takeNumber_line {next : ℕ → ℕ → Move} {number : ℕ}
    (h : virtue.window ++ unread = print number ++ 13 :: 10 :: rest) :
    virtue.takeNumber next =
      if (print number).length + 2 ≤ virtue.window.length then
        if number < 2 ^ 64 then next ((print number).length + 2) number else .refuse .parseError
      else .more 0 := by
  have hcr : 13 ∉ print number := by
    intro hmem
    have hdigit := Decimal.isDigit_of_mem_print number 13 hmem
    exact absurd hdigit (by decide)
  rw [takeNumber, findCrlf_of_append hcr h]
  by_cases hle : (print number).length + 2 ≤ virtue.window.length
  · rw [if_pos hle, if_pos hle]
    dsimp only
    have hline := split_item (print number) h (by omega)
    rw [hline.1, bytesToUsize, parseUnsigned_print]
    by_cases hnumber : number < 2 ^ 64
    · rw [if_pos hnumber, if_pos (by omega)]
    · rw [if_neg hnumber, if_neg (by omega)]
  · rw [if_neg hle, if_neg hle]

/-- A number is taken when its line is in the window; until then there are at most 21 bytes. -/
theorem takeNumber_place {next : ℕ → ℕ → Move} (hmove : virtue.move = virtue.takeNumber next)
    {number : ℕ} (hnumber : number < 2 ^ 64)
    (h : virtue.window ++ unread = print number ++ 13 :: 10 :: rest) :
    (virtue.move = next ((print number).length + 2) number ∧
        virtue.window.drop ((print number).length + 2) ++ unread = rest) ∨
      (virtue.move = .more 0 ∧ virtue.window.length ≤ 21 ∧
        rest.length < unread.length) := by
  have hdigits : (print number).length ≤ 20 :=
    Decimal.length_print_le (by omega) (lt_trans hnumber (by norm_num))
  have hlength := congrArg List.length h
  simp only [List.length_append, List.length_cons] at hlength
  rw [hmove, takeNumber_line h, if_pos hnumber]
  by_cases hle : (print number).length + 2 ≤ virtue.window.length
  · rw [if_pos hle]
    have hwhole : virtue.window ++ unread = (print number ++ [13, 10]) ++ rest := by
      rw [h, List.append_assoc]
      rfl
    have hinside : (print number ++ [13, 10]).length ≤ virtue.window.length := by
      rw [List.length_append]
      exact hle
    have hrest := split_item (print number ++ [13, 10]) hwhole hinside
    rw [List.length_append] at hrest
    exact .inl ⟨rfl, hrest.2⟩
  · rw [if_neg hle]
    exact .inr ⟨rfl, by omega, by omega⟩

/-- A number that is no `usize` is refused when its line is in the window. -/
theorem takeNumber_huge {next : ℕ → ℕ → Move} (hmove : virtue.move = virtue.takeNumber next)
    {number : ℕ} (hnumber : 2 ^ 64 ≤ number)
    (h : virtue.window ++ unread = print number ++ 13 :: 10 :: rest) :
    virtue.move = .more 0 ∨ ∃ sin, virtue.move = .refuse sin := by
  have hrefuse : ¬ number < 2 ^ 64 := by omega
  rw [hmove, takeNumber_line h, if_neg hrefuse]
  split_ifs
  · exact .inr ⟨_, rfl⟩
  · exact .inl rfl

/-- A term is taken when it is in the window with its CRLF. -/
theorem takeTerm_place {term : Bytes} (h : virtue.window ++ unread = term ++ 13 :: 10 :: rest) :
    (virtue.takeTerm term.length =
          (if (virtue.terms ++ [term]).length = virtue.expectedTerms then
            .consume (term.length + 2) .idle virtue.expectedTerms []
              [⟨virtue.terms ++ [term],
                List.append_ne_nil_of_right_ne_nil _ (List.cons_ne_nil _ _)⟩]
          else .consume (term.length + 2) .graspingMarker virtue.expectedTerms
            (virtue.terms ++ [term]) []) ∧
        virtue.window.drop (term.length + 2) ++ unread = rest) ∨
      (virtue.takeTerm term.length = .more 0 ∧ virtue.window.length < term.length + 2 ∧
        rest.length < unread.length) := by
  have hlength := congrArg List.length h
  simp only [List.length_append, List.length_cons] at hlength
  unfold takeTerm
  by_cases hshort : virtue.window.length < term.length + 2
  · rw [if_pos hshort]
    exact .inr ⟨rfl, hshort, by omega⟩
  · rw [if_neg hshort]
    have hterm := split_item term h (by omega)
    have hbehind : [(13 : UInt8), 10].length ≤ (virtue.window.drop term.length).length := by
      rw [List.length_drop, List.length_cons, List.length_singleton]
      omega
    have hcrlf := split_item [13, 10] hterm.2 hbehind
    have hwhole : virtue.window ++ unread = (term ++ [13, 10]) ++ rest := by
      rw [h, List.append_assoc]
      rfl
    have hinside : (term ++ [13, 10]).length ≤ virtue.window.length := by
      rw [List.length_append, List.length_cons, List.length_singleton]
      omega
    have hrest := split_item (term ++ [13, 10]) hwhole hinside
    rw [List.length_append] at hrest
    rw [if_neg (fun hne => hne hcrlf.1)]
    refine .inl ⟨?_, hrest.2⟩
    simp only [hterm.1]

end Virtue

/-- The parser goes on to the next place, and grants what it leaves behind. -/
def GoesOn (virtue : Virtue) (todo : List Request) (unread : Bytes) : Prop :=
  ∃ n phase expectedTerms terms granted todo',
    virtue.move = .consume n phase expectedTerms terms granted ∧ todo = granted ++ todo' ∧
      Place phase terms expectedTerms todo' (virtue.window.drop n ++ unread)

/-- The parser waits: its window is small, and the first request is incomplete. -/
def Waits (virtue : Virtue) (todo : List Request) (unread : Bytes) : Prop :=
  (virtue.move = .stop ∨ virtue.move = .more 0) ∧
    virtue.window.length ≤ 64 * 1024 * 1024 - 1024 ∧ Incomplete todo unread

theorem le_length_terms (terms : List Bytes) (requests : List Request) :
    (encodeAll requests).length ≤ (encodeTerms terms ++ encodeAll requests).length := by
  rw [List.length_append]
  omega

section Places

variable {virtue : Virtue} {unread : Bytes} {todo : List Request}

theorem move_idle (hphase : virtue.phase = .idle) (hterms : virtue.terms = [])
    (hne : virtue.window ≠ []) (h : virtue.window ++ unread = encodeAll todo) :
    GoesOn virtue todo unread := by
  cases todo with
  | nil => exact absurd (List.append_eq_nil_iff.mp h).1 hne
  | cons request todo =>
      rw [encodeAll_cons_eq] at h
      obtain ⟨window', hwindow, hrest⟩ := split_first h hne
      have hmove : virtue.move = .consume 1 .awaitingTermCount virtue.expectedTerms [] [] := by
        rw [Virtue.move, hwindow, hphase, hterms]
        rfl
      refine ⟨_, _, _, _, [], request :: todo, hmove, rfl, ?_⟩
      rw [hrest]
      exact .termCount _ request todo

theorem move_termCount_of_lt {request : Request} (hphase : virtue.phase = .awaitingTermCount)
    (hterms : virtue.terms = []) (hne : virtue.window ≠ [])
    (hcount : request.val.length < 2 ^ 64)
    (h : virtue.window ++ unread = print request.val.length ++ 13 :: 10 ::
      (encodeTerms request.val ++ encodeAll todo)) :
    GoesOn virtue (request :: todo) unread ∨ Waits virtue (request :: todo) unread := by
  have hmove := Virtue.move_awaitingTermCount hphase hne
  obtain ⟨htake, hrest⟩ | ⟨htake, hsmall, hlt⟩ := Virtue.takeNumber_place hmove hcount h
  · obtain ⟨term, rest, hterm⟩ := List.exists_cons_of_ne_nil request.property
    have hpos : request.val.length ≠ 0 := by
      rw [hterm]
      exact Nat.succ_ne_zero _
    rw [if_neg hpos, hterms] at htake
    refine .inl ⟨_, _, _, _, [], request :: todo, htake, rfl, ?_⟩
    obtain ⟨terms, hterms'⟩ := request
    obtain rfl : terms = term :: rest := hterm
    rw [hrest, encodeTerms_cons]
    exact .marker [] term rest hterms' todo
  · refine .inr ⟨.inr htake, by omega, ?_⟩
    exact .of_lt (le_length_terms _ _) hlt

theorem move_termCount {request : Request} (hphase : virtue.phase = .awaitingTermCount)
    (hterms : virtue.terms = []) (hne : virtue.window ≠ []) (hfits : request.Fits)
    (h : virtue.window ++ unread = print request.val.length ++ 13 :: 10 ::
      (encodeTerms request.val ++ encodeAll todo)) :
    GoesOn virtue (request :: todo) unread ∨ Waits virtue (request :: todo) unread :=
  move_termCount_of_lt hphase hterms hne hfits.1 h

theorem move_marker {done rest : List Bytes} {term : Bytes} {hterms' : done ++ term :: rest ≠ []}
    (hphase : virtue.phase = .graspingMarker) (hterms : virtue.terms = done)
    (hexpected : virtue.expectedTerms = (done ++ term :: rest).length)
    (hne : virtue.window ≠ [])
    (h : virtue.window ++ unread = 36 :: (print term.length ++ 13 :: 10 ::
      (term ++ 13 :: 10 :: (encodeTerms rest ++ encodeAll todo)))) :
    GoesOn virtue (⟨done ++ term :: rest, hterms'⟩ :: todo) unread := by
  obtain ⟨window', hwindow, hrest⟩ := split_first h hne
  have hmove : virtue.move = .consume 1 .awaitingBulkStringLength
      (done ++ term :: rest).length done [] := by
    rw [Virtue.move, hwindow, hphase, hterms, hexpected]
    rfl
  refine ⟨_, _, _, _, [], _, hmove, rfl, ?_⟩
  rw [hrest]
  exact .length done term rest hterms' todo

theorem move_length_of_lt {done rest : List Bytes} {term : Bytes}
    {hterms' : done ++ term :: rest ≠ []} (hphase : virtue.phase = .awaitingBulkStringLength)
    (hterms : virtue.terms = done)
    (hexpected : virtue.expectedTerms = (done ++ term :: rest).length)
    (hne : virtue.window ≠ []) (hlength : term.length < 2 ^ 64)
    (h : virtue.window ++ unread = print term.length ++ 13 :: 10 ::
      (term ++ 13 :: 10 :: (encodeTerms rest ++ encodeAll todo))) :
    GoesOn virtue (⟨done ++ term :: rest, hterms'⟩ :: todo) unread ∨
      Waits virtue (⟨done ++ term :: rest, hterms'⟩ :: todo) unread := by
  have hmove := Virtue.move_awaitingBulkStringLength hphase hne
  obtain ⟨htake, hrest⟩ | ⟨htake, hsmall, hlt⟩ :=
    Virtue.takeNumber_place hmove hlength h
  · rw [hterms, hexpected] at htake
    refine .inl ⟨_, _, _, _, [], _, htake, rfl, ?_⟩
    rw [hrest]
    exact .bulkString done term rest hterms' todo
  · refine .inr ⟨.inr htake, by omega, .of_lt ?_ hlt⟩
    simp only [List.length_append, List.length_cons]
    omega

theorem move_length {done rest : List Bytes} {term : Bytes} {hterms' : done ++ term :: rest ≠ []}
    (hphase : virtue.phase = .awaitingBulkStringLength) (hterms : virtue.terms = done)
    (hexpected : virtue.expectedTerms = (done ++ term :: rest).length)
    (hne : virtue.window ≠ []) (hfits : term.length ≤ 64 * 1024 * 1024 - 1026)
    (h : virtue.window ++ unread = print term.length ++ 13 :: 10 ::
      (term ++ 13 :: 10 :: (encodeTerms rest ++ encodeAll todo))) :
    GoesOn virtue (⟨done ++ term :: rest, hterms'⟩ :: todo) unread ∨
      Waits virtue (⟨done ++ term :: rest, hterms'⟩ :: todo) unread :=
  move_length_of_lt hphase hterms hexpected hne (by omega) h

theorem move_bulkString_of_place {done rest : List Bytes} {term : Bytes}
    {hterms' : done ++ term :: rest ≠ []}
    (hphase : virtue.phase = .awaitingBulkString term.length) (hterms : virtue.terms = done)
    (hexpected : virtue.expectedTerms = (done ++ term :: rest).length)
    (hne : virtue.window ≠ [])
    (h : virtue.window ++ unread =
      term ++ 13 :: 10 :: (encodeTerms rest ++ encodeAll todo)) :
    GoesOn virtue (⟨done ++ term :: rest, hterms'⟩ :: todo) unread ∨
      (virtue.move = .more 0 ∧ virtue.window.length < term.length + 2 ∧
        Incomplete (⟨done ++ term :: rest, hterms'⟩ :: todo) unread) := by
  have hmove : virtue.move = virtue.takeTerm term.length := by
    obtain ⟨first, window, hwindow⟩ := List.exists_cons_of_ne_nil hne
    rw [Virtue.move, hwindow]
    dsimp only
    rw [hphase]
  obtain ⟨htake, hrest⟩ | ⟨htake, hshort, hlt⟩ := Virtue.takeTerm_place h
  · rw [hterms, hexpected] at htake
    cases rest with
    | nil =>
        -- the last term: the request is granted
        rw [if_pos rfl] at htake
        refine .inl ⟨_, _, _, _, _, todo, hmove.trans htake, rfl, ?_⟩
        rw [hrest]
        exact .idle _ todo
    | cons next rest =>
        rw [if_neg (by simp)] at htake
        refine .inl ⟨_, _, _, _, [], _, hmove.trans htake, rfl, ?_⟩
        rw [hrest, encodeTerms_cons]
        have hsplit : done ++ term :: next :: rest = (done ++ [term]) ++ next :: rest := by
          rw [List.append_assoc]
          rfl
        simp only [hsplit]
        exact .marker (done ++ [term]) next rest (hsplit ▸ hterms') todo
  · exact .inr ⟨hmove.trans htake, hshort, .of_lt (le_length_terms _ _) hlt⟩

theorem move_bulkString {done rest : List Bytes} {term : Bytes}
    {hterms' : done ++ term :: rest ≠ []}
    (hphase : virtue.phase = .awaitingBulkString term.length) (hterms : virtue.terms = done)
    (hexpected : virtue.expectedTerms = (done ++ term :: rest).length)
    (hne : virtue.window ≠ []) (hfits : term.length ≤ 64 * 1024 * 1024 - 1026)
    (h : virtue.window ++ unread =
      term ++ 13 :: 10 :: (encodeTerms rest ++ encodeAll todo)) :
    GoesOn virtue (⟨done ++ term :: rest, hterms'⟩ :: todo) unread ∨
      Waits virtue (⟨done ++ term :: rest, hterms'⟩ :: todo) unread := by
  obtain hgoes | ⟨hmove, hshort, hincomplete⟩ :=
    move_bulkString_of_place hphase hterms hexpected hne h
  · exact .inl hgoes
  · exact .inr ⟨.inr hmove, by omega, hincomplete⟩

end Places

/-- **The parser never refuses an encoding: it goes on or waits.** -/
theorem move_place {virtue : Virtue} {todo : List Request} {unread : Bytes}
    (hplace : Place virtue.phase virtue.terms virtue.expectedTerms todo (virtue.window ++ unread))
    (hfits : ∀ request ∈ todo, request.Fits) :
    GoesOn virtue todo unread ∨ Waits virtue todo unread := by
  by_cases hne : virtue.window = []
  · -- nothing is in the window, so all the bytes of the place are unread
    rw [hne, List.nil_append] at hplace
    refine .inr ⟨.inl (by rw [Virtue.move, hne]), ?_, hplace.length_rest.2⟩
    rw [hne]
    exact Nat.zero_le _
  · generalize hphase : virtue.phase = phase at hplace
    generalize hterms : virtue.terms = terms at hplace
    generalize hexpected : virtue.expectedTerms = expectedTerms at hplace
    generalize hrest : virtue.window ++ unread = rest at hplace
    cases hplace with
    | idle => exact .inl (move_idle hphase hterms hne hrest)
    | termCount _ request todo =>
        exact move_termCount hphase hterms hne (hfits request List.mem_cons_self) hrest
    | marker done term rest h todo =>
        exact .inl (move_marker hphase hterms hexpected hne hrest)
    | length done term rest h todo =>
        have hterm := (hfits _ List.mem_cons_self).2 term (by simp)
        exact move_length hphase hterms hexpected hne hterm hrest
    | bulkString done term rest h todo =>
        have hterm := (hfits _ List.mem_cons_self).2 term (by simp)
        exact move_bulkString hphase hterms hexpected hne hterm hrest

/-- The parser stops, reads more or refuses, and consumes nothing. -/
def Virtue.Halts (virtue : Virtue) : Prop :=
  virtue.move = .stop ∨ virtue.move = .more 0 ∨ ∃ sin, virtue.move = .refuse sin

/-- **Inside an encoding the parser goes on from place to place or halts, however large the requests
are.** -/
theorem move_within {virtue : Virtue} {todo : List Request} {unread : Bytes}
    (hplace : Place virtue.phase virtue.terms virtue.expectedTerms todo (virtue.window ++ unread)) :
    GoesOn virtue todo unread ∨ virtue.Halts := by
  by_cases hne : virtue.window = []
  · exact .inr (.inl (by rw [Virtue.move, hne]))
  · generalize hphase : virtue.phase = phase at hplace
    generalize hterms : virtue.terms = terms at hplace
    generalize hexpected : virtue.expectedTerms = expectedTerms at hplace
    generalize hrest : virtue.window ++ unread = rest at hplace
    cases hplace with
    | idle => exact .inl (move_idle hphase hterms hne hrest)
    | termCount _ request todo =>
        by_cases hcount : request.val.length < 2 ^ 64
        · exact (move_termCount_of_lt hphase hterms hne hcount hrest).imp_right fun hwaits =>
            hwaits.1.imp_right .inl
        · have hmove := Virtue.move_awaitingTermCount hphase hne
          exact .inr (.inr (Virtue.takeNumber_huge hmove (not_lt.mp hcount) hrest))
    | marker done term rest h todo =>
        exact .inl (move_marker hphase hterms hexpected hne hrest)
    | length done term rest h todo =>
        by_cases hlength : term.length < 2 ^ 64
        · exact (move_length_of_lt hphase hterms hexpected hne hlength hrest).imp_right
            fun hwaits => hwaits.1.imp_right .inl
        · have hmove := Virtue.move_awaitingBulkStringLength hphase hne
          exact .inr (.inr (Virtue.takeNumber_huge hmove (not_lt.mp hlength) hrest))
    | bulkString done term rest h todo =>
        exact (move_bulkString_of_place hphase hterms hexpected hne hrest).imp_right
          fun hmore => .inr (.inl hmore.1)

end Heaven
