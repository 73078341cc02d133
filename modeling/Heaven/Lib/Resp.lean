import Heaven.Lib.Decimal

/-! # RESP2 replies

A reply is a line, an integer, a byte string with its length in front, nil, or an array with the
number of its items in front.  `encode` writes a reply and `read` takes one reply off its input, and
says what follows it.

`read_encode` is the round trip: a reply is read back from its bytes, whatever comes behind them.
So replies that stand one after the other are read back one after the other (`readMany_encodeAll`,
`readAll_encodeAll`). -/

open Decimal (ascii print printInt isDigit valueInt)

/-- A RESP2 reply. -/
inductive Resp where
  | simple (line : List UInt8)
  | error (line : List UInt8)
  | integer (i : ℤ)
  | bulk (payload : List UInt8)
  | nil
  | array (items : List Resp)

namespace Resp

def crlf : List UInt8 := [13, 10]

/-! ### Writing -/

mutual

def encode : Resp → List UInt8
  | .simple line => 43 :: (line ++ crlf)
  | .error line => 45 :: (line ++ crlf)
  | .integer i => 58 :: (printInt i ++ crlf)
  | .bulk payload => 36 :: (print payload.length ++ crlf ++ payload ++ crlf)
  | .nil => 36 :: (printInt (-1) ++ crlf)
  | .array items => 42 :: (print items.length ++ crlf ++ encodeAll items)

def encodeAll : List Resp → List UInt8
  | [] => []
  | item :: items => encode item ++ encodeAll items

end

/-- The lines hold no carriage return. -/
inductive WellFormed : Resp → Prop
  | simple {line : List UInt8} (h : 13 ∉ line) : WellFormed (.simple line)
  | error {line : List UInt8} (h : 13 ∉ line) : WellFormed (.error line)
  | integer (i : ℤ) : WellFormed (.integer i)
  | bulk (payload : List UInt8) : WellFormed (.bulk payload)
  | nil : WellFormed .nil
  | array {items : List Resp} (h : ∀ item ∈ items, WellFormed item) : WellFormed (.array items)

/-! ### Reading -/

/-- The bytes up to the first CRLF, and the bytes behind it. -/
def readLine : List UInt8 → Option (List UInt8 × List UInt8)
  | [] => none
  | [_] => none
  | b :: b' :: rest =>
      if b = 13 ∧ b' = 10 then some ([], rest)
      else (readLine (b' :: rest)).map fun (line, rest) => (b :: line, rest)

def isNumber (digits : List UInt8) : Bool := !digits.isEmpty && digits.all isDigit

/-- Digits, perhaps behind a minus sign. -/
def readInt : List UInt8 → Option ℤ
  | [] => none
  | b :: bs => if isNumber (if b = 45 then bs else b :: bs) then some (valueInt (b :: bs)) else none

/-- A payload of `n` bytes with its CRLF. -/
def readPayload (n : ℕ) (input : List UInt8) : Option (Resp × List UInt8) :=
  if n ≤ input.length ∧ (input.drop n).take 2 = crlf then
    some (.bulk (input.take n), input.drop (n + 2))
  else none

/-- Read `n` times. -/
def readTimes {α : Type} (read : List UInt8 → Option (α × List UInt8)) :
    ℕ → List UInt8 → Option (List α × List UInt8)
  | 0, input => some ([], input)
  | n + 1, input => do
      let (item, input) ← read input
      let (items, input) ← readTimes read n input
      some (item :: items, input)

/-- The reply whose first byte is `kind` and whose first line is `line`. -/
def readBody (reader : List UInt8 → Option (Resp × List UInt8)) (kind : UInt8)
    (line input : List UInt8) : Option (Resp × List UInt8) :=
  if kind = 43 then some (.simple line, input)
  else if kind = 45 then some (.error line, input)
  else if kind = 58 then (readInt line).map fun i => (.integer i, input)
  else if kind = 36 then
    match readInt line with
    | some (.ofNat n) => readPayload n input
    | some (.negSucc 0) => some (.nil, input)
    | _ => none
  else if kind = 42 then
    match readInt line with
    | some (.ofNat n) =>
        (readTimes reader n input).map fun (items, input) => (.array items, input)
    | some (.negSucc 0) => some (.nil, input)
    | _ => none
  else none

/-- A reply whose arrays are nested at most `depth` deep. -/
def readWithin : ℕ → List UInt8 → Option (Resp × List UInt8)
  | 0, _ => none
  | _ + 1, [] => none
  | depth + 1, kind :: input => do
      let (line, input) ← readLine input
      readBody (readWithin depth) kind line input

/-- Take one reply off the input.  An array is longer than its items, so the length of the input
bounds the depth. -/
def read (input : List UInt8) : Option (Resp × List UInt8) := readWithin input.length input

def readMany (n : ℕ) (input : List UInt8) : Option (List Resp × List UInt8) :=
  readTimes read n input

def readAllWithin : ℕ → List UInt8 → Option (List Resp)
  | _, [] => some []
  | 0, _ => none
  | n + 1, input => do
      let (reply, input) ← read input
      let replies ← readAllWithin n input
      some (reply :: replies)

/-- Read replies to the end of the input. -/
def readAll (input : List UInt8) : Option (List Resp) := readAllWithin input.length input

/-! ### The round trip -/

theorem readLine_append {line : List UInt8} (h : 13 ∉ line) (rest : List UInt8) :
    readLine (line ++ crlf ++ rest) = some (line, rest) := by
  induction line with
  | nil => simp [crlf, readLine]
  | cons b line ih =>
      rw [List.mem_cons, not_or] at h
      have hrest := ih h.2
      have hne : ¬ b = 13 := fun hb => h.1 hb.symm
      cases line with
      | nil =>
          simp only [crlf, List.nil_append, List.cons_append] at hrest ⊢
          rw [readLine, if_neg (fun hb => hne hb.1), hrest]
          rfl
      | cons b' line =>
          simp only [List.cons_append] at hrest ⊢
          rw [readLine, if_neg (fun hb => hne hb.1), hrest]
          rfl

theorem isNumber_print (n : ℕ) : isNumber (print n) = true := by
  have hne : (print n).isEmpty = false := by
    rw [List.isEmpty_eq_false_iff]
    exact Decimal.print_ne_nil n
  have hall : (print n).all isDigit = true := by
    rw [List.all_eq_true]
    exact Decimal.isDigit_of_mem_print n
  rw [isNumber, hne, hall]
  rfl

theorem readInt_printInt (i : ℤ) : readInt (printInt i) = some i := by
  have hvalue := Decimal.valueInt_printInt i
  by_cases hi : i < 0
  · have hprint : printInt i = 45 :: print i.natAbs := if_pos hi
    rw [hprint] at hvalue ⊢
    rw [readInt, if_pos rfl, if_pos (isNumber_print _), hvalue]
  · have hprint : printInt i = print i.natAbs := if_neg hi
    obtain ⟨b, rest, hcons, hb⟩ := Decimal.print_head i.natAbs
    have hnumber := isNumber_print i.natAbs
    rw [hprint, hcons] at hvalue
    rw [hcons] at hnumber
    rw [hprint, hcons, readInt, if_neg hb, if_pos hnumber, hvalue]

theorem readInt_print (n : ℕ) : readInt (print n) = some n := readInt_printInt n

theorem cr_notMem_print (n : ℕ) : 13 ∉ print n := by
  intro h
  exact absurd (Decimal.isDigit_of_mem_print n 13 h) (by decide)

theorem cr_notMem_printInt (i : ℤ) : 13 ∉ printInt i := by
  unfold printInt
  split_ifs
  · rw [List.mem_cons, not_or]
    exact ⟨by decide, cr_notMem_print _⟩
  · exact cr_notMem_print _

theorem readPayload_append (payload rest : List UInt8) :
    readPayload payload.length (payload ++ crlf ++ rest) = some (.bulk payload, rest) := by
  unfold readPayload
  have hdrop : (payload ++ crlf ++ rest).drop payload.length = crlf ++ rest := by
    rw [List.append_assoc, List.drop_left]
  have htake : (payload ++ crlf ++ rest).take payload.length = payload := by
    rw [List.append_assoc, List.take_left]
  rw [if_pos, ← List.drop_drop, hdrop, htake]
  · rfl
  · rw [hdrop]
    refine ⟨?_, rfl⟩
    simp only [List.length_append]
    omega

theorem readTimes_encodeAll {reader : List UInt8 → Option (Resp × List UInt8)} (items : List Resp)
    (h : ∀ item ∈ items, ∀ rest, reader (encode item ++ rest) = some (item, rest))
    (rest : List UInt8) :
    readTimes reader items.length (encodeAll items ++ rest) = some (items, rest) := by
  induction items with
  | nil => rfl
  | cons item items ih =>
      rw [List.forall_mem_cons] at h
      rw [List.length_cons, encodeAll, List.append_assoc, readTimes, h.1]
      simp only [Option.bind_eq_bind, Option.bind_some, ih h.2]

theorem length_encode_le {item : Resp} {items : List Resp} (h : item ∈ items) :
    (encode item).length ≤ (encodeAll items).length := by
  induction items with
  | nil => cases h
  | cons head items ih =>
      rw [encodeAll, List.length_append]
      rcases List.mem_cons.mp h with rfl | h
      · exact Nat.le_add_right _ _
      · exact Nat.le_add_left_of_le (ih h)

theorem readWithin_line {line : List UInt8} (h : 13 ∉ line) (depth : ℕ) (kind : UInt8)
    (rest : List UInt8) :
    readWithin (depth + 1) (kind :: (line ++ crlf ++ rest)) =
      readBody (readWithin depth) kind line rest := by
  rw [readWithin, readLine_append h]
  rfl

/-- Enough depth reads the reply back, and leaves what follows it. -/
theorem readWithin_encode {reply : Resp} (h : reply.WellFormed) :
    ∀ (depth : ℕ) (rest : List UInt8), (encode reply).length ≤ depth + 1 →
      readWithin (depth + 1) (encode reply ++ rest) = some (reply, rest) := by
  induction h with
  | simple hline =>
      intro depth rest _
      rw [encode, List.cons_append, readWithin_line hline]
      rfl
  | error hline =>
      intro depth rest _
      rw [encode, List.cons_append, readWithin_line hline]
      rfl
  | integer i =>
      intro depth rest _
      rw [encode, List.cons_append, readWithin_line (cr_notMem_printInt i)]
      simp [readBody, readInt_printInt]
  | bulk payload =>
      intro depth rest _
      have hsplit : encode (.bulk payload) ++ rest =
          36 :: (print payload.length ++ crlf ++ (payload ++ crlf ++ rest)) := by
        simp only [encode, List.cons_append, List.append_assoc]
      rw [hsplit, readWithin_line (cr_notMem_print _)]
      have hint : readInt (print payload.length) = some (.ofNat payload.length) := readInt_print _
      simp only [readBody, hint]
      exact readPayload_append payload rest
  | nil =>
      intro depth rest _
      rw [encode, List.cons_append, readWithin_line (cr_notMem_printInt (-1))]
      have hint : readInt (printInt (-1)) = some (.negSucc 0) := readInt_printInt (-1)
      simp only [readBody, hint]
      rfl
  | @array items hitems ih =>
      intro depth rest hdepth
      have hsplit : encode (.array items) ++ rest =
          42 :: (print items.length ++ crlf ++ (encodeAll items ++ rest)) := by
        simp only [encode, List.cons_append, List.append_assoc]
      have hread : readTimes (readWithin depth) items.length (encodeAll items ++ rest) =
          some (items, rest) := by
        apply readTimes_encodeAll
        intro item hitem rest
        have hle := length_encode_le hitem
        simp only [encode, List.length_cons, List.length_append, crlf] at hdepth
        obtain ⟨depth, rfl⟩ : ∃ d, depth = d + 1 := ⟨depth - 1, by
          simp only [List.length_nil] at hdepth
          omega⟩
        apply ih item hitem
        omega
      rw [hsplit, readWithin_line (cr_notMem_print _)]
      have hint : readInt (print items.length) = some (.ofNat items.length) := readInt_print _
      simp only [readBody, hint, hread]
      rfl

theorem encode_ne_nil (reply : Resp) : encode reply ≠ [] := by
  cases reply <;> exact List.cons_ne_nil _ _

/-- **A reply is read back from its bytes, whatever follows them.** -/
theorem read_encode {reply : Resp} (h : reply.WellFormed) (rest : List UInt8) :
    read (encode reply ++ rest) = some (reply, rest) := by
  have hpos : (encode reply ++ rest).length ≠ 0 := by simp [encode_ne_nil]
  obtain ⟨depth, hdepth⟩ := Nat.exists_eq_succ_of_ne_zero hpos
  rw [read, hdepth]
  apply readWithin_encode h
  rw [List.length_append] at hdepth
  omega

theorem readMany_encodeAll {replies : List Resp} (h : ∀ reply ∈ replies, reply.WellFormed)
    (rest : List UInt8) :
    readMany replies.length (encodeAll replies ++ rest) = some (replies, rest) := by
  apply readTimes_encodeAll
  intro reply hreply
  exact read_encode (h reply hreply)

theorem readAllWithin_encodeAll {replies : List Resp}
    (h : ∀ reply ∈ replies, reply.WellFormed) {n : ℕ} (hn : replies.length ≤ n) :
    readAllWithin n (encodeAll replies) = some replies := by
  induction replies generalizing n with
  | nil => cases n <;> rfl
  | cons reply replies ih =>
      rw [List.forall_mem_cons] at h
      obtain ⟨n, rfl⟩ : ∃ m, n = m + 1 := Nat.exists_eq_succ_of_ne_zero (by
        rw [List.length_cons] at hn
        omega)
      rw [List.length_cons] at hn
      have hrest : readAllWithin n (encodeAll replies) = some replies := ih h.2 (by omega)
      have hread := read_encode h.1 (encodeAll replies)
      obtain ⟨b, bs, hcons⟩ := List.exists_cons_of_ne_nil (encode_ne_nil reply)
      rw [hcons, List.cons_append] at hread
      rw [encodeAll, hcons, List.cons_append, readAllWithin, hread]
      · simp only [Option.bind_eq_bind, Option.bind_some, hrest]
      · exact List.cons_ne_nil _ _

theorem length_le_encodeAll (replies : List Resp) :
    replies.length ≤ (encodeAll replies).length := by
  induction replies with
  | nil => exact le_rfl
  | cons reply replies ih =>
      have hpos : 0 < (encode reply).length := List.length_pos_iff.mpr (encode_ne_nil reply)
      rw [encodeAll, List.length_append, List.length_cons]
      omega

/-- **Replies that stand one after the other are read back one after the other.** -/
theorem readAll_encodeAll {replies : List Resp} (h : ∀ reply ∈ replies, reply.WellFormed) :
    readAll (encodeAll replies) = some replies :=
  readAllWithin_encodeAll h (length_le_encodeAll replies)

theorem encodeAll_append (replies replies' : List Resp) :
    encodeAll (replies ++ replies') = encodeAll replies ++ encodeAll replies' := by
  induction replies with
  | nil => rfl
  | cons reply replies ih => rw [List.cons_append, encodeAll, ih, encodeAll, List.append_assoc]

end Resp
