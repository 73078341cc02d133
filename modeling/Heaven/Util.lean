import Heaven.Data

/-! # Number parsing and line search

`wish/util.rs`.  The four parsers share one loop, `parseDigits`, which multiplies and adds with
overflow checks; `bytesToU64` and `bytesToUsize` run it up to `2 ^ 64 - 1`, `bytesToI32` and
`bytesToI64` strip a sign first and run it up to the largest value of their type.

`parseDigits_eq` says what the loop computes: the value of the digit string when there are only
digits and the value is in range, an error otherwise, whatever the order of the checks.
`parseUnsigned_ok_iff` and `parseSigned_ok_iff` put it in terms of what a text denotes. -/

namespace Heaven

open Decimal

/-- `buffer.windows(2).position(|w| w == b"\r\n")`. -/
def findCrlf : Bytes → Option ℕ
  | a :: b :: rest =>
      if a = 13 ∧ b = 10 then some 0 else (findCrlf (b :: rest)).map (· + 1)
  | _ => none

def checkedMul (max a b : ℕ) : Option ℕ := if a * b ≤ max then some (a * b) else none

def checkedAdd (max a b : ℕ) : Option ℕ := if a + b ≤ max then some (a + b) else none

/-- The loop of the four parsers, for a type whose largest value is `max`. -/
def parseDigits (max : ℕ) : ℕ → Bytes → Except Sin ℕ
  | result, [] => .ok result
  | result, b :: bytes =>
      if !isDigit b then .error .parseError
      else
        match (checkedMul max result 10).bind (checkedAdd max · (digit b)) with
        | some result => parseDigits max result bytes
        | none => .error .parseError

def parseUnsigned (max : ℕ) (bytes : Bytes) : Except Sin ℕ :=
  if bytes.isEmpty then .error .parseError else parseDigits max 0 bytes

/-- The magnitude is accumulated as a non-negative number, so `checked_neg` cannot fail. -/
def parseSigned (max : ℕ) : Bytes → Except Sin ℤ
  | [] => .error .parseError
  | b :: rest =>
      let isNeg := decide (b = 45)
      let bytes := if isNeg then rest else b :: rest
      if bytes.isEmpty then .error .parseError
      else
        match parseDigits max 0 bytes with
        | .ok result => .ok (if isNeg then -(result : ℤ) else result)
        | .error sin => .error sin

def bytesToI32 (bytes : Bytes) : Except Sin ℤ := parseSigned (2 ^ 31 - 1) bytes

def bytesToU64 (bytes : Bytes) : Except Sin ℕ := parseUnsigned (2 ^ 64 - 1) bytes

def bytesToI64 (bytes : Bytes) : Except Sin ℤ := parseSigned (2 ^ 63 - 1) bytes

def bytesToUsize (bytes : Bytes) : Except Sin ℕ := parseUnsigned (2 ^ 64 - 1) bytes

/-! ### Lines -/

/-- The line end lies inside the bytes. -/
theorem findCrlf_lt : ∀ {bytes : Bytes} {i : ℕ}, findCrlf bytes = some i → i + 2 ≤ bytes.length
  | [], _, h => nomatch h
  | [_], _, h => nomatch h
  | a :: b :: rest, i, h => by
      rw [findCrlf] at h
      split_ifs at h with hcrlf
      · obtain rfl := Option.some.inj h
        simp only [List.length_cons]
        omega
      · obtain ⟨j, hj, rfl⟩ := Option.map_eq_some_iff.mp h
        have hlt := findCrlf_lt hj
        rw [List.length_cons]
        omega

/-- **A line is found as soon as it is there with its end, and not before.** -/
theorem findCrlf_of_append {unread rest : Bytes} : ∀ {line bytes : Bytes}, 13 ∉ line →
    bytes ++ unread = line ++ 13 :: 10 :: rest →
    findCrlf bytes = if line.length + 2 ≤ bytes.length then some line.length else none
  | line, [], _, _ => by
      rw [if_neg (by simp)]
      rfl
  | line, [_], _, _ => by
      rw [if_neg (by simp)]
      rfl
  | [], a :: b :: bytes, _, h => by
      obtain ⟨rfl, htail⟩ := List.cons.inj h
      obtain ⟨rfl, -⟩ := List.cons.inj htail
      rw [findCrlf, if_pos ⟨rfl, rfl⟩, if_pos (by simp)]
      rfl
  | c :: line, a :: b :: bytes, hline, h => by
      obtain ⟨rfl, htail⟩ := List.cons.inj h
      rw [List.mem_cons, not_or] at hline
      have ih := @findCrlf_of_append unread rest line (b :: bytes) hline.2 htail
      rw [findCrlf, if_neg (fun hc => hline.1 hc.1.symm), ih]
      simp only [List.length_cons]
      by_cases hle : line.length + 2 ≤ bytes.length + 1
      · rw [if_pos hle, if_pos (by omega)]
        rfl
      · rw [if_neg hle, if_neg (by omega)]
        rfl

/-! ### What the loop computes -/

theorem checked_step (max result d : ℕ) :
    (checkedMul max result 10).bind (checkedAdd max · d) =
      if result * 10 + d ≤ max then some (result * 10 + d) else none := by
  unfold checkedMul checkedAdd
  by_cases h : result * 10 ≤ max
  · simp [h]
  · have h' : ¬ result * 10 + d ≤ max := by omega
    simp [h, h']

theorem parseDigits_eq (max : ℕ) (bytes : Bytes) : ∀ result : ℕ, result ≤ max →
    parseDigits max result bytes =
      if bytes.all isDigit = true ∧ valueFrom result bytes ≤ max then
        .ok (valueFrom result bytes)
      else .error .parseError := by
  induction bytes with
  | nil =>
      intro result h
      simp [parseDigits, h]
  | cons b bytes ih =>
      intro result h
      rw [parseDigits, checked_step]
      by_cases hb : isDigit b = true
      · by_cases hstep : result * 10 + digit b ≤ max
        · simp only [hb, hstep, Bool.not_true, Bool.false_eq_true, if_false, if_true,
            valueFrom_cons, List.all_cons, Bool.true_and]
          exact ih _ hstep
        · -- the accumulator only grows, so a step out of range stays out of range
          have hlate : ¬ valueFrom (result * 10 + digit b) bytes ≤ max := by
            intro hle
            apply hstep
            exact le_trans (le_valueFrom _ bytes) hle
          simp [hb, hstep, hlate]
      · simp [hb]

theorem parseUnsigned_eq (max : ℕ) (bytes : Bytes) :
    parseUnsigned max bytes =
      if bytes ≠ [] ∧ bytes.all isDigit = true ∧ value bytes ≤ max then .ok (value bytes)
      else .error .parseError := by
  unfold parseUnsigned value
  cases bytes with
  | nil => simp
  | cons b rest => simp [parseDigits_eq max (b :: rest) 0 (Nat.zero_le max)]

/-- A canonical decimal is read back, as long as it is in range. -/
theorem parseUnsigned_print (max n : ℕ) :
    parseUnsigned max (print n) = if n ≤ max then .ok n else .error .parseError := by
  rw [parseUnsigned_eq, value_print]
  have hd : (print n).all isDigit = true := List.all_eq_true.mpr (isDigit_of_mem_print n)
  by_cases h : n ≤ max
  · rw [if_pos ⟨print_ne_nil n, hd, h⟩, if_pos h]
  · rw [if_neg (fun hc => h hc.2.2), if_neg h]

theorem parseSigned_minus (max : ℕ) (bytes : Bytes) :
    parseSigned max (45 :: bytes) = (parseUnsigned max bytes).map fun n : ℕ => -(n : ℤ) := by
  rw [parseSigned, parseUnsigned]
  simp only [decide_true, if_true]
  by_cases h : bytes.isEmpty = true
  · rw [if_pos h, if_pos h]; rfl
  · rw [if_neg h, if_neg h]
    cases parseDigits max 0 bytes <;> rfl

theorem parseSigned_plain (max : ℕ) {b : UInt8} (rest : Bytes) (hb : b ≠ 45) :
    parseSigned max (b :: rest) = (parseUnsigned max (b :: rest)).map fun n : ℕ => (n : ℤ) := by
  rw [parseSigned, parseUnsigned]
  simp only [hb, decide_false, Bool.false_eq_true, if_false, List.isEmpty_cons]
  cases parseDigits max 0 (b :: rest) <;> rfl

theorem parseSigned_printInt (max : ℕ) (i : ℤ) :
    parseSigned max (printInt i) = if i.natAbs ≤ max then .ok i else .error .parseError := by
  unfold printInt
  by_cases hi : i < 0
  · rw [if_pos hi, parseSigned_minus, parseUnsigned_print]
    split_ifs
    · simp only [Except.map]
      congr 1
      omega
    · rfl
  · obtain ⟨b, rest, hp, hb⟩ := print_head i.natAbs
    rw [if_neg hi, hp, parseSigned_plain max rest hb, ← hp, parseUnsigned_print]
    split_ifs
    · simp only [Except.map]
      congr 1
      omega
    · rfl

/-- **An unsigned number is read precisely if its text denotes it and it is in range.** -/
theorem parseUnsigned_ok_iff {max : ℕ} {bytes : Bytes} {n : ℕ} :
    parseUnsigned max bytes = .ok n ↔ Denotes bytes n ∧ n ≤ max := by
  rw [parseUnsigned_eq, denotes_iff]
  constructor
  · intro h
    split_ifs at h with hc
    cases h
    exact ⟨⟨hc.1, hc.2.1, rfl⟩, hc.2.2⟩
  · rintro ⟨⟨hne, hdigits, rfl⟩, hle⟩
    rw [if_pos ⟨hne, hdigits, hle⟩]

theorem parseUnsigned_le {max n : ℕ} {bytes : Bytes} (h : parseUnsigned max bytes = .ok n) :
    n ≤ max :=
  (parseUnsigned_ok_iff.mp h).2

theorem map_eq_ok_iff {ε α β : Type} {f : α → β} {x : Except ε α} {b : β} :
    x.map f = .ok b ↔ ∃ a, x = .ok a ∧ f a = b := by
  cases x with
  | error e => simp [Except.map]
  | ok a => simp [Except.map]

/-- **A signed number is read precisely if its text denotes it and its magnitude is in range.** -/
theorem parseSigned_ok_iff {max : ℕ} {bytes : Bytes} {i : ℤ} :
    parseSigned max bytes = .ok i ↔ DenotesInt bytes i ∧ -(max : ℤ) ≤ i ∧ i ≤ max := by
  cases bytes with
  | nil =>
      rw [denotesInt_plain_iff (by simp)]
      constructor
      · intro h
        cases h
      · rintro ⟨⟨n, h, -⟩, -⟩
        exact absurd rfl h.nonempty
  | cons b rest =>
      by_cases hb : b = 45
      · subst hb
        rw [parseSigned_minus, map_eq_ok_iff, denotesInt_minus_iff]
        constructor
        · rintro ⟨n, h, rfl⟩
          obtain ⟨hdenotes, hle⟩ := parseUnsigned_ok_iff.mp h
          exact ⟨⟨n, hdenotes, rfl⟩, by omega, by omega⟩
        · rintro ⟨⟨n, h, rfl⟩, hlow, -⟩
          exact ⟨n, parseUnsigned_ok_iff.mpr ⟨h, by omega⟩, rfl⟩
      · rw [parseSigned_plain max rest hb, map_eq_ok_iff, denotesInt_plain_iff (by simpa)]
        constructor
        · rintro ⟨n, h, rfl⟩
          obtain ⟨hdenotes, hle⟩ := parseUnsigned_ok_iff.mp h
          exact ⟨⟨n, hdenotes, rfl⟩, by omega, by omega⟩
        · rintro ⟨⟨n, h, rfl⟩, -, hhigh⟩
          exact ⟨n, parseUnsigned_ok_iff.mpr ⟨h, by omega⟩, rfl⟩

theorem parseSigned_bounds {max : ℕ} {i : ℤ} {bytes : Bytes} (h : parseSigned max bytes = .ok i) :
    -(max : ℤ) ≤ i ∧ i ≤ max :=
  (parseSigned_ok_iff.mp h).2

/-- **What `itoa` prints, `bytes_to_i64` reads, except the least value of the type.** -/
theorem bytesToI64_printInt {i : ℤ} (h : InI64 i) :
    bytesToI64 (printInt i) = if i = -2 ^ 63 then .error .parseError else .ok i := by
  unfold InI64 at h
  rw [bytesToI64, parseSigned_printInt]
  by_cases hmin : i = -2 ^ 63
  · rw [if_neg (by omega), if_pos hmin]
  · rw [if_pos (by omega), if_neg hmin]

end Heaven
