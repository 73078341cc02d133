import Heaven.Util

/-! # The numbers that are read

Every count and length of a request, every index, delta and expiry comes out of one of the four
parsers of `wish/util.rs`.  `ReadsExactly` says that such a parser answers with the number that its
text denotes, and with the error where it denotes none of the type.

`bytes_to_usize` and `bytes_to_u64` do so for every text (`unsigned_exact`), and a step of theirs
overflows precisely if the number is too large (`overflows_iff`): the accumulator only grows.
`bytes_to_i32` and `bytes_to_i64` accumulate the magnitude in the type itself and negate it last, so
the magnitude of the least value overflows: `signed_exact_iff`. -/

namespace Heaven

open Decimal

/-- The result is the number that the text denotes, or the error if there is none. -/
structure ReadsExactly {α : Type} (denotes : α → Prop) (result : Except Sin α) : Prop where
  ok_iff : ∀ n, result = .ok n ↔ denotes n
  error : (∀ n, ¬ denotes n) → result = .error .parseError

/-! ### Errors -/

theorem parseUnsigned_error {max : ℕ} {bytes : Bytes} {sin : Sin}
    (h : parseUnsigned max bytes = .error sin) : sin = .parseError := by
  rw [parseUnsigned_eq] at h
  split_ifs at h
  cases h
  rfl

/-- The signed parsers have no error of their own. -/
theorem parseSigned_error {max : ℕ} {bytes : Bytes} {sin : Sin}
    (h : parseSigned max bytes = .error sin) : sin = .parseError := by
  have hmap : ∀ {digits : Bytes} {f : ℕ → ℤ},
      (parseUnsigned max digits).map f = .error sin → sin = .parseError := by
    intro digits f hdigits
    cases hread : parseUnsigned max digits with
    | ok n => simp [hread, Except.map] at hdigits
    | error sin' =>
        have hsame : sin' = sin := by simpa [hread, Except.map] using hdigits
        rw [← hsame]
        exact parseUnsigned_error hread
  cases bytes with
  | nil =>
      cases h
      rfl
  | cons b rest =>
      by_cases hb : b = 45
      · subst hb
        rw [parseSigned_minus] at h
        exact hmap h
      · rw [parseSigned_plain max rest hb] at h
        exact hmap h

/-- A parser whose only error is the parse error is exact if it accepts the right texts. -/
theorem ReadsExactly.of_ok_iff {α : Type} {denotes : α → Prop} {result : Except Sin α}
    (hok : ∀ n, result = .ok n ↔ denotes n)
    (herror : ∀ sin, result = .error sin → sin = .parseError) : ReadsExactly denotes result where
  ok_iff := hok
  error := by
    intro hnone
    cases hresult : result with
    | ok n => exact absurd ((hok n).mp hresult) (hnone n)
    | error sin => rw [herror sin hresult]

/-! ### Unsigned numbers -/

theorem parseUnsigned_exact (max : ℕ) (bytes : Bytes) :
    ReadsExactly (fun n => Denotes bytes n ∧ n ≤ max) (parseUnsigned max bytes) := by
  apply ReadsExactly.of_ok_iff
  · intro n
    exact parseUnsigned_ok_iff
  · intro sin h
    exact parseUnsigned_error h

/-- The loop of the parsers comes to a digit at which the checked multiplication or the checked
addition overflows. -/
inductive Overflows (max : ℕ) : ℕ → Bytes → Prop
  | here {result : ℕ} {b : UInt8} {rest : Bytes} (isDigit : isDigit b = true)
      (h : (checkedMul max result 10).bind (checkedAdd max · (digit b)) = none) :
      Overflows max result (b :: rest)
  | later {result result' : ℕ} {b : UInt8} {rest : Bytes} (isDigit : isDigit b = true)
      (h : (checkedMul max result 10).bind (checkedAdd max · (digit b)) = some result')
      (later : Overflows max result' rest) : Overflows max result (b :: rest)

/-- **A step overflows precisely if the number that results in the end is out of range.** -/
theorem overflows_iff (max : ℕ) (bytes : Bytes) : ∀ result : ℕ, result ≤ max →
    (∀ b ∈ bytes, isDigit b = true) →
    (Overflows max result bytes ↔ max < valueFrom result bytes) := by
  induction bytes with
  | nil =>
      intro result hle _
      rw [valueFrom_nil]
      constructor
      · intro h
        cases h
      · intro hlt
        omega
  | cons b bytes ih =>
      intro result hle hdigits
      have hb : isDigit b = true := hdigits b (by simp)
      have hrest : ∀ b ∈ bytes, isDigit b = true := by
        intro c hc
        exact hdigits c (by simp [hc])
      have hstep := checked_step max result (digit b)
      rw [valueFrom_cons]
      by_cases hin : result * 10 + digit b ≤ max
      · rw [if_pos hin] at hstep
        rw [← ih _ hin hrest]
        constructor
        · intro h
          cases h with
          | here _ hnone =>
              rw [hstep] at hnone
              cases hnone
          | later _ hsome hlater =>
              rw [hstep] at hsome
              cases hsome
              exact hlater
        · intro hlater
          exact .later hb hstep hlater
      · rw [if_neg hin] at hstep
        have hgrows := le_valueFrom (result * 10 + digit b) bytes
        apply iff_of_true
        · exact .here hb hstep
        · omega

/-- **`bytes_to_usize` and `bytes_to_u64` are exact**, for digit strings of every length and with
any number of leading zeros; an intermediate result overflows just when the number is out of
range. -/
theorem unsigned_exact (bytes : Bytes) :
    ReadsExactly (fun n => Denotes bytes n ∧ n ≤ 2 ^ 64 - 1) (bytesToUsize bytes) ∧
      ReadsExactly (fun n => Denotes bytes n ∧ n ≤ 2 ^ 64 - 1) (bytesToU64 bytes) ∧
        ∀ n, Denotes bytes n → (Overflows (2 ^ 64 - 1) 0 bytes ↔ 2 ^ 64 - 1 < n) := by
  refine ⟨parseUnsigned_exact _ bytes, parseUnsigned_exact _ bytes, ?_⟩
  intro n hn
  obtain ⟨-, -, hvalue⟩ := denotes_iff.mp hn
  rw [overflows_iff _ bytes 0 (Nat.zero_le _) hn.allDigits, ← hvalue, value]

/-! ### Signed numbers -/

section Signed

/-! `InType` are the values of a signed type, from `least` to `max`. -/

variable {max : ℕ} {least : ℤ} {InType : ℤ → Prop}
  (hleast : least = -(max : ℤ) - 1) (hin : ∀ i, InType i ↔ least ≤ i ∧ i ≤ max)

include hleast hin

/-- **A signed parser is exact on every text but those of the least value of its type.** -/
theorem parseSigned_exact_iff (bytes : Bytes) :
    ReadsExactly (fun i => DenotesInt bytes i ∧ InType i) (parseSigned max bytes) ↔
      ¬ DenotesInt bytes least := by
  constructor
  · intro hexact hdenotes
    have hvalue : InType least := (hin least).mpr ⟨le_rfl, by omega⟩
    have hok := (hexact.ok_iff least).mpr ⟨hdenotes, hvalue⟩
    obtain ⟨hlow, -⟩ := parseSigned_bounds hok
    omega
  · intro hother
    apply ReadsExactly.of_ok_iff
    · intro i
      rw [parseSigned_ok_iff, hin i]
      constructor
      · rintro ⟨hdenotes, hlow, hhigh⟩
        exact ⟨hdenotes, by omega, hhigh⟩
      · rintro ⟨hdenotes, hlow, hhigh⟩
        have hne : i ≠ least := by
          rintro rfl
          exact hother hdenotes
        exact ⟨hdenotes, by omega, hhigh⟩
    · intro sin h
      exact parseSigned_error h

/-- The only value of the type that is not read back from its canonical decimal. -/
theorem parseSigned_printInt_iff (i : ℤ) :
    InType i ∧ parseSigned max (printInt i) ≠ .ok i ↔ i = least := by
  have hdenotes := denotesInt_printInt i
  rw [hin i, Ne, parseSigned_ok_iff]
  constructor
  · rintro ⟨⟨hlow, hhigh⟩, hnot⟩
    by_contra hne
    exact hnot ⟨hdenotes, by omega, hhigh⟩
  · rintro rfl
    refine ⟨⟨le_rfl, by omega⟩, ?_⟩
    rintro ⟨-, hlow, -⟩
    omega

end Signed

/-- **`bytes_to_i64` and `bytes_to_i32` are exact precisely on the texts that do not denote the
least value of their type**, and this is the only value that is not read back from its canonical
decimal. -/
theorem signed_exact_iff (bytes : Bytes) (i : ℤ) :
    (ReadsExactly (fun n => DenotesInt bytes n ∧ InI64 n) (bytesToI64 bytes) ↔
        ¬ DenotesInt bytes (-2 ^ 63)) ∧
      (ReadsExactly (fun n => DenotesInt bytes n ∧ InI32 n) (bytesToI32 bytes) ↔
        ¬ DenotesInt bytes (-2 ^ 31)) ∧
      (InI64 i ∧ bytesToI64 (printInt i) ≠ .ok i ↔ i = -2 ^ 63) ∧
      (InI32 i ∧ bytesToI32 (printInt i) ≠ .ok i ↔ i = -2 ^ 31) := by
  have hleast64 : (-2 ^ 63 : ℤ) = -((2 ^ 63 - 1 : ℕ) : ℤ) - 1 := by norm_num
  have hleast32 : (-2 ^ 31 : ℤ) = -((2 ^ 31 - 1 : ℕ) : ℤ) - 1 := by norm_num
  have hin64 : ∀ i, InI64 i ↔ -2 ^ 63 ≤ i ∧ i ≤ ((2 ^ 63 - 1 : ℕ) : ℤ) := by
    intro i
    unfold InI64
    omega
  have hin32 : ∀ i, InI32 i ↔ -2 ^ 31 ≤ i ∧ i ≤ ((2 ^ 31 - 1 : ℕ) : ℤ) := by
    intro i
    unfold InI32
    omega
  refine ⟨?_, ?_, ?_, ?_⟩
  · exact parseSigned_exact_iff hleast64 hin64 bytes
  · exact parseSigned_exact_iff hleast32 hin32 bytes
  · exact parseSigned_printInt_iff hleast64 hin64 i
  · exact parseSigned_printInt_iff hleast32 hin32 i

/-- The least values of the two types are in range and denoted by these texts, which are refused. -/
theorem least_values_refused :
    bytesToI64 (ascii "-9223372036854775808") = .error .parseError ∧
      ¬ ReadsExactly (fun i => DenotesInt (ascii "-9223372036854775808") i ∧ InI64 i)
        (bytesToI64 (ascii "-9223372036854775808")) ∧
      bytesToI32 (ascii "-2147483648") = .error .parseError ∧
      ¬ ReadsExactly (fun i => DenotesInt (ascii "-2147483648") i ∧ InI32 i)
        (bytesToI32 (ascii "-2147483648")) := by
  have h64 : printInt (-2 ^ 63) = ascii "-9223372036854775808" := by decide +kernel
  have h32 : printInt (-2 ^ 31) = ascii "-2147483648" := by decide +kernel
  have hrefused64 : bytesToI64 (ascii "-9223372036854775808") = .error .parseError := by
    decide +kernel
  have hrefused32 : bytesToI32 (ascii "-2147483648") = .error .parseError := by decide +kernel
  refine ⟨hrefused64, ?_, hrefused32, ?_⟩
  · intro hexact
    have hdenotes := denotesInt_printInt (-2 ^ 63)
    rw [h64] at hdenotes
    have hread := (hexact.ok_iff (-2 ^ 63)).mpr ⟨hdenotes, by decide⟩
    rw [hrefused64] at hread
    cases hread
  · intro hexact
    have hdenotes := denotesInt_printInt (-2 ^ 31)
    rw [h32] at hdenotes
    have hread := (hexact.ok_iff (-2 ^ 31)).mpr ⟨hdenotes, by decide⟩
    rw [hrefused32] at hread
    cases hread

end Heaven
