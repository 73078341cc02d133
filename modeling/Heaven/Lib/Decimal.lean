import Mathlib.Data.Nat.Digits.Defs
import Mathlib.Tactic.IntervalCases

/-! # Decimal text

Decimal notation as lists of bytes.  `print n` is the canonical decimal of `n` (the digits of
`Nat.toDigits` as ASCII), `value bs` the number a digit string denotes, and `printInt` puts a
minus sign in front of the magnitude of a negative number.  `value_print` and `valueInt_printInt`
are the round trips.

`Denotes` and `DenotesInt` are the relations between a text and its number, for any number of
leading zeros; a digit counts by its position, as in `Nat.ofDigits`, and `denotes_iff` says that
`value` computes the number. -/

namespace Decimal

/-- The ASCII bytes of a string. -/
def ascii (s : String) : List UInt8 := s.toList.map fun c => UInt8.ofNat c.toNat

/-- An ASCII decimal digit. -/
def isDigit (b : UInt8) : Bool := decide (48 ≤ b.toNat ∧ b.toNat ≤ 57)

/-- The number a digit stands for. -/
def digit (b : UInt8) : ℕ := (b - 48).toNat

/-- Horner evaluation of a digit string in front of which `acc` has been read. -/
def valueFrom : ℕ → List UInt8 → ℕ
  | acc, [] => acc
  | acc, b :: bs => valueFrom (acc * 10 + digit b) bs

def value (bs : List UInt8) : ℕ := valueFrom 0 bs

/-- The canonical decimal of a natural number. -/
def print (n : ℕ) : List UInt8 := (Nat.toDigits 10 n).map fun c => UInt8.ofNat c.toNat

/-- The canonical decimal of an integer. -/
def printInt (i : ℤ) : List UInt8 := if i < 0 then 45 :: print i.natAbs else print i.natAbs

/-- The integer a digit string denotes, perhaps after a minus sign. -/
def valueInt : List UInt8 → ℤ
  | [] => 0
  | b :: bs => if b = 45 then -(value bs : ℤ) else value (b :: bs)

/-! ### Evaluation -/

@[simp] theorem valueFrom_nil (acc : ℕ) : valueFrom acc [] = acc := by rw [valueFrom]

@[simp] theorem valueFrom_cons (acc : ℕ) (b : UInt8) (bs : List UInt8) :
    valueFrom acc (b :: bs) = valueFrom (acc * 10 + digit b) bs := by rw [valueFrom]

theorem valueFrom_append (acc : ℕ) (bs cs : List UInt8) :
    valueFrom acc (bs ++ cs) = valueFrom (valueFrom acc bs) cs := by
  induction bs generalizing acc with
  | nil => simp
  | cons b bs ih => simp [ih]

theorem le_valueFrom (acc : ℕ) : ∀ bs : List UInt8, acc ≤ valueFrom acc bs := by
  intro bs
  induction bs generalizing acc with
  | nil => exact le_rfl
  | cons b bs ih =>
      have hstep : acc ≤ acc * 10 + digit b := by omega
      exact le_trans hstep (ih (acc * 10 + digit b))

/-! ### Printing -/

theorem digitChar_byte (d : ℕ) (h : d < 10) :
    UInt8.ofNat (Nat.digitChar d).toNat = UInt8.ofNat (48 + d) := by
  interval_cases d <;> rfl

theorem print_of_lt {n : ℕ} (h : n < 10) : print n = [UInt8.ofNat (48 + n)] := by
  unfold print
  rw [Nat.toDigits_of_lt_base h, List.map_singleton, digitChar_byte n h]

theorem print_of_le {n : ℕ} (h : 10 ≤ n) :
    print n = print (n / 10) ++ [UInt8.ofNat (48 + n % 10)] := by
  unfold print
  rw [Nat.toDigits_of_base_le (by norm_num) h, List.map_append, List.map_singleton,
    digitChar_byte _ (Nat.mod_lt _ (by norm_num))]

theorem toNat_digit {d : ℕ} (h : d < 10) : (UInt8.ofNat (48 + d)).toNat = 48 + d := by
  simp only [UInt8.toNat_ofNat']
  omega

theorem digit_ofNat {d : ℕ} (h : d < 10) : digit (UInt8.ofNat (48 + d)) = d := by
  have h₁ := toNat_digit h
  have h₂ : (48 : UInt8) ≤ UInt8.ofNat (48 + d) := by
    rw [UInt8.le_iff_toNat_le, h₁]
    exact Nat.le_add_right 48 d
  have h₃ : (48 : UInt8).toNat = 48 := rfl
  rw [digit, UInt8.toNat_sub_of_le _ _ h₂]
  omega

theorem print_ne_nil (n : ℕ) : print n ≠ [] := by
  simp [print, Nat.toDigits_ne_nil]

theorem length_print_le {n k : ℕ} (hk : 0 < k) (h : n < 10 ^ k) : (print n).length ≤ k := by
  induction k generalizing n with
  | zero => exact absurd hk (Nat.lt_irrefl 0)
  | succ k ih =>
      rcases Nat.lt_or_ge n 10 with hn | hn
      · rw [print_of_lt hn]
        exact Nat.succ_le_succ (Nat.zero_le k)
      · have hk : 0 < k := by
          by_contra hzero
          obtain rfl : k = 0 := by omega
          omega
        have hdiv : n / 10 < 10 ^ k := Nat.div_lt_of_lt_mul (by rw [pow_succ] at h; omega)
        have hfront := ih hk hdiv
        rw [print_of_le hn, List.length_append, List.length_singleton]
        omega

/-- Everything that is printed is a digit. -/
theorem isDigit_of_mem_print (n : ℕ) : ∀ b ∈ print n, isDigit b = true := by
  induction n using Nat.strong_induction_on with
  | _ n ih =>
      have key : ∀ d, d < 10 → isDigit (UInt8.ofNat (48 + d)) = true := by
        intro d hd
        simp only [isDigit, toNat_digit hd, decide_eq_true_eq]
        omega
      intro b hb
      rcases Nat.lt_or_ge n 10 with h | h
      · rw [print_of_lt h, List.mem_singleton] at hb
        rw [hb]
        exact key n h
      · rw [print_of_le h, List.mem_append, List.mem_singleton] at hb
        rcases hb with hb | hb
        · exact ih (n / 10) (by omega) b hb
        · rw [hb]
          exact key _ (Nat.mod_lt _ (by norm_num))

/-- **The printed digits denote the number.** -/
theorem value_print (n : ℕ) : value (print n) = n := by
  unfold value
  induction n using Nat.strong_induction_on with
  | _ n ih =>
      rcases Nat.lt_or_ge n 10 with h | h
      · rw [print_of_lt h, valueFrom_cons, valueFrom_nil, digit_ofNat h]
        omega
      · have hfront : valueFrom 0 (print (n / 10)) = n / 10 := ih (n / 10) (by omega)
        have hlast : n % 10 < 10 := Nat.mod_lt n (by norm_num)
        rw [print_of_le h, valueFrom_append, hfront, valueFrom_cons, valueFrom_nil,
          digit_ofNat hlast]
        exact Nat.div_add_mod' n 10

theorem print_head (n : ℕ) : ∃ b rest, print n = b :: rest ∧ b ≠ 45 := by
  obtain ⟨b, rest, h⟩ := List.exists_cons_of_ne_nil (print_ne_nil n)
  refine ⟨b, rest, h, ?_⟩
  rintro rfl
  have hmem : 45 ∈ print n := by
    rw [h]
    exact List.mem_cons_self
  have hdigit := isDigit_of_mem_print n 45 hmem
  exact absurd hdigit (by decide)

/-- **The printed integer denotes the integer.** -/
theorem valueInt_printInt (i : ℤ) : valueInt (printInt i) = i := by
  unfold printInt
  split_ifs with hi
  · rw [valueInt, if_pos rfl, value_print]
    omega
  · obtain ⟨b, rest, hp, hb⟩ := print_head i.natAbs
    rw [hp, valueInt, if_neg hb, ← hp, value_print]
    omega

/-! ### What a text denotes -/

/-- The text is one or more digits, the most significant one first. -/
structure Denotes (digits : List UInt8) (n : ℕ) : Prop where
  nonempty : digits ≠ []
  allDigits : ∀ b ∈ digits, isDigit b = true
  positional : Nat.ofDigits 10 (digits.reverse.map digit) = n

/-- The text is a digit string, perhaps after a minus sign. -/
inductive DenotesInt : List UInt8 → ℤ → Prop
  | plain {digits : List UInt8} {n : ℕ} (h : Denotes digits n) : DenotesInt digits n
  | minus {digits : List UInt8} {n : ℕ} (h : Denotes digits n) : DenotesInt (45 :: digits) (-n)

/-- What has been read counts by the number of digits that follow it. -/
theorem valueFrom_eq_ofDigits (acc : ℕ) (bs : List UInt8) :
    valueFrom acc bs = Nat.ofDigits 10 (bs.reverse.map digit) + acc * 10 ^ bs.length := by
  induction bs generalizing acc with
  | nil => simp
  | cons b bs ih =>
      have hback : (b :: bs).reverse.map digit = bs.reverse.map digit ++ [digit b] := by simp
      have hlength : (bs.reverse.map digit).length = bs.length := by simp
      rw [valueFrom_cons, ih, hback, Nat.ofDigits_append, Nat.ofDigits_singleton, hlength,
        List.length_cons, pow_succ]
      ring

/-- **Evaluation from the left gives the positional value.** -/
theorem denotes_iff {bs : List UInt8} {n : ℕ} :
    Denotes bs n ↔ bs ≠ [] ∧ bs.all isDigit = true ∧ value bs = n := by
  have hvalue : value bs = Nat.ofDigits 10 (bs.reverse.map digit) := by
    rw [value, valueFrom_eq_ofDigits]
    simp
  rw [hvalue, List.all_eq_true]
  constructor
  · intro h
    exact ⟨h.nonempty, h.allDigits, h.positional⟩
  · rintro ⟨hne, hall, hn⟩
    exact ⟨hne, hall, hn⟩

theorem denotesInt_minus_iff {digits : List UInt8} {i : ℤ} :
    DenotesInt (45 :: digits) i ↔ ∃ n : ℕ, Denotes digits n ∧ -(n : ℤ) = i := by
  constructor
  · intro h
    cases h with
    | plain h =>
        -- a minus sign is no digit
        have hsign := h.allDigits 45 (by simp)
        exact absurd hsign (by decide)
    | minus h => exact ⟨_, h, rfl⟩
  · rintro ⟨n, h, rfl⟩
    exact .minus h

theorem denotesInt_plain_iff {digits : List UInt8} (hsign : digits.head? ≠ some 45) {i : ℤ} :
    DenotesInt digits i ↔ ∃ n : ℕ, Denotes digits n ∧ (n : ℤ) = i := by
  constructor
  · intro h
    cases h with
    | plain h => exact ⟨_, h, rfl⟩
    | minus h => simp at hsign
  · rintro ⟨n, h, rfl⟩
    exact .plain h

theorem denotes_print (n : ℕ) : Denotes (print n) n := by
  apply denotes_iff.mpr
  refine ⟨print_ne_nil n, ?_, value_print n⟩
  rw [List.all_eq_true]
  exact isDigit_of_mem_print n

theorem denotesInt_printInt (i : ℤ) : DenotesInt (printInt i) i := by
  have h := denotes_print i.natAbs
  unfold printInt
  split_ifs with hi
  · have hneg : -(i.natAbs : ℤ) = i := by omega
    have hminus := DenotesInt.minus h
    rwa [hneg] at hminus
  · have hpos : (i.natAbs : ℤ) = i := by omega
    have hplain := DenotesInt.plain h
    rwa [hpos] at hplain

end Decimal
