import Heaven.ListCommands

/-! # The index arithmetic of the list commands

The bodies of LRANGE, LINDEX, LSET and LREM once more, over an `Arithmetic`: a way to convert a
length and to add and subtract 32-bit integers.  With `wrapping`, the arithmetic of the release
build, they are the bodies that `rangeOf`, `normalizeIndex` and `removeOccurrences` translate
(`rangeWith_wrapping`, `indexWith_wrapping`, `removeWith_wrapping`).  With `faithful` they have a
result exactly if every value they compute is the one over the integers.

The one computation that can go wrong on a list of ordinary length is the distance of the two
indices of LRANGE (`rangeWith_isSome_iff`). -/

namespace Heaven

/-- The operations on `i32` in the list commands. -/
structure Arithmetic (m : Type → Type) where
  /-- `list.len() as i32`. -/
  ofLen : ℕ → m ℤ
  add : ℤ → ℤ → m ℤ
  sub : ℤ → ℤ → m ℤ

namespace Arithmetic

/-- The arithmetic of the release build. -/
def wrapping : Arithmetic Id where
  ofLen len := wrapI32 len
  add i j := wrapI32 (i + j)
  sub i j := wrapI32 (i - j)

/-- The value of a computation if the 32-bit value is the integer. -/
def agreed (i : ℤ) : Option ℤ := if wrapI32 i = i then some i else none

/-- The arithmetic that goes on only while every value is the one over the integers. -/
def faithful : Arithmetic Option where
  ofLen len := agreed len
  add i j := agreed (i + j)
  sub i j := agreed (i - j)

theorem wrapI32_eq_iff {i : ℤ} : wrapI32 i = i ↔ InI32 i := by
  constructor
  · intro h
    rw [← h]
    exact wrapI32_inI32 i
  · exact wrapI32_eq

theorem agreed_of_inI32 {i : ℤ} (h : InI32 i) : agreed i = some i := if_pos (wrapI32_eq h)

theorem agreed_eq_none {i : ℤ} (h : ¬ InI32 i) : agreed i = none :=
  if_neg (wrapI32_eq_iff.not.mpr h)

/-- A value that fits is computed as over the integers. -/
structure Sound {m : Type → Type} [Monad m] (A : Arithmetic m) : Prop where
  ofLen : ∀ {len : ℕ}, len < 2 ^ 31 → A.ofLen len = pure (len : ℤ)
  add : ∀ {i j : ℤ}, InI32 (i + j) → A.add i j = pure (i + j)
  sub : ∀ {i j : ℤ}, InI32 (i - j) → A.sub i j = pure (i - j)

theorem inI32_natCast {len : ℕ} : InI32 len ↔ len < 2 ^ 31 := by
  unfold InI32
  omega

theorem wrapping_sound : wrapping.Sound := by
  constructor
  · intro len h
    have hfit : InI32 len := inI32_natCast.mpr h
    simp only [wrapping, wrapI32_eq hfit, pure]
  · intro i j h
    exact wrapI32_eq h
  · intro i j h
    exact wrapI32_eq h

theorem faithful_sound : faithful.Sound := by
  constructor
  · intro len h
    have hfit : InI32 len := inI32_natCast.mpr h
    simp only [faithful, agreed_of_inI32 hfit, pure]
  · intro i j h
    exact agreed_of_inI32 h
  · intro i j h
    exact agreed_of_inI32 h

end Arithmetic

namespace Soul

open Arithmetic
open Decimal (ascii)

variable {m : Type → Type} [Monad m] (A : Arithmetic m)

/-! ### The bodies of the methods -/

/-- `if index < 0 { index += list_len; }`. -/
def fromEndWith (listLen index : ℤ) : m ℤ := if index < 0 then A.add index listLen else pure index

/-- `if ending_index >= list_len { ending_index = list_len - 1; }`. -/
def clampWith (listLen endingIndex : ℤ) : m ℤ :=
  if endingIndex ≥ listLen then A.sub listLen 1 else pure endingIndex

/-- The arguments of `list.range` in `lrange`, if it comes to the call. -/
def boundsWith (len : ℕ) (startingIndex endingIndex : ℤ) : m (Option (ℤ × ℤ)) := do
  let listLen ← A.ofLen len
  let startingIndex ← fromEndWith A listLen startingIndex
  let endingIndex ← fromEndWith A listLen endingIndex
  let startingIndex := if startingIndex < 0 then 0 else startingIndex
  let endingIndex ← clampWith A listLen endingIndex
  let distance ← A.sub endingIndex startingIndex
  if distance ≥ 0 ∧ startingIndex < listLen ∧ endingIndex < listLen then
    let next ← A.add endingIndex 1
    return some (startingIndex, next)
  else return none

/-- `list.range(start..stop)`, or nothing if it does not come to the call. -/
def rangeAt (list : List Bytes) : Option (ℤ × ℤ) → Except Panic (List (Option Bytes))
  | some (start, stop) =>
      (listRange list (asUsize start) (asUsize stop)).map fun elements => elements.map some
  | none => .ok []

/-- The body of `lrange`. -/
def rangeWith (list : List Bytes) (startingIndex endingIndex : ℤ) :
    m (Except Panic (List (Option Bytes))) := do
  let bounds ← boundsWith A list.length startingIndex endingIndex
  return rangeAt list bounds

/-- The index that `lindex` and `lset` access, if it passes their check. -/
def indexWith (len : ℕ) (index : ℤ) : m (Option ℤ) := do
  let listLen ← A.ofLen len
  let index ← fromEndWith A listLen index
  return if index < 0 ∨ index ≥ listLen then none else some index

/-- `while idx >= 0 && count < 0 { .. }`, as long as the fuel lasts. -/
def backwardWith (element : Bytes) : ℕ → ℤ → List Bytes → ℤ → m (Except Panic (List Bytes))
  | 0, _, list, _ => return .ok list
  | fuel + 1, idx, list, count =>
      if idx ≥ 0 ∧ count < 0 then
        match list[asUsize idx]? with
        | some found =>
            if found = element then do
              let count ← A.add count 1
              let idx' ← A.sub idx 1
              backwardWith element fuel idx' (list.eraseIdx (asUsize idx)) count
            else do
              let idx ← A.sub idx 1
              backwardWith element fuel idx list count
        | none => return .error .indexOutOfBounds
      else return .ok list

/-- `while idx < list_len && count > 0 { .. }`; the first argument is `list_len - idx`. -/
def forwardWith (element : Bytes) : ℕ → ℕ → List Bytes → ℤ → m (Except Panic (List Bytes))
  | 0, _, list, _ => return .ok list
  | left + 1, idx, list, count =>
      if count > 0 then
        match list[idx]? with
        | some found =>
            if found = element then do
              let count ← A.sub count 1
              forwardWith element left idx (list.eraseIdx idx) count
            else forwardWith element left (idx + 1) list count
        | none => return .error .indexOutOfBounds
      else return .ok list

/-- The three ways of `lrem` to remove from a list. -/
def removeWith (list : List Bytes) (count : ℤ) (element : Bytes) :
    m (Except Panic (List Bytes)) := do
  if count < 0 then
    let listLen ← A.ofLen list.length
    let idx ← A.sub listLen 1
    backwardWith A element (idx + 1).toNat idx list count
  else if count > 0 then forwardWith A element list.length 0 list count
  else return .ok (list.filter fun existing => existing ≠ element)

/-! ### Computations that fit -/

section fits

variable {A} (hA : A.Sound)
include hA

theorem fromEndWith_eq {listLen index : ℤ} (hlen : InI32 listLen) (h₀ : 0 ≤ listLen)
    (hindex : InI32 index) :
    fromEndWith A listLen index = pure (if index < 0 then index + listLen else index) := by
  unfold InI32 at hlen hindex
  unfold fromEndWith
  split_ifs with hneg
  · apply hA.add
    exact ⟨by omega, by omega⟩
  · rfl

theorem clampWith_eq {listLen : ℤ} (hlen : InI32 listLen) (h₀ : 0 ≤ listLen) (endingIndex : ℤ) :
    clampWith A listLen endingIndex =
      pure (if endingIndex ≥ listLen then listLen - 1 else endingIndex) := by
  unfold InI32 at hlen
  unfold clampWith
  split_ifs
  · apply hA.sub
    exact ⟨by omega, by omega⟩
  · rfl

variable [LawfulMonad m]

/-- The backward loop starts within 32 bits and only moves towards zero. -/
theorem backwardWith_eq (element : Bytes) {n : ℕ} {idx : ℤ} (list : List Bytes) {count : ℤ}
    (hidx : 0 < n → idx = n - 1) (hn : n ≤ 2 ^ 31) (hcount : InI32 count) :
    backwardWith A element n idx list count = pure (lremBackward element n list count) := by
  induction n generalizing idx list count with
  | zero => rfl
  | succ n ih =>
      unfold InI32 at hcount
      have hidx' : idx = n := by
        have := hidx (Nat.succ_pos n)
        omega
      have hprev : A.sub idx 1 = pure (idx - 1) := by
        apply hA.sub
        exact ⟨by omega, by omega⟩
      have husize : asUsize idx = n := by
        rw [asUsize_eq ⟨by omega, by omega⟩ (by omega)]
        omega
      rw [backwardWith, lremBackward, husize, hprev]
      by_cases hneg : count < 0
      · have hnext : A.add count 1 = pure (count + 1) := by
          apply hA.add
          exact ⟨by omega, by omega⟩
        rw [if_pos ⟨by omega, hneg⟩, if_pos hneg, hnext]
        cases list[n]? with
        | none => rfl
        | some found =>
            simp only [pure_bind]
            split_ifs
            · exact ih _ (fun _ => by omega) (by omega) ⟨by omega, by omega⟩
            · exact ih _ (fun _ => by omega) (by omega) hcount
      · rw [if_neg fun h => hneg h.2, if_neg hneg]

theorem forwardWith_eq (element : Bytes) (left idx : ℕ) (list : List Bytes) {count : ℤ}
    (hcount : InI32 count) :
    forwardWith A element left idx list count = pure (lremForward element left idx list count) := by
  induction left generalizing idx list count with
  | zero => rfl
  | succ left ih =>
      rw [forwardWith, lremForward]
      by_cases hpos : count > 0
      · unfold InI32 at hcount
        have hprev : A.sub count 1 = pure (count - 1) := by
          apply hA.sub
          exact ⟨by omega, by omega⟩
        rw [if_pos hpos, if_pos hpos, hprev]
        cases list[idx]? with
        | none => rfl
        | some found =>
            simp only [pure_bind]
            split_ifs
            · exact ih _ _ ⟨by omega, by omega⟩
            · exact ih _ _ hcount
      · rw [if_neg hpos, if_neg hpos]

end fits

/-! ### The release build -/

theorem rangeWith_wrapping (list : List Bytes) (startingIndex endingIndex : ℤ) :
    rangeWith wrapping list startingIndex endingIndex = rangeOf list startingIndex endingIndex := by
  unfold rangeWith boundsWith fromEndWith clampWith rangeOf wrapping
  simp only [bind, pure]
  exact apply_ite (rangeAt list) _ _ _

theorem indexWith_wrapping (list : List Bytes) (index : ℤ) :
    indexWith wrapping list.length index =
      if normalizeIndex list index < 0 ∨ normalizeIndex list index ≥ wrapI32 list.length then none
      else some (normalizeIndex list index) := by
  unfold indexWith fromEndWith normalizeIndex wrapping
  simp only [bind, pure]

theorem removeWith_wrapping (list : List Bytes) {count : ℤ} (hcount : InI32 count)
    (element : Bytes) :
    removeWith wrapping list count element = removeOccurrences list count element := by
  unfold removeWith removeOccurrences
  split_ifs
  · simp only [bind, wrapping]
    have hstart : InI32 (wrapI32 (wrapI32 list.length - 1)) := wrapI32_inI32 _
    unfold InI32 at hstart
    exact backwardWith_eq wrapping_sound element list (fun _ => by omega) (by omega) hcount
  · exact forwardWith_eq wrapping_sound element list.length 0 list hcount
  · rfl

/-! ### When every value is the integer -/

/-- The distance of the indices of LRANGE fits in 32 bits unless the first lies near the largest
index and the last far before the list. -/
theorem span_inI32_iff {list : List Bytes} {start stop : ℤ} (h : list.length < 2 ^ 31)
    (hstart : InI32 start) (hstop : InI32 stop) :
    InI32 (lastIndex list stop - firstIndex list start) ↔
      (0 ≤ start → stop < 0 → start ≤ stop + list.length + 2 ^ 31) := by
  unfold InI32 at hstart hstop ⊢
  unfold firstIndex lastIndex
  omega

theorem faithful_ofLen_eq_none {len : ℕ} (h : ¬ len < 2 ^ 31) : faithful.ofLen len = none := by
  have hfit : ¬ InI32 len := inI32_natCast.not.mpr h
  simp only [faithful, agreed_eq_none hfit]

theorem faithful_sub_eq_none {i j : ℤ} (h : ¬ InI32 (i - j)) : faithful.sub i j = none :=
  agreed_eq_none h

/-- LRANGE computes as over the integers exactly if the length and the distance fit. -/
theorem rangeWith_isSome_iff {list : List Bytes} {start stop : ℤ} (hstart : InI32 start)
    (hstop : InI32 stop) :
    (rangeWith faithful list start stop).isSome ↔
      list.length < 2 ^ 31 ∧ (0 ≤ start → stop < 0 → start ≤ stop + list.length + 2 ^ 31) := by
  unfold rangeWith boundsWith
  by_cases hlen : list.length < 2 ^ 31
  · have hfit := inI32_natCast.mpr hlen
    have hnonneg : (0 : ℤ) ≤ list.length := Int.natCast_nonneg _
    rw [← span_inI32_iff hlen hstart hstop, faithful_sound.ofLen hlen]
    simp only [pure_bind, fromEndWith_eq faithful_sound hfit hnonneg hstart,
      fromEndWith_eq faithful_sound hfit hnonneg hstop,
      clampWith_eq faithful_sound hfit hnonneg, firstIndex_eq, lastIndex_eq]
    by_cases hspan : InI32 (lastIndex list stop - firstIndex list start)
    · rw [faithful_sound.sub hspan, pure_bind]
      apply iff_of_true _ ⟨hlen, hspan⟩
      split_ifs with hcall
      · have hnext : InI32 (lastIndex list stop + 1) := by
          have h₀ := firstIndex_nonneg list start
          have hlt := lastIndex_lt list stop
          exact ⟨by omega, by omega⟩
        rw [faithful_sound.add hnext]
        rfl
      · rfl
    · rw [faithful_sub_eq_none hspan]
      exact iff_of_false Bool.false_ne_true fun h => hspan h.2
  · rw [faithful_ofLen_eq_none hlen]
    exact iff_of_false Bool.false_ne_true fun h => hlen h.1

/-- LINDEX and LSET compute as over the integers exactly if the length fits. -/
theorem indexWith_isSome_iff {len : ℕ} {index : ℤ} (hindex : InI32 index) :
    (indexWith faithful len index).isSome ↔ len < 2 ^ 31 := by
  unfold indexWith
  by_cases hlen : len < 2 ^ 31
  · rw [faithful_sound.ofLen hlen, pure_bind,
      fromEndWith_eq faithful_sound (inI32_natCast.mpr hlen) (Int.natCast_nonneg _) hindex]
    exact iff_of_true rfl hlen
  · rw [faithful_ofLen_eq_none hlen]
    exact iff_of_false Bool.false_ne_true hlen

/-- LREM computes as over the integers exactly if the length fits or is not converted. -/
theorem removeWith_isSome_iff {list : List Bytes} {count : ℤ} (hcount : InI32 count)
    (element : Bytes) :
    (removeWith faithful list count element).isSome ↔ (count < 0 → list.length < 2 ^ 31) := by
  unfold removeWith
  split_ifs with hneg hpos
  · by_cases hlen : list.length < 2 ^ 31
    · have hstart : InI32 (list.length - 1) := ⟨by omega, by omega⟩
      rw [faithful_sound.ofLen hlen, pure_bind, faithful_sound.sub hstart, pure_bind,
        backwardWith_eq faithful_sound element list (fun _ => by omega) (by omega) hcount]
      exact iff_of_true rfl fun _ => hlen
    · rw [faithful_ofLen_eq_none hlen]
      exact iff_of_false Bool.false_ne_true fun h => hlen (h hneg)
  · rw [forwardWith_eq faithful_sound element _ _ list hcount]
    exact iff_of_true rfl fun h => absurd h hneg
  · exact iff_of_true rfl fun h => absurd h hneg

/-- The commands that compute with 32-bit indices or counts on a list. -/
inductive IndexCommand where
  | lrange (startingIndex endingIndex : ℤ)
  | lindex (index : ℤ)
  | lset (index : ℤ)
  | lrem (count : ℤ) (element : Bytes)

namespace IndexCommand

/-- The arguments are 32-bit integers. -/
def InRange : IndexCommand → Prop
  | .lrange startingIndex endingIndex => InI32 startingIndex ∧ InI32 endingIndex
  | .lindex index | .lset index => InI32 index
  | .lrem count _ => InI32 count

/-- Every value the command computes on the list is the one over the integers. -/
def Exact (list : List Bytes) : IndexCommand → Prop
  | .lrange startingIndex endingIndex => (rangeWith faithful list startingIndex endingIndex).isSome
  | .lindex index | .lset index => (indexWith faithful list.length index).isSome
  | .lrem count element => (removeWith faithful list count element).isSome

/-- The length fits where the command converts it, and so does the distance of the indices of
LRANGE. -/
def Fits (list : List Bytes) : IndexCommand → Prop
  | .lrange startingIndex endingIndex =>
      list.length < 2 ^ 31 ∧
        (0 ≤ startingIndex → endingIndex < 0 →
          startingIndex ≤ endingIndex + list.length + 2 ^ 31)
  | .lindex _ | .lset _ => list.length < 2 ^ 31
  | .lrem count _ => count < 0 → list.length < 2 ^ 31

end IndexCommand

/-- **The index arithmetic is exact if and only if** the list has fewer than 2 ^ 31 elements, where
its length is converted, and the two indices of LRANGE are at most 2 ^ 31 apart. -/
theorem exact_iff (list : List Bytes) {command : IndexCommand} (h : command.InRange) :
    command.Exact list ↔ command.Fits list := by
  cases command with
  | lrange startingIndex endingIndex => exact rangeWith_isSome_iff h.1 h.2
  | lindex index => exact indexWith_isSome_iff h
  | lset index => exact indexWith_isSome_iff h
  | lrem count element => exact removeWith_isSome_iff h element

/-- LRANGE with the indices of the whole list. -/
theorem exact_iff_whole :
    (IndexCommand.lrange 0 (-1)).Exact [ascii "a"] ↔
      (IndexCommand.lrange 0 (-1)).Fits [ascii "a"] :=
  exact_iff [ascii "a"] ⟨by decide, by decide⟩

/-- The distance from the largest index to the least that can be sent does not fit. -/
theorem lrange_distance_overflows :
    ¬ ∀ (s : Soul) (key : Bytes) (list : List Bytes) (expiry : Option ℕ) (now : ℕ)
      (startText stopText : Bytes) (start stop : ℤ), s.get? key = some (.list list, expiry) →
        isExpired expiry now = false → bytesToI32 startText = .ok start →
          bytesToI32 stopText = .ok stop → (IndexCommand.lrange start stop).Exact list := by
  intro h
  have hexact := h (Soul.new.set (ascii "k") (.list [ascii "a"], none)) (ascii "k") [ascii "a"] none
    0 (ascii "2147483647") (ascii "-2147483647") 2147483647 (-2147483647)
    (Dict.get?_insert_self _ _ _) rfl rfl rfl
  obtain ⟨-, hdistance⟩ := (rangeWith_isSome_iff (by decide) (by decide)).mp hexact
  have := hdistance (by decide) (by decide)
  simp at this

end Soul
end Heaven
