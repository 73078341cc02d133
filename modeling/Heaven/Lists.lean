import Heaven.Accepted

/-! # List indices and removals

The list methods of `Soul` compute in wrapping 32-bit arithmetic on the truncated length of the
list, whatever the length is.  No access they make is out of bounds: a truncated length that passes
the checks is at most the length (`wrapI32_natCast_le`).

`dropFirst` is what LREM is for; `removeOccurrences_spec` says how the two scanning loops compute
it, the backward loop on the part of the list that the truncated length covers. -/

namespace Heaven

/-! ### Wrapping arithmetic -/

theorem wrapI32_eq {i : ℤ} (h : InI32 i) : wrapI32 i = i := by
  unfold InI32 at h
  exact Int.bmod_eq_of_le (by omega) (by omega)

theorem wrapI32_inI32 (i : ℤ) : InI32 (wrapI32 i) := by
  unfold InI32 wrapI32 Int.bmod
  dsimp only
  split_ifs <;> omega

theorem wrapI32_natCast_le (n : ℕ) : wrapI32 n ≤ n := by
  unfold wrapI32 Int.bmod
  dsimp only
  split_ifs <;> omega

theorem asUsize_eq {i : ℤ} (h : InI32 i) (h₀ : 0 ≤ i) : asUsize i = i.toNat := by
  unfold InI32 at h
  unfold asUsize
  rw [Int.emod_eq_of_lt h₀ (by omega)]

namespace Soul

/-! ### LRANGE and LSET -/

theorem listRange_ok {list : List Bytes} {start stop : ℕ} (h₁ : start ≤ stop)
    (h₂ : stop ≤ list.length) :
    listRange list start stop = .ok ((list.drop start).take (stop - start)) :=
  if_pos ⟨h₁, h₂⟩

/-- With a positive length, the last index of LRANGE stays so close to the length that its distance
to a valid first index fits in 32 bits. -/
theorem endingIndex_bounds {endingIndex listLen : ℤ} (he : InI32 endingIndex)
    (hl : InI32 listLen) (hpos : 0 < listLen) {stop : ℤ}
    (hstop : stop =
      let stop := if endingIndex < 0 then wrapI32 (endingIndex + listLen) else endingIndex
      if stop ≥ listLen then wrapI32 (listLen - 1) else stop) :
    -2 ^ 31 + listLen ≤ stop ∧ stop < listLen := by
  unfold InI32 at he hl
  have hadd : endingIndex < 0 → wrapI32 (endingIndex + listLen) = endingIndex + listLen := by
    intro hneg
    apply wrapI32_eq
    exact ⟨by omega, by omega⟩
  have hsub : wrapI32 (listLen - 1) = listLen - 1 := by
    apply wrapI32_eq
    exact ⟨by omega, by omega⟩
  rw [hstop, hsub]
  dsimp only
  split_ifs with h₁ h₂ h₂
  · omega
  · rw [hadd h₁] at h₂ ⊢
    omega
  · omega
  · omega

/-- **LRANGE takes its range within the list.** -/
theorem rangeOf_ok (list : List Bytes) (startingIndex : ℤ) {endingIndex : ℤ}
    (he : InI32 endingIndex) :
    ∃ elements, rangeOf list startingIndex endingIndex = .ok elements := by
  have hlen := wrapI32_inI32 list.length
  have hle := wrapI32_natCast_le list.length
  unfold rangeOf
  generalize wrapI32 list.length = listLen at hlen hle ⊢
  dsimp only
  generalize hstart : (if (if startingIndex < 0 then wrapI32 (startingIndex + listLen)
    else startingIndex) < 0 then (0 : ℤ) else _) = start
  generalize hstop : (if (if endingIndex < 0 then wrapI32 (endingIndex + listLen)
    else endingIndex) ≥ listLen then _ else _) = stop
  have hstart₀ : 0 ≤ start := by
    rw [← hstart]
    split_ifs <;> omega
  by_cases hcond : wrapI32 (stop - start) ≥ 0 ∧ start < listLen ∧ stop < listLen
  · rw [if_pos hcond]
    obtain ⟨hdist, hstartlt, hstoplt⟩ := hcond
    obtain ⟨hlow, -⟩ := endingIndex_bounds he hlen (lt_of_le_of_lt hstart₀ hstartlt) hstop.symm
    unfold InI32 at hlen
    have hspan : InI32 (stop - start) := ⟨by omega, by omega⟩
    rw [wrapI32_eq hspan] at hdist
    have hnext : InI32 (stop + 1) := ⟨by omega, by omega⟩
    have hfirst : InI32 start := ⟨by omega, by omega⟩
    rw [wrapI32_eq hnext, asUsize_eq hnext (by omega), asUsize_eq hfirst hstart₀,
      listRange_ok (by omega) (by omega)]
    exact ⟨_, rfl⟩
  · rw [if_neg hcond]
    exact ⟨[], rfl⟩

/-- **LSET writes within the list.** -/
theorem lsetList_ok (index : ℤ) (element : Bytes) (list : List Bytes) :
    ∃ result, (lsetList index element list).2 = .ok result := by
  have hle := wrapI32_natCast_le list.length
  have hlen := wrapI32_inI32 list.length
  unfold lsetList
  dsimp only
  generalize normalizeIndex list index = i
  split_ifs with hout hin
  · exact ⟨_, rfl⟩
  · exact ⟨_, rfl⟩
  · unfold InI32 at hlen
    have hi : InI32 i := ⟨by omega, by omega⟩
    apply absurd _ hin
    rw [asUsize_eq hi (by omega)]
    omega

/-! ### LREM -/

/-- The list without its first `n` occurrences of `element`. -/
def dropFirst (element : Bytes) : ℕ → List Bytes → List Bytes
  | 0, list => list
  | _ + 1, [] => []
  | n + 1, found :: list =>
      if found = element then dropFirst element n list
      else found :: dropFirst element (n + 1) list

@[simp] theorem dropFirst_zero (element : Bytes) (list : List Bytes) :
    dropFirst element 0 list = list := by rw [dropFirst]

@[simp] theorem dropFirst_nil (element : Bytes) (n : ℕ) : dropFirst element n [] = [] := by
  cases n <;> rw [dropFirst]

theorem dropFirst_cons_self (element : Bytes) (n : ℕ) (list : List Bytes) :
    dropFirst element (n + 1) (element :: list) = dropFirst element n list := by
  rw [dropFirst, if_pos rfl]

theorem dropFirst_cons_ne {element found : Bytes} (h : found ≠ element) (n : ℕ)
    (list : List Bytes) :
    dropFirst element n (found :: list) = found :: dropFirst element n list := by
  cases n with
  | zero => simp
  | succ n => rw [dropFirst, if_neg h]

theorem dropFirst_eq_nil {element : Bytes} : ∀ {n : ℕ} {list : List Bytes},
    dropFirst element n list = [] ↔ (∀ found ∈ list, found = element) ∧ list.length ≤ n
  | 0, list => by
      rw [dropFirst_zero]
      constructor
      · rintro rfl
        simp
      · rintro ⟨-, hlength⟩
        exact List.length_eq_zero_iff.mp (Nat.le_zero.mp hlength)
  | n + 1, [] => by simp
  | n + 1, found :: list => by
      by_cases h : found = element
      · subst h
        rw [dropFirst_cons_self, dropFirst_eq_nil]
        simp
      · rw [dropFirst_cons_ne h]
        simp [h]

theorem take_eraseIdx {list : List Bytes} {idx : ℕ} (h : idx < list.length) :
    (list.eraseIdx idx).take idx = list.take idx := by
  rw [List.eraseIdx_eq_take_drop_succ]
  exact List.take_left' (List.length_take_of_le h.le)

theorem drop_eraseIdx {list : List Bytes} {idx : ℕ} (h : idx < list.length) :
    (list.eraseIdx idx).drop idx = list.drop (idx + 1) := by
  rw [List.eraseIdx_eq_take_drop_succ]
  exact List.drop_left' (List.length_take_of_le h.le)

/-- The forward loop works on what lies behind `idx`. -/
theorem lremForward_spec (element : Bytes) (left idx : ℕ) (list : List Bytes) (count : ℤ)
    (h : left + idx = list.length) :
    lremForward element left idx list count =
      .ok (list.take idx ++ dropFirst element count.toNat (list.drop idx)) := by
  induction left generalizing idx list count with
  | zero =>
      have hidx : list.length ≤ idx := by omega
      rw [lremForward, List.take_of_length_le hidx, List.drop_of_length_le hidx, dropFirst_nil,
        List.append_nil]
  | succ left ih =>
      have hidx : idx < list.length := by omega
      rw [lremForward, List.drop_eq_getElem_cons hidx, List.getElem?_eq_getElem hidx]
      by_cases hcount : count > 0
      · obtain ⟨n, hn⟩ : ∃ n, count.toNat = n + 1 := ⟨count.toNat - 1, by omega⟩
        simp only [hcount, if_true]
        by_cases hfound : list[idx] = element
        · have hlength : left + idx = (list.eraseIdx idx).length := by
            rw [List.length_eraseIdx_of_lt hidx]
            omega
          have hn' : (count - 1).toNat = n := by omega
          rw [if_pos hfound, ih idx _ _ hlength, take_eraseIdx hidx, drop_eraseIdx hidx, hfound,
            hn, dropFirst_cons_self, hn']
        · have hlength : left + (idx + 1) = list.length := by omega
          rw [if_neg hfound, ih (idx + 1) list count hlength, dropFirst_cons_ne hfound,
            List.take_succ_eq_append_getElem hidx, List.append_assoc]
          rfl
      · have hzero : count.toNat = 0 := by omega
        simp only [hcount, if_false]
        rw [hzero, dropFirst_zero, ← List.drop_eq_getElem_cons hidx, List.take_append_drop]

/-- The backward loop works on the first `idx` elements, from their end. -/
theorem lremBackward_spec (element : Bytes) (idx : ℕ) (list : List Bytes) (count : ℤ)
    (h : idx ≤ list.length) :
    lremBackward element idx list count =
      .ok ((dropFirst element (-count).toNat (list.take idx).reverse).reverse ++
        list.drop idx) := by
  induction idx generalizing list count with
  | zero => simp [lremBackward]
  | succ idx ih =>
      have hidx : idx < list.length := h
      rw [lremBackward, List.getElem?_eq_getElem hidx, List.take_succ_eq_append_getElem hidx,
        List.reverse_append, List.reverse_singleton, List.singleton_append]
      by_cases hcount : count < 0
      · obtain ⟨n, hn⟩ : ∃ n, (-count).toNat = n + 1 := ⟨(-count).toNat - 1, by omega⟩
        simp only [hcount, if_true]
        by_cases hfound : list[idx] = element
        · have hlength : idx ≤ (list.eraseIdx idx).length := by
            rw [List.length_eraseIdx_of_lt hidx]
            omega
          have hn' : (-(count + 1)).toNat = n := by omega
          rw [if_pos hfound, ih _ _ hlength, take_eraseIdx hidx, drop_eraseIdx hidx, hfound, hn,
            dropFirst_cons_self, hn']
        · rw [if_neg hfound, ih list count hidx.le, dropFirst_cons_ne hfound, List.reverse_cons,
            List.append_assoc, List.singleton_append, ← List.drop_eq_getElem_cons hidx]
      · have hzero : (-count).toNat = 0 := by omega
        simp only [hcount, if_false]
        rw [hzero, dropFirst_zero, List.reverse_cons, List.reverse_reverse, List.append_assoc,
          List.singleton_append, ← List.drop_eq_getElem_cons hidx, List.take_append_drop]

/-- The backward loop starts within the list. -/
theorem backwardStart_le (n : ℕ) : (wrapI32 (wrapI32 n - 1) + 1).toNat ≤ n := by
  unfold wrapI32 Int.bmod
  dsimp only
  split_ifs <;> omega

/-- Up to 2 ^ 31 elements the backward loop starts at the end of the list. -/
theorem backwardStart_eq {n : ℕ} (h : n ≤ 2 ^ 31) : (wrapI32 (wrapI32 n - 1) + 1).toNat = n := by
  unfold wrapI32 Int.bmod
  dsimp only
  split_ifs <;> omega

/-- What LREM leaves of a list. -/
def remaining (list : List Bytes) (count : ℤ) (element : Bytes) : List Bytes :=
  if count < 0 then
    let start := (wrapI32 (wrapI32 list.length - 1) + 1).toNat
    (dropFirst element (-count).toNat (list.take start).reverse).reverse ++ list.drop start
  else if count > 0 then dropFirst element count.toNat list
  else list.filter fun existing => existing ≠ element

/-- **LREM scans within the list.** -/
theorem removeOccurrences_spec (list : List Bytes) (count : ℤ) (element : Bytes) :
    removeOccurrences list count element = .ok (remaining list count element) := by
  unfold removeOccurrences remaining
  split_ifs
  · exact lremBackward_spec element _ list count (backwardStart_le list.length)
  · rw [lremForward_spec element list.length 0 list count (Nat.add_zero _)]
    rfl
  · rfl

/-- The list is emptied exactly if it consists of the element and the count covers its length. -/
theorem remaining_eq_nil {list : List Bytes} {count : ℤ} (hcount : InI32 count) (element : Bytes) :
    remaining list count element = [] ↔
      (∀ found ∈ list, found = element) ∧ (count = 0 ∨ list.length ≤ count.natAbs) := by
  unfold remaining
  split_ifs with hneg hpos
  · dsimp only
    rw [List.append_eq_nil_iff, List.reverse_eq_nil_iff, dropFirst_eq_nil, List.drop_eq_nil_iff,
      List.length_reverse, List.length_take]
    have hle := backwardStart_le list.length
    unfold InI32 at hcount
    constructor
    · rintro ⟨⟨hall, hlen⟩, hstart⟩
      rw [Nat.le_antisymm hle hstart, List.take_length] at hall
      refine ⟨?_, Or.inr (by omega)⟩
      intro found hfound
      exact hall found (List.mem_reverse.mpr hfound)
    · rintro ⟨hall, hlen⟩
      rw [backwardStart_eq (by omega), List.take_length]
      refine ⟨⟨?_, by omega⟩, le_rfl⟩
      intro found hfound
      exact hall found (List.mem_reverse.mp hfound)
  · rw [dropFirst_eq_nil]
    apply and_congr_right
    intro _
    omega
  · rw [List.filter_eq_nil_iff]
    have hzero : count = 0 := by omega
    simp [hzero]

theorem lremList_ok (count : ℤ) (element : Bytes) (list : List Bytes) :
    (lremList count element list).1 = remaining list count element ∧
      ∃ removed, (lremList count element list).2 = .ok (.ok removed) := by
  unfold lremList
  rw [removeOccurrences_spec]
  exact ⟨rfl, _, rfl⟩

end Soul
end Heaven
