import Heaven.Lists

/-! # LRANGE and LREM on live lists

What the two commands are for, in the integers: LRANGE answers the elements between two clamped
indices (`slice`), LREM drops the first or the last occurrences of an element (`dropFirst`).  Below
2 ^ 31 elements the 32-bit arithmetic of the source computes exactly that (`rangeOf_eq_slice`,
`lremList_eq`). -/

namespace Heaven
namespace Soul

open Decimal (ascii)

/-! ### LRANGE -/

/-- The first position LRANGE means by an index. -/
def firstIndex (list : List Bytes) (start : ℤ) : ℤ :=
  max 0 (if start < 0 then start + list.length else start)

/-- The last position LRANGE means by an index. -/
def lastIndex (list : List Bytes) (stop : ℤ) : ℤ :=
  min (list.length - 1) (if stop < 0 then stop + list.length else stop)

/-- The elements at the positions `first` to `last`. -/
def slice (list : List Bytes) (first last : ℤ) : List Bytes :=
  (list.drop first.toNat).take (last + 1 - first).toNat

theorem getElem?_slice (list : List Bytes) {first last : ℤ} (h : 0 ≤ first) (i : ℕ) :
    (slice list first last)[i]? = if first + i ≤ last then list[first.toNat + i]? else none := by
  obtain ⟨n, rfl⟩ := Int.eq_ofNat_of_zero_le h
  unfold slice
  rw [List.getElem?_take, List.getElem?_drop]
  apply if_congr _ rfl rfl
  omega

/-- The steps of the source to the first position. -/
theorem firstIndex_eq (list : List Bytes) (start : ℤ) :
    (if (if start < 0 then start + list.length else start) < 0 then (0 : ℤ)
      else if start < 0 then start + list.length else start) = firstIndex list start := by
  unfold firstIndex
  omega

/-- The steps of the source to the last position. -/
theorem lastIndex_eq (list : List Bytes) (stop : ℤ) :
    (if (if stop < 0 then stop + list.length else stop) ≥ list.length then (list.length : ℤ) - 1
      else if stop < 0 then stop + list.length else stop) = lastIndex list stop := by
  unfold lastIndex
  omega

theorem firstIndex_nonneg (list : List Bytes) (start : ℤ) : 0 ≤ firstIndex list start :=
  le_max_left _ _

theorem lastIndex_lt (list : List Bytes) (stop : ℤ) : lastIndex list stop < list.length := by
  have h : lastIndex list stop ≤ list.length - 1 := min_le_left _ _
  omega

theorem wrapI32_length {list : List Bytes} (h : list.length < 2 ^ 31) :
    wrapI32 list.length = list.length := by
  apply wrapI32_eq
  exact ⟨by omega, by omega⟩

/-- Counting a negative index from the end of the list does not overflow. -/
theorem wrapI32_add_length {list : List Bytes} {index : ℤ} (h : list.length < 2 ^ 31)
    (hindex : InI32 index) :
    (if index < 0 then wrapI32 (index + list.length) else index) =
      if index < 0 then index + list.length else index := by
  unfold InI32 at hindex
  split_ifs with hneg
  · apply wrapI32_eq
    exact ⟨by omega, by omega⟩
  · rfl

/-- The distance of two clamped indices overflows only if the first lies behind the list. -/
theorem span_of_first_lt {list : List Bytes} {start stop : ℤ} (h : list.length < 2 ^ 31)
    (hstop : InI32 stop) (hfirst : firstIndex list start < list.length) :
    InI32 (lastIndex list stop - firstIndex list start) := by
  have h₀ := firstIndex_nonneg list start
  have hlast := lastIndex_lt list stop
  have hlow : -2 ^ 31 + (list.length : ℤ) ≤ lastIndex list stop := by
    unfold InI32 at hstop
    apply le_min (by omega)
    split_ifs <;> omega
  exact ⟨by omega, by omega⟩

/-- **On fewer than 2 ^ 31 elements the body of LRANGE is the clamped slice.** -/
theorem rangeOf_eq_slice {list : List Bytes} {start stop : ℤ} (h : list.length < 2 ^ 31)
    (hstart : InI32 start) (hstop : InI32 stop) :
    rangeOf list start stop = .ok
      (if firstIndex list start ≤ lastIndex list stop then
        (slice list (firstIndex list start) (lastIndex list stop)).map some
      else []) := by
  have hpred : wrapI32 (list.length - 1) = list.length - 1 := by
    apply wrapI32_eq
    exact ⟨by omega, by omega⟩
  unfold rangeOf
  simp only [wrapI32_length h, wrapI32_add_length h hstart, wrapI32_add_length h hstop, hpred,
    firstIndex_eq, lastIndex_eq]
  have h₀ := firstIndex_nonneg list start
  have hlt := lastIndex_lt list stop
  by_cases hbehind : firstIndex list start < list.length
  · have hspan := span_of_first_lt h hstop hbehind
    rw [wrapI32_eq hspan]
    by_cases hle : firstIndex list start ≤ lastIndex list stop
    · have hin : InI32 (firstIndex list start) := ⟨by omega, by omega⟩
      have hnext : InI32 (lastIndex list stop + 1) := ⟨by omega, by omega⟩
      have hcount : (lastIndex list stop + 1).toNat - (firstIndex list start).toNat =
          (lastIndex list stop + 1 - firstIndex list start).toNat := by omega
      rw [if_pos ⟨by omega, hbehind, hlt⟩, if_pos hle, asUsize_eq hin h₀, wrapI32_eq hnext,
        asUsize_eq hnext (by omega), listRange_ok (by omega) (by omega), hcount]
      rfl
    · rw [if_neg (by omega), if_neg hle]
  · rw [if_neg (by omega), if_neg (by omega)]

/-- **LRANGE is the clamped slice.**  The answer is no panic, so the range taken from the list lies
within it. -/
theorem lrange_eq_slice {s : Soul} {key : Bytes} {list : List Bytes} {expiry : Option ℕ}
    {now : ℕ} {start stop : ℤ} (hkey : s.get? key = some (.list list, expiry))
    (hlive : isExpired expiry now = false) (hlen : list.length < 2 ^ 31) (hstart : InI32 start)
    (hstop : InI32 stop) :
    s.lrange key start stop now =
      (s, .ok (.ok (some
        (if firstIndex list start ≤ lastIndex list stop then
          (slice list (firstIndex list start) (lastIndex list stop)).map some
        else [])))) := by
  unfold lrange
  rw [query_eq_onLive, onLive_of_live hkey hlive, queryCell_fst, Dict.put_eq_self hkey]
  simp only [queryCell, Value.list?, rangeOf_eq_slice hlen hstart hstop]
  rfl

/-- The last two of three elements, with a stop behind the list. -/
theorem lrange_eq_slice_abc :
    let s := Soul.new.set (ascii "k") (.list [ascii "a", ascii "b", ascii "c"], none)
    s.lrange (ascii "k") (-2) 100 0 = (s, .ok (.ok (some [some (ascii "b"), some (ascii "c")]))) :=
  lrange_eq_slice (Dict.get?_insert_self _ _ _) rfl (by decide) (by decide) (by decide)

/-! ### LREM -/

/-- To drop the first occurrences is to erase one after the other. -/
theorem dropFirst_succ (element : Bytes) (n : ℕ) (list : List Bytes) :
    dropFirst element (n + 1) list = dropFirst element n (list.erase element) := by
  induction list with
  | nil => rw [dropFirst_nil, List.erase_nil, dropFirst_nil]
  | cons found list ih =>
      by_cases h : found = element
      · subst h
        rw [dropFirst_cons_self, List.erase_cons_head]
      · rw [dropFirst_cons_ne h, ih, List.erase_cons_tail (by simpa using h), dropFirst_cons_ne h]

/-- An element that does not occur stays out of the count. -/
theorem dropFirst_of_notMem {element : Bytes} {list : List Bytes} (h : element ∉ list) (n : ℕ) :
    dropFirst element n list = list := by
  induction n with
  | zero => rw [dropFirst_zero]
  | succ n ih => rw [dropFirst_succ, List.erase_of_not_mem h, ih]

/-- A larger count drops no more than what occurs. -/
theorem dropFirst_min (element : Bytes) (n : ℕ) (list : List Bytes) :
    dropFirst element (min n (list.count element)) list = dropFirst element n list := by
  induction n generalizing list with
  | zero => rw [Nat.zero_min]
  | succ n ih =>
      by_cases h : element ∈ list
      · have hpos := List.count_pos_iff.mpr h
        have hmin : min (n + 1) (list.count element) =
            min n ((list.erase element).count element) + 1 := by
          rw [List.count_erase_self]
          omega
        rw [hmin, dropFirst_succ, dropFirst_succ, ih]
      · rw [dropFirst_of_notMem h, dropFirst_of_notMem h]

theorem length_dropFirst (element : Bytes) {n : ℕ} {list : List Bytes}
    (h : n ≤ list.count element) : (dropFirst element n list).length = list.length - n := by
  induction n generalizing list with
  | zero => rw [dropFirst_zero, Nat.sub_zero]
  | succ n ih =>
      have hmem : element ∈ list := List.count_pos_iff.mp (by omega)
      have hcount : n ≤ (list.erase element).count element := by
        rw [List.count_erase_self]
        omega
      rw [dropFirst_succ, ih hcount, List.length_erase_of_mem hmem]
      omega

/-- To drop all occurrences is to keep the others. -/
theorem dropFirst_count (element : Bytes) (list : List Bytes) :
    dropFirst element (list.count element) list =
      list.filter fun existing => existing ≠ element := by
  induction list with
  | nil => rw [dropFirst_nil, List.filter_nil]
  | cons found list ih =>
      by_cases h : found = element
      · subst h
        rw [List.count_cons_self, dropFirst_cons_self, ih]
        simp
      · rw [List.count_cons_of_ne h, dropFirst_cons_ne h, ih]
        simp [h]

/-- The number of occurrences LREM removes. -/
def removals (list : List Bytes) (count : ℤ) (element : Bytes) : ℕ :=
  if count = 0 then list.count element else min count.natAbs (list.count element)

theorem removals_le (list : List Bytes) (count : ℤ) (element : Bytes) :
    removals list count element ≤ list.count element := by
  unfold removals
  split_ifs
  · exact le_rfl
  · exact min_le_right _ _

/-- The list without its last `n` occurrences of `element`. -/
def dropLast (element : Bytes) (n : ℕ) (list : List Bytes) : List Bytes :=
  (dropFirst element n list.reverse).reverse

/-- On fewer than 2 ^ 31 elements LREM leaves the list without its first or last occurrences. -/
theorem remaining_eq {list : List Bytes} (h : list.length < 2 ^ 31) (count : ℤ)
    (element : Bytes) :
    remaining list count element =
      if 0 ≤ count then dropFirst element (removals list count element) list
      else dropLast element (removals list count element) list := by
  unfold remaining removals
  rcases lt_trichotomy count 0 with hneg | rfl | hpos
  · have hsize : (-count).toNat = count.natAbs := by omega
    rw [if_pos hneg, if_neg (by omega), if_neg (by omega)]
    simp only [backwardStart_eq h.le, List.take_length, List.drop_length, List.append_nil, hsize]
    unfold dropLast
    rw [← List.count_reverse, dropFirst_min]
  · simp only [lt_irrefl, if_false, le_refl, if_true]
    rw [dropFirst_count]
  · have hsize : count.toNat = count.natAbs := by omega
    rw [if_neg (by omega), if_pos hpos, if_pos hpos.le, if_neg (by omega), dropFirst_min, hsize]

theorem length_remaining {list : List Bytes} (h : list.length < 2 ^ 31) (count : ℤ)
    (element : Bytes) :
    list.length - (remaining list count element).length = removals list count element := by
  have hle := removals_le list count element
  have hlength := List.count_le_length (a := element) (l := list)
  rw [remaining_eq h]
  split_ifs
  · rw [length_dropFirst element hle]
    omega
  · unfold dropLast
    rw [List.length_reverse, length_dropFirst element (by rwa [List.count_reverse]),
      List.length_reverse]
    omega

/-- **On fewer than 2 ^ 31 elements the body of LREM drops the first or last occurrences.** -/
theorem lremList_eq {list : List Bytes} (h : list.length < 2 ^ 31) (count : ℤ)
    (element : Bytes) :
    lremList count element list =
      (if 0 ≤ count then dropFirst element (removals list count element) list
        else dropLast element (removals list count element) list,
        .ok (.ok (removals list count element))) := by
  unfold lremList
  rw [removeOccurrences_spec]
  simp only [length_remaining h]
  rw [remaining_eq h]

theorem removals_reverse (list : List Bytes) (count : ℤ) (element : Bytes) :
    removals list.reverse (-count) element = removals list count element := by
  unfold removals
  rw [List.count_reverse, Int.natAbs_neg]
  exact if_congr neg_eq_zero rfl rfl

theorem lrem_of_live {s : Soul} {key : Bytes} {list : List Bytes} {expiry : Option ℕ} {now : ℕ}
    (hkey : s.get? key = some (.list list, expiry)) (hlive : isExpired expiry now = false)
    (hlen : list.length < 2 ^ 31) (count : ℤ) (element : Bytes) :
    s.lrem key count element now =
      (s.insert key
        (.list (if 0 ≤ count then dropFirst element (removals list count element) list
          else dropLast element (removals list count element) list), expiry),
        .ok (.ok (removals list count element))) := by
  rw [lrem_eq_onLive, onLive_of_live hkey hlive]
  simp only [updateCell, Value.list?, lremList_eq hlen]
  rfl

/-- **LREM removes exactly the right occurrences.**  The answer is no panic, so both loops stay
within the list.  A negative count is the positive count on the reversed list. -/
theorem lrem_removes {s : Soul} {key : Bytes} {list : List Bytes} {expiry : Option ℕ}
    {now : ℕ} (hkey : s.get? key = some (.list list, expiry))
    (hlive : isExpired expiry now = false) (hlen : list.length < 2 ^ 31) (count : ℤ)
    (element : Bytes) :
    s.lrem key count element now =
        (s.insert key
          (.list (if 0 ≤ count then dropFirst element (removals list count element) list
            else dropLast element (removals list count element) list), expiry),
          .ok (.ok (removals list count element))) ∧
      (count < 0 → ∃ list' removed,
        Soul.lrem (s.insert key (.list list.reverse, expiry)) key (-count) element now =
            (s.insert key (.list list', expiry), .ok (.ok removed)) ∧
          s.lrem key count element now =
            (s.insert key (.list list'.reverse, expiry), .ok (.ok removed))) := by
  constructor
  · exact lrem_of_live hkey hlive hlen count element
  · intro hneg
    have hreverse : list.reverse.length < 2 ^ 31 := by rwa [List.length_reverse]
    refine ⟨dropFirst element (removals list count element) list.reverse,
      removals list count element, ?_, ?_⟩
    · rw [lrem_of_live (Dict.get?_insert_self s key _) hlive hreverse, removals_reverse,
        if_pos (by omega), Dict.insert_eq_put, Dict.insert_eq_put, Dict.put_put]
      rfl
    · rw [lrem_of_live hkey hlive hlen, if_neg (by omega)]
      rfl

/-- LREM of the last of two occurrences. -/
theorem lrem_removes_last :
    let s := Soul.new.set (ascii "k") (.list [ascii "a", ascii "b", ascii "a"], none)
    s.lrem (ascii "k") (-1) (ascii "a") 0 =
      (s.insert (ascii "k") (.list [ascii "a", ascii "b"], none), .ok (.ok 1)) :=
  (lrem_removes (Dict.get?_insert_self _ _ _) rfl (by decide) (-1) (ascii "a")).1

end Soul
end Heaven
