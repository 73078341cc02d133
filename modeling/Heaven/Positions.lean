import Heaven.ListCommands

/-! # Positions of a list

LINDEX, LSET and LRANGE count a negative index from the end, each in code of its own.  On fewer than
2 ^ 31 elements all three mean the same position by an index (`position`), and LSET changes what
LINDEX answers there and nowhere else (`positions_agree`). -/

namespace Heaven
namespace Soul

open Decimal (ascii)

/-- The position an index means in a list of length `len`, which may lie outside the list. -/
def position (len : ℕ) (index : ℤ) : ℤ := if index < 0 then index + len else index

/-- The position lies in the list. -/
def Inside (len : ℕ) (index : ℤ) : Prop := 0 ≤ position len index ∧ position len index < len

instance (len : ℕ) (index : ℤ) : Decidable (Inside len index) :=
  inferInstanceAs (Decidable (_ ∧ _))

theorem inside_iff {len : ℕ} {index : ℤ} : Inside len index ↔ -len ≤ index ∧ index < len := by
  unfold Inside position
  split_ifs <;> omega

/-- The two indices mean one position of a list of length `len`. -/
def SamePosition (len : ℕ) (i j : ℤ) : Prop :=
  (-len ≤ i ∧ i < len) ∧ (-len ≤ j ∧ j < len) ∧ i % len = j % len

instance (len : ℕ) (i j : ℤ) : Decidable (SamePosition len i j) :=
  inferInstanceAs (Decidable (_ ∧ _ ∧ _))

theorem position_emod {len : ℕ} {index : ℤ} (h : Inside len index) :
    position len index = index % len := by
  obtain ⟨h₀, hlt⟩ := h
  have hmod : position len index % len = index % len := by
    unfold position
    split_ifs
    · rw [Int.add_emod_right]
    · rfl
  rw [← hmod, Int.emod_eq_of_lt h₀ hlt]

theorem samePosition_iff {len : ℕ} {i j : ℤ} (hi : Inside len i) :
    SamePosition len i j ↔ Inside len j ∧ position len i = position len j := by
  unfold SamePosition
  rw [← inside_iff, ← inside_iff]
  constructor
  · rintro ⟨-, hj, hmod⟩
    exact ⟨hj, by rw [position_emod hi, position_emod hj, hmod]⟩
  · rintro ⟨hj, heq⟩
    exact ⟨hi, hj, by rw [← position_emod hi, ← position_emod hj, heq]⟩

/-! ### The three commands -/

section live

variable {s : Soul} {key : Bytes} {list : List Bytes} {expiry : Option ℕ} {now : ℕ}

theorem normalizeIndex_eq_position (hlen : list.length < 2 ^ 31) {index : ℤ}
    (hindex : InI32 index) : normalizeIndex list index = position list.length index := by
  unfold normalizeIndex
  rw [wrapI32_length hlen]
  exact wrapI32_add_length hlen hindex

theorem asUsize_position (hlen : list.length < 2 ^ 31) {index : ℤ}
    (h : Inside list.length index) :
    asUsize (position list.length index) = (position list.length index).toNat := by
  obtain ⟨h₀, hlt⟩ := h
  exact asUsize_eq ⟨by omega, by omega⟩ h₀

theorem outside_iff {len : ℕ} {index : ℤ} :
    position len index < 0 ∨ position len index ≥ len ↔ ¬ Inside len index := by
  unfold Inside
  omega

/-- The element at the position an index means. -/
def elementAt (list : List Bytes) (index : ℤ) : Option Bytes :=
  if Inside list.length index then list[(position list.length index).toNat]? else none

theorem elementAt_isSome {index : ℤ} :
    (elementAt list index).isSome ↔ Inside list.length index := by
  unfold elementAt
  split_ifs with h
  · have hlt : (position list.length index).toNat < list.length := by
      obtain ⟨h₀, hlt⟩ := h
      omega
    rw [List.getElem?_eq_getElem hlt]
    exact iff_of_true rfl h
  · exact iff_of_false Bool.false_ne_true h

/-- The body of `lindex` on a list. -/
theorem lindexList_eq (hlen : list.length < 2 ^ 31) {index : ℤ} (hindex : InI32 index) :
    (let index := normalizeIndex list index
      if index < 0 ∨ index ≥ wrapI32 list.length then (.ok none : Except Sacrilege (Option Bytes))
      else .ok list[asUsize index]?) = .ok (elementAt list index) := by
  simp only [normalizeIndex_eq_position hlen hindex, wrapI32_length hlen, outside_iff]
  unfold elementAt
  by_cases h : Inside list.length index
  · rw [if_neg (not_not_intro h), if_pos h, asUsize_position hlen h]
  · rw [if_pos h, if_neg h]

theorem lsetList_eq (hlen : list.length < 2 ^ 31) {index : ℤ} (hindex : InI32 index)
    (element : Bytes) :
    lsetList index element list =
      if Inside list.length index then
        (list.set (position list.length index).toNat element, .ok (.ok ()))
      else (list, .ok (misuse .lset)) := by
  unfold lsetList
  simp only [normalizeIndex_eq_position hlen hindex, wrapI32_length hlen, outside_iff]
  by_cases h : Inside list.length index
  · have hlt : (position list.length index).toNat < list.length := by
      obtain ⟨h₀, hlt⟩ := h
      omega
    rw [if_neg (not_not_intro h), asUsize_position hlen h, if_pos hlt, if_pos h]
  · rw [if_pos h, if_neg h]

theorem lindex_of_live (hkey : s.get? key = some (.list list, expiry))
    (hlive : isExpired expiry now = false) (hlen : list.length < 2 ^ 31) {index : ℤ}
    (hindex : InI32 index) : s.lindex key index now = (s, .ok (elementAt list index)) := by
  unfold lindex
  rw [query_eq_onLive, onLive_of_live hkey hlive, queryCell_fst, Dict.put_eq_self hkey]
  exact congrArg (Prod.mk s) (lindexList_eq hlen hindex)

theorem lset_of_live (hkey : s.get? key = some (.list list, expiry))
    (hlive : isExpired expiry now = false) (hlen : list.length < 2 ^ 31) {index : ℤ}
    (hindex : InI32 index) (element : Bytes) :
    s.lset key index element now =
      if Inside list.length index then
        (s.insert key (.list (list.set (position list.length index).toNat element), expiry),
          .ok (.ok ()))
      else (s, .ok (misuse .lset)) := by
  rw [lset_eq_onLive, onLive_of_live hkey hlive]
  simp only [updateCell, Value.list?, lsetList_eq hlen hindex]
  by_cases h : Inside list.length index
  · simp only [h, if_true]
    rfl
  · simp only [h, if_false, Dict.put_eq_self hkey]

theorem llen_of_live (hkey : s.get? key = some (.list list, expiry))
    (hlive : isExpired expiry now = false) : s.llen key now = (s, .ok list.length) := by
  unfold llen
  rw [query_eq_onLive, onLive_of_live hkey hlive, queryCell_fst, Dict.put_eq_self hkey]
  rfl

/-- A range from an index to itself. -/
theorem lrange_single (hkey : s.get? key = some (.list list, expiry))
    (hlive : isExpired expiry now = false) (hlen : list.length < 2 ^ 31) {index : ℤ}
    (hindex : InI32 index) :
    s.lrange key index index now =
      (s, .ok (.ok (some ((elementAt list index).toList.map some)))) := by
  unfold lrange
  rw [query_eq_onLive, onLive_of_live hkey hlive, queryCell_fst, Dict.put_eq_self hkey]
  simp only [queryCell, Value.list?, rangeOf_eq_slice hlen hindex hindex]
  have hclamp : firstIndex list index ≤ lastIndex list index ↔ Inside list.length index := by
    unfold firstIndex lastIndex Inside position
    omega
  unfold elementAt
  by_cases h : Inside list.length index
  · have hfirst : firstIndex list index = position list.length index := by
      unfold Inside position at h
      unfold firstIndex position
      omega
    have hlast : lastIndex list index = position list.length index := by
      unfold Inside position at h
      unfold lastIndex position
      omega
    have hone : (position list.length index + 1 - position list.length index).toNat = 1 := by
      omega
    rw [if_pos (hclamp.mpr h), if_pos h, hfirst, hlast]
    unfold slice
    rw [hone, List.take_one, List.head?_drop]
    rfl
  · rw [if_neg (hclamp.not.mpr h), if_neg h]
    rfl

/-- What LSET changes for LINDEX. -/
theorem elementAt_set {i : ℤ} (hi : Inside list.length i) (j : ℤ) (element : Bytes) :
    elementAt (list.set (position list.length i).toNat element) j =
      if SamePosition list.length i j then some element else elementAt list j := by
  unfold elementAt
  rw [List.length_set]
  by_cases hj : Inside list.length j
  · have hiff : SamePosition list.length i j ↔
        (position list.length i).toNat = (position list.length j).toNat := by
      rw [samePosition_iff hi]
      obtain ⟨hi₀, -⟩ := hi
      obtain ⟨hj₀, hjlt⟩ := hj
      constructor
      · rintro ⟨-, heq⟩
        rw [heq]
      · intro heq
        exact ⟨⟨hj₀, hjlt⟩, by omega⟩
    have hlt : (position list.length i).toNat < list.length := by
      obtain ⟨h₀, hlt⟩ := hi
      omega
    rw [if_pos hj, if_pos hj, List.getElem?_set]
    by_cases heq : (position list.length i).toNat = (position list.length j).toNat
    · rw [if_pos heq, if_pos hlt, if_pos (hiff.mpr heq)]
    · rw [if_neg heq, if_neg (hiff.not.mpr heq)]
  · have hother : ¬ SamePosition list.length i j := by
      rw [samePosition_iff hi]
      intro h
      exact hj h.1
    rw [if_neg hj, if_neg hj, if_neg hother]

end live

/-! ### Agreement -/

/-- What LINDEX, LSET and LRANGE have to do with one another on the list `list` at `key`. -/
structure PositionsAgree (s : Soul) (key : Bytes) (list : List Bytes) (now : ℕ) (i j : ℤ)
    (element : Bytes) : Prop where
  found : (∃ x, (s.lindex key i now).2 = .ok (some x)) ↔ -list.length ≤ i ∧ i < list.length
  range : ∃ found, (s.lindex key i now).2 = .ok found ∧
    (s.lrange key i i now).2 = .ok (.ok (some (found.toList.map some)))
  succeeds : (s.lset key i element now).2 = .ok (.ok ()) ↔
    ∃ x, (s.lindex key i now).2 = .ok (some x)
  changes : (s.lset key i element now).2 = .ok (.ok ()) →
    ((s.lset key i element now).1.lindex key j now).2 =
        (if SamePosition list.length i j then .ok (some element) else (s.lindex key j now).2) ∧
      ((s.lset key i element now).1.llen key now).2 = (s.llen key now).2
  fails : (s.lset key i element now).2 ≠ .ok (.ok ()) → (s.lset key i element now).1 = s

/-- **LSET, LINDEX and LRANGE address the same positions.** -/
theorem positions_agree {s : Soul} {key : Bytes} {list : List Bytes} {expiry : Option ℕ} {now : ℕ}
    (hkey : s.get? key = some (.list list, expiry)) (hlive : isExpired expiry now = false)
    (hlen : list.length < 2 ^ 31) {i j : ℤ} (hi : InI32 i) (hj : InI32 j) (element : Bytes) :
    PositionsAgree s key list now i j element := by
  have hsome : (∃ x, (s.lindex key i now).2 = .ok (some x)) ↔ Inside list.length i := by
    rw [lindex_of_live hkey hlive hlen hi, ← elementAt_isSome, Option.isSome_iff_exists]
    simp only [Except.ok.injEq]
  have hset := lset_of_live hkey hlive hlen hi element
  have hreply : (s.lset key i element now).2 = .ok (.ok ()) ↔ Inside list.length i := by
    rw [hset]
    by_cases h : Inside list.length i
    · rw [if_pos h]
      exact iff_of_true rfl h
    · rw [if_neg h]
      exact iff_of_false (fun h => by cases h) h
  constructor
  · rw [hsome, inside_iff]
  · refine ⟨elementAt list i, ?_, ?_⟩
    · rw [lindex_of_live hkey hlive hlen hi]
    · rw [lrange_single hkey hlive hlen hi]
  · rw [hreply, hsome]
  · intro hok
    have h := hreply.mp hok
    rw [hset, if_pos h]
    have hkey' := Dict.get?_insert_self s key
      (Value.list (list.set (position list.length i).toNat element), expiry)
    have hlen' : (list.set (position list.length i).toNat element).length < 2 ^ 31 := by
      rwa [List.length_set]
    constructor
    · rw [lindex_of_live hkey' hlive hlen' hj, lindex_of_live hkey hlive hlen hj,
        elementAt_set h]
      exact apply_ite Except.ok _ _ _
    · rw [llen_of_live hkey' hlive, llen_of_live hkey hlive, List.length_set]
  · intro hfail
    rw [hset, if_neg (hreply.not.mp hfail)]

/-- The last of two elements is changed and seen from both ends. -/
theorem positions_agree_ab :
    PositionsAgree (Soul.new.set (ascii "k") (.list [ascii "a", ascii "b"], none)) (ascii "k")
      [ascii "a", ascii "b"] 0 (-1) 1 (ascii "c") :=
  positions_agree (Dict.get?_insert_self _ _ _) rfl (by decide) (by decide) (by decide) (ascii "c")

end Soul
end Heaven
