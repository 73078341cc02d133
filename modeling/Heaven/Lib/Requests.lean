import Heaven.Lib.Resp
import Mathlib.Data.List.Forall2

/-! # RESP requests

A client sends arrays of bulk strings.  `IsArray` is their grammar, with leading zeros in the
numbers and with empty arrays.  `IsSequence` puts arrays one behind the other; the commands are the
arrays that are not empty.

`IsFront` is an array that lacks some of its items, and `Begun` an array that may break off
anywhere, where a line that has not ended may hold anything. -/

namespace Resp

open Decimal (value isDigit)

/-! ### The grammar -/

/-- Digits that denote `n`. -/
def IsNumber (digits : List UInt8) (n : ℕ) : Prop := isNumber digits = true ∧ value digits = n

/-- The length of the payload, and the payload. -/
inductive IsBulkString : List UInt8 → List UInt8 → Prop
  | intro {digits payload : List UInt8} (hlength : IsNumber digits payload.length) :
      IsBulkString (36 :: (digits ++ crlf ++ payload ++ crlf)) payload

/-- The number of the items, and the items. -/
inductive IsArray : List UInt8 → List (List UInt8) → Prop
  | intro {digits : List UInt8} {items terms : List (List UInt8)}
      (hcount : IsNumber digits terms.length) (hitems : List.Forall₂ IsBulkString items terms) :
      IsArray (42 :: (digits ++ crlf ++ items.flatten)) terms

/-- The bytes of a sequence of arrays, and those arrays of it that are not empty. -/
inductive IsSequence : List UInt8 → List (List (List UInt8)) → Prop
  | nil : IsSequence [] []
  | skip {bytes array : List UInt8} {commands : List (List (List UInt8))}
      (h : IsSequence bytes commands) (harray : IsArray array []) :
      IsSequence (bytes ++ array) commands
  | command {bytes array : List UInt8} {commands : List (List (List UInt8))}
      {terms : List (List UInt8)} (h : IsSequence bytes commands) (harray : IsArray array terms)
      (hterms : terms ≠ []) : IsSequence (bytes ++ array) (commands ++ [terms])

/-- An array of `count` items of which some are still to come. -/
inductive IsFront : List UInt8 → List (List UInt8) → ℕ → Prop
  | intro {digits : List UInt8} {items terms : List (List UInt8)} {count : ℕ}
      (hcount : IsNumber digits count) (hitems : List.Forall₂ IsBulkString items terms)
      (hmore : terms.length < count) :
      IsFront (42 :: (digits ++ crlf ++ items.flatten)) terms count

/-- A line that has not ended. -/
def Unended (line : List UInt8) : Prop := ¬ crlf <:+: line

/-- An array that breaks off: in front of it, in its count, in front of an item, in the length of an
item, or in its payload or the CRLF behind it. -/
inductive Begun : List UInt8 → Prop
  | nothing : Begun []
  | count {line : List UInt8} (hline : Unended line) : Begun (42 :: line)
  | items {front : List UInt8} {terms : List (List UInt8)} {count : ℕ}
      (hfront : IsFront front terms count) : Begun front
  | length {front line : List UInt8} {terms : List (List UInt8)} {count : ℕ}
      (hfront : IsFront front terms count) (hline : Unended line) : Begun (front ++ 36 :: line)
  | payload {front digits bytes : List UInt8} {terms : List (List UInt8)} {count len : ℕ}
      (hfront : IsFront front terms count) (hlen : IsNumber digits len)
      (hshort : bytes.length < len + 2) : Begun (front ++ 36 :: (digits ++ crlf ++ bytes))

/-! ### Composition -/

variable {digits front item term : List UInt8} {terms : List (List UInt8)} {count : ℕ}

theorem IsArray.empty (hcount : IsNumber digits 0) : IsArray (42 :: (digits ++ crlf)) [] := by
  have harray : IsArray (42 :: (digits ++ crlf ++ [].flatten)) [] := .intro hcount .nil
  rw [List.flatten_nil, List.append_nil] at harray
  exact harray

theorem IsFront.start (hcount : IsNumber digits count) (hpos : 0 < count) :
    IsFront (42 :: (digits ++ crlf)) [] count := by
  have hfront : IsFront (42 :: (digits ++ crlf ++ [].flatten)) [] count := .intro hcount .nil hpos
  rw [List.flatten_nil, List.append_nil] at hfront
  exact hfront

theorem forall₂_concat {items : List (List UInt8)} (hitems : List.Forall₂ IsBulkString items terms)
    (hitem : IsBulkString item term) :
    List.Forall₂ IsBulkString (items ++ [item]) (terms ++ [term]) :=
  List.rel_append hitems (.cons hitem .nil)

/-- One item more. -/
theorem IsFront.concat (hfront : IsFront front terms count) (hitem : IsBulkString item term)
    (hmore : (terms ++ [term]).length < count) :
    IsFront (front ++ item) (terms ++ [term]) count := by
  cases hfront with
  | intro hcount hitems _ =>
      have hfront := IsFront.intro hcount (forall₂_concat hitems hitem) hmore
      simpa using hfront

/-- Another item was still to come. -/
theorem IsFront.lt_of_ne (hfront : IsFront front terms count)
    (hne : (terms ++ [term]).length ≠ count) : (terms ++ [term]).length < count := by
  cases hfront with
  | intro _ _ hmore =>
      rw [List.length_append, List.length_singleton] at hne ⊢
      exact lt_of_le_of_ne hmore hne

/-- The last item. -/
theorem IsFront.last (hfront : IsFront front terms count) (hitem : IsBulkString item term)
    (hlast : (terms ++ [term]).length = count) : IsArray (front ++ item) (terms ++ [term]) := by
  cases hfront with
  | intro hcount hitems _ =>
      rw [← hlast] at hcount
      have harray := IsArray.intro hcount (forall₂_concat hitems hitem)
      simpa using harray

/-- The digits can be read off the line. -/
theorem IsNumber.takeWhile {n : ℕ} (h : IsNumber digits n) (rest : List UInt8) :
    (digits ++ crlf ++ rest).takeWhile isDigit = digits := by
  have hdigits : ∀ b ∈ digits, isDigit b = true := by
    have hall := h.1
    rw [isNumber, Bool.and_eq_true] at hall
    exact List.all_eq_true.mp hall.2
  rw [List.append_assoc, List.takeWhile_append_of_pos hdigits]
  exact List.append_nil digits

/-- What stands in front. -/
theorem IsSequence.head {bytes : List UInt8} {commands : List (List (List UInt8))}
    (h : IsSequence bytes commands) :
    (bytes = [] ∧ commands = []) ∨
      ∃ array terms rest, IsArray array terms ∧ bytes = array ++ rest := by
  induction h with
  | nil => exact .inl ⟨rfl, rfl⟩
  | @skip bytes array commands _ harray ih =>
      right
      obtain ⟨rfl, -⟩ | ⟨first, terms, rest, hfirst, rfl⟩ := ih
      · exact ⟨array, [], [], harray, by rw [List.nil_append, List.append_nil]⟩
      · exact ⟨first, terms, rest ++ array, hfirst, by rw [List.append_assoc]⟩
  | @command bytes array commands terms _ harray _ ih =>
      right
      obtain ⟨rfl, -⟩ | ⟨first, terms, rest, hfirst, rfl⟩ := ih
      · exact ⟨array, terms, [], harray, by rw [List.nil_append, List.append_nil]⟩
      · exact ⟨first, terms, rest ++ array, hfirst, by rw [List.append_assoc]⟩

end Resp
