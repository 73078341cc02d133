import Heaven.Lib.Dict

/-! # Dictionaries that agree cell by cell

A relation on the contents of a cell is a relation on dictionaries: `Cellwise R` holds if the
cells of every key are related.  An operation `Respects` a relation on states if it cannot tell
related states apart: it answers alike and leaves related states behind.  An operation on one cell
respects `Cellwise R` as soon as its cell function respects `R` (`onCell_respects`), and so does a
composition. -/

namespace Dict

variable {σ κ ν α β ρ : Type} [DecidableEq κ]

/-- Related states are answered alike and stay related. -/
def Respects (R : σ → σ → Prop) (op : σ → σ × ρ) : Prop :=
  ∀ s s', R s s' → (op s).2 = (op s').2 ∧ R (op s).1 (op s').1

/-- The cells of every key are related. -/
def Cellwise (R : Option ν → Option ν → Prop) (d d' : Dict κ ν) : Prop :=
  ∀ k, R (d.get? k) (d'.get? k)

variable {R : Option ν → Option ν → Prop}

theorem cellwise_put {d d' : Dict κ ν} {o o' : Option ν} (h : Cellwise R d d') (ho : R o o')
    (k : κ) : Cellwise R (d.put k o) (d'.put k o') := by
  intro k'
  rw [get?_put, get?_put]
  split_ifs
  · exact ho
  · exact h k'

/-- A dictionary is related to one that differs from it in one related cell. -/
theorem cellwise_put_right {d : Dict κ ν} {k : κ} {o : Option ν} (hrefl : ∀ o, R o o)
    (h : R (d.get? k) o) : Cellwise R d (d.put k o) := by
  intro k'
  rw [get?_put]
  split_ifs with hkey
  · rwa [hkey]
  · exact hrefl _

theorem onCell_respects {f : Option ν → Option ν × ρ} (h : Respects R f) (k : κ) :
    Respects (Cellwise R) fun d : Dict κ ν => d.onCell k f := by
  intro d d' hd
  obtain ⟨hanswer, hcell⟩ := h _ _ (hd k)
  exact ⟨hanswer, cellwise_put hd hcell k⟩

/-- One after the other. -/
theorem respects_bind {R : σ → σ → Prop} {op : σ → σ × α} {next : α → σ → σ × β}
    (h : Respects R op) (hnext : ∀ a, Respects R (next a)) :
    Respects R fun s => next (op s).2 (op s).1 := by
  intro s s' hs
  obtain ⟨hanswer, hstate⟩ := h s s' hs
  simp only [hanswer]
  exact hnext _ _ _ hstate

end Dict
