import Mathlib.Data.Set.Insert
import Heaven.Lib.Dict

/-! # Operations that concern some keys only

`Local K op` says that `op` leaves every key outside `K` alone, and that what it does and answers
depends on the cells of `K` only.  Operations on one cell are local to it (`local_onCell`), and
local operations can be put one after the other (`Local.bind`).

Two operations that are local to disjoint sets of keys commute (`Local.commute`). -/

namespace Dict

variable {κ ν ρ σ : Type} [DecidableEq κ] {K K' : Set κ}

/-- The dictionaries agree on the keys. -/
def AgreeOn (K : Set κ) (d d' : Dict κ ν) : Prop := ∀ k ∈ K, d.get? k = d'.get? k

/-- `op` concerns the keys of `K` only. -/
structure Local (K : Set κ) (op : Dict κ ν → Dict κ ν × ρ) : Prop where
  frame : ∀ d, ∀ k ∉ K, (op d).1.get? k = d.get? k
  result : ∀ d d', AgreeOn K d d' → (op d).2 = (op d').2
  cells : ∀ d d', AgreeOn K d d' → AgreeOn K (op d).1 (op d').1

theorem local_onCell (k : κ) (f : Option ν → Option ν × ρ) :
    Local {k} fun d : Dict κ ν => d.onCell k f where
  frame := by
    intro d k' hk
    exact onCell_get?_ne d f hk
  result := by
    intro d d' h
    have hk : d.get? k = d'.get? k := h k rfl
    simp only [onCell, hk]
  cells := by
    rintro d d' h _ rfl
    rw [onCell_get?_self, onCell_get?_self, h _ rfl]

/-- Doing nothing concerns no key. -/
theorem local_return (r : ρ) : Local K fun d : Dict κ ν => (d, r) where
  frame := fun _ _ _ => rfl
  result := fun _ _ _ => rfl
  cells := fun _ _ h => h

theorem Local.mono {op : Dict κ ν → Dict κ ν × ρ} (h : Local K op) (hK : K ⊆ K') :
    Local K' op where
  frame := fun d k hk => h.frame d k fun hmem => hk (hK hmem)
  result := fun d d' hd => h.result d d' fun k hk => hd k (hK hk)
  cells := by
    intro d d' hd k hk
    by_cases hmem : k ∈ K
    · exact h.cells d d' (fun k hk => hd k (hK hk)) k hmem
    · rw [h.frame d k hmem, h.frame d' k hmem]
      exact hd k hk

/-- One operation after the other, with what the first has answered. -/
theorem Local.bind {op : Dict κ ν → Dict κ ν × ρ} {next : ρ → Dict κ ν → Dict κ ν × σ}
    (h : Local K op) (hnext : ∀ r, Local K (next r)) :
    Local K fun d => next (op d).2 (op d).1 where
  frame := by
    intro d k hk
    rw [(hnext (op d).2).frame _ k hk, h.frame d k hk]
  result := by
    intro d d' hd
    rw [h.result d d' hd]
    exact (hnext (op d').2).result _ _ (h.cells d d' hd)
  cells := by
    intro d d' hd
    rw [h.result d d' hd]
    exact (hnext (op d').2).cells _ _ (h.cells d d' hd)

/-- **Operations that concern disjoint sets of keys commute.** -/
theorem Local.commute {f : Dict κ ν → Dict κ ν × ρ} {g : Dict κ ν → Dict κ ν × σ}
    (hf : Local K f) (hg : Local K' g) (h : ∀ k ∈ K, k ∉ K') (d : Dict κ ν) :
    (f (g d).1).2 = (f d).2 ∧ (g (f d).1).2 = (g d).2 ∧ (g (f d).1).1 = (f (g d).1).1 := by
  have hfg : AgreeOn K (g d).1 d := fun k hk => hg.frame d k (h k hk)
  have hgf : AgreeOn K' (f d).1 d := fun k hk => hf.frame d k fun hk' => h k hk' hk
  refine ⟨hf.result _ _ hfg, hg.result _ _ hgf, ?_⟩
  ext1 k
  by_cases hk : k ∈ K
  · rw [hg.frame _ k (h k hk), hf.cells _ _ hfg k hk]
  · rw [hf.frame _ k hk]
    by_cases hk' : k ∈ K'
    · exact hg.cells _ _ hgf k hk'
    · rw [hg.frame _ k hk', hg.frame _ k hk', hf.frame _ k hk]

end Dict
