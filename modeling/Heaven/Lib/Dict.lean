import Mathlib.Data.Finmap

/-! # Finite dictionaries and operations on one cell

`Dict κ ν` is a finite map that is never iterated: two dictionaries are equal as soon as they
answer every lookup alike (`Dict.ext`).  Storage is Mathlib's `Finmap`; `insert`, `erase`,
`put` and `filter` are described by one lookup lemma each.

An operation of a keyed store that looks at a single key is `onCell d k f`: `f` receives the
present content of the cell and returns its new content together with an answer.  The
cell then holds what `f` made of it (`onCell_get?_self`), and every other key is untouched
(`onCell_get?_ne`).

A store with lazy deletion drops an entry that fails a test `p` only when it meets it.  `Oblivious
p op` says that `op` cannot tell whether such entries have been dropped already; `onKept` is the
cell operation that drops first and then acts, and it is always oblivious
(`onKept_oblivious`). -/

/-- A finite map up to lookups. -/
structure Dict (κ ν : Type) where
  entries : Finmap (fun _ : κ => ν)

namespace Dict

variable {κ ν ρ σ : Type} [DecidableEq κ]

def empty : Dict κ ν := ⟨∅⟩

def get? (d : Dict κ ν) (k : κ) : Option ν := d.entries.lookup k

def insert (d : Dict κ ν) (k : κ) (v : ν) : Dict κ ν := ⟨d.entries.insert k v⟩

def erase (d : Dict κ ν) (k : κ) : Dict κ ν := ⟨d.entries.erase k⟩

/-- Make `o` the content of the cell `k`. -/
def put (d : Dict κ ν) (k : κ) : Option ν → Dict κ ν
  | some v => d.insert k v
  | none => d.erase k

instance [DecidableEq ν] : DecidableEq (Dict κ ν) := fun d d' =>
  decidable_of_iff (d.entries = d'.entries) ⟨fun h => by cases d; cases d'; simpa using h,
    fun h => by rw [h]⟩

/-! ### Lookups -/

@[ext] theorem ext {d d' : Dict κ ν} (h : ∀ k, d.get? k = d'.get? k) : d = d' := by
  cases d
  cases d'
  exact congrArg Dict.mk (Finmap.ext_lookup h)

@[simp] theorem get?_empty (k : κ) : (empty : Dict κ ν).get? k = none :=
  Finmap.lookup_empty k

theorem get?_insert (d : Dict κ ν) (k k' : κ) (v : ν) :
    (d.insert k v).get? k' = if k' = k then some v else d.get? k' := by
  unfold get? insert
  split_ifs with h
  · subst h; exact Finmap.lookup_insert _
  · exact Finmap.lookup_insert_of_ne _ h

theorem get?_erase (d : Dict κ ν) (k k' : κ) :
    (d.erase k).get? k' = if k' = k then none else d.get? k' := by
  unfold get? erase
  split_ifs with h
  · subst h; exact Finmap.lookup_erase _ _
  · exact Finmap.lookup_erase_ne h

theorem get?_put (d : Dict κ ν) (k k' : κ) (o : Option ν) :
    (d.put k o).get? k' = if k' = k then o else d.get? k' := by
  cases o with
  | none => exact get?_erase d k k'
  | some v => exact get?_insert d k k' v

@[simp] theorem get?_insert_self (d : Dict κ ν) (k : κ) (v : ν) :
    (d.insert k v).get? k = some v := by simp [get?_insert]

@[simp] theorem get?_put_self (d : Dict κ ν) (k : κ) (o : Option ν) :
    (d.put k o).get? k = o := by simp [get?_put]

theorem get?_put_ne (d : Dict κ ν) {k k' : κ} (o : Option ν) (h : k' ≠ k) :
    (d.put k o).get? k' = d.get? k' := by simp [get?_put, h]

@[simp] theorem put_get? (d : Dict κ ν) (k : κ) : d.put k (d.get? k) = d := by
  ext1 k'
  rw [get?_put]
  split_ifs with h
  · rw [h]
  · rfl

theorem put_eq_self {d : Dict κ ν} {k : κ} {o : Option ν} (h : d.get? k = o) : d.put k o = d := by
  rw [← h, put_get?]

@[simp] theorem put_put (d : Dict κ ν) (k : κ) (o o' : Option ν) :
    (d.put k o).put k o' = d.put k o' := by
  ext1 k'
  simp only [get?_put]
  split_ifs <;> rfl

theorem insert_eq_put (d : Dict κ ν) (k : κ) (v : ν) : d.insert k v = d.put k (some v) := rfl

theorem erase_eq_put (d : Dict κ ν) (k : κ) : d.erase k = d.put k none := rfl

/-! ### Filtering -/

/-- Keep the entries that satisfy `p`. -/
def filter (p : ν → Bool) (d : Dict κ ν) : Dict κ ν :=
  ⟨⟨d.entries.entries.filter (fun e => p e.2), by
    have h := Multiset.nodup_keys.mpr d.entries.nodupKeys
    refine Multiset.nodup_keys.mp (Multiset.nodup_of_le ?_ h)
    exact Multiset.map_le_map (Multiset.filter_le _ _)⟩⟩

theorem get?_filter (p : ν → Bool) (d : Dict κ ν) (k : κ) :
    (d.filter p).get? k = (d.get? k).filter p := by
  ext v
  simp only [get?, filter, Option.filter_eq_some_iff, Finmap.lookup_eq_some_iff,
    Multiset.mem_filter]

theorem option_filter_filter (p : ν → Bool) (o : Option ν) :
    (o.filter p).filter p = o.filter p := by
  cases o with
  | none => rfl
  | some v => by_cases h : p v <;> simp [Option.filter, h]

theorem filter_filter (p : ν → Bool) (d : Dict κ ν) : (d.filter p).filter p = d.filter p := by
  ext1 k
  simp only [get?_filter, option_filter_filter]

theorem filter_put (p : ν → Bool) (d : Dict κ ν) (k : κ) (o : Option ν) :
    (d.put k o).filter p = (d.filter p).put k (o.filter p) := by
  ext1 k'
  simp only [get?_filter, get?_put]
  split_ifs <;> rfl

/-! ### Operations on one cell -/

/-- Run the cell operation `f` on the cell `k`. -/
def onCell (d : Dict κ ν) (k : κ) (f : Option ν → Option ν × ρ) : Dict κ ν × ρ :=
  (d.put k (f (d.get? k)).1, (f (d.get? k)).2)

theorem onCell_get?_self (d : Dict κ ν) (k : κ) (f : Option ν → Option ν × ρ) :
    (d.onCell k f).1.get? k = (f (d.get? k)).1 := get?_put_self _ _ _

theorem onCell_get?_ne (d : Dict κ ν) {k k' : κ} (f : Option ν → Option ν × ρ) (h : k' ≠ k) :
    (d.onCell k f).1.get? k' = d.get? k' := get?_put_ne _ _ h

/-! ### Operations that cannot see filtered entries -/

/-- `f` does not distinguish a cell from its filtered copy. -/
def Blind (p : ν → Bool) (f : Option ν → Option ν × ρ) : Prop :=
  ∀ o, (f o).2 = (f (o.filter p)).2 ∧ (f o).1.filter p = (f (o.filter p)).1.filter p

/-- `op` does not distinguish dictionaries that agree on the entries satisfying `p`. -/
def Oblivious (p : ν → Bool) (op : Dict κ ν → Dict κ ν × ρ) : Prop :=
  ∀ d d' : Dict κ ν, d.filter p = d'.filter p →
    (op d).2 = (op d').2 ∧ (op d).1.filter p = (op d').1.filter p

/-- If `f` does not distinguish the content of the cell from its filtered copy, the operation does
not distinguish the dictionary from its filtered copy. -/
theorem onCell_filter {p : ν → Bool} {f : Option ν → Option ν × ρ} {d : Dict κ ν} {k : κ}
    (h₁ : (f (d.get? k)).2 = (f ((d.get? k).filter p)).2)
    (h₂ : (f (d.get? k)).1.filter p = (f ((d.get? k).filter p)).1.filter p) :
    (d.onCell k f).2 = ((d.filter p).onCell k f).2 ∧
      (d.onCell k f).1.filter p = ((d.filter p).onCell k f).1.filter p := by
  simp only [onCell, get?_filter, filter_put, filter_filter]
  exact ⟨h₁, by rw [h₂]⟩

theorem onCell_oblivious {p : ν → Bool} {f : Option ν → Option ν × ρ} (hf : Blind p f) (k : κ) :
    Oblivious p (fun d : Dict κ ν => d.onCell k f) := by
  intro d d' h
  obtain ⟨h₁, h₂⟩ := onCell_filter (hf (d.get? k)).1 (hf (d.get? k)).2
  obtain ⟨h₁', h₂'⟩ := onCell_filter (hf (d'.get? k)).1 (hf (d'.get? k)).2
  exact ⟨by rw [h₁, h, ← h₁'], by rw [h₂, h, ← h₂']⟩

theorem Oblivious.filter {p : ν → Bool} {op : Dict κ ν → Dict κ ν × ρ} (h : Oblivious p op)
    (d : Dict κ ν) :
    (op d).2 = (op (d.filter p)).2 ∧ (op d).1.filter p = (op (d.filter p)).1.filter p :=
  h d (d.filter p) (filter_filter p d).symm

/-- The operation that first drops the content of the cell `k` unless it satisfies `p`. -/
def onKept (d : Dict κ ν) (p : ν → Bool) (k : κ) (g : Option ν → Option ν × ρ) : Dict κ ν × ρ :=
  d.onCell k fun o => g (o.filter p)

theorem onKept_oblivious (p : ν → Bool) (k : κ) (g : Option ν → Option ν × ρ) :
    Oblivious p (fun d : Dict κ ν => d.onKept p k g) :=
  onCell_oblivious (fun o => by rw [option_filter_filter]; exact ⟨rfl, rfl⟩) k

end Dict
