import Heaven.HashFields

/-! # Batches

A command with several arguments is to do what it does with the first few, followed by what it does
with the rest (`Splits`).  The commands on one key act on a container of one kind, absent or there;
`containerCell` is that form, and `splits_containerCell` reduces the law to one about containers.

The answers of HDEL and DEL are counted in 32 bits, so the answers to the two halves add up to the
answer to the batch modulo 2 ^ 32 only. -/

namespace Heaven
namespace Soul

open Decimal (ascii print)

variable {α β ρ : Type}

/-! ### The law -/

/-- A batch does what its two halves do one after the other, and the three answers are related.  If
one form fails so does the other, and the store stays as it is. -/
def Splits (run : List β → Soul → Soul × Except Sacrilege ρ) (combine : ρ → ρ → ρ → Prop) : Prop :=
  ∀ (s : Soul) (xs ys : List β), xs ≠ [] → ys ≠ [] →
    (∃ s₁ s₂ n₁ n₂ n, run xs s = (s₁, .ok n₁) ∧ run ys s₁ = (s₂, .ok n₂) ∧
        run (xs ++ ys) s = (s₂, .ok n) ∧ combine n₁ n₂ n) ∨
      ∃ e, run xs s = (s, .error e) ∧ run ys s = (s, .error e) ∧ run (xs ++ ys) s = (s, .error e)

/-- The batch answers what its second half answers. -/
def secondReply (_ n₂ n : ℕ) : Prop := n = n₂

/-- The batch answers the sum of the answers of its halves. -/
def sumOfReplies (n₁ n₂ n : ℕ) : Prop := n = n₁ + n₂

/-- The same in 32 bits. -/
def wrappedSum (n₁ n₂ n : ℕ) : Prop := n = wrapU32 (n₁ + n₂)

/-- Nothing is said about the answers. -/
def anyReply (_ _ _ : ρ) : Prop := True

/-! ### Commands on one container -/

/-- A command that changes a container of one kind, or makes one, or drops it. -/
def containerCell (view : Value → Option α) (wrap : α → Value) (cmd : Command)
    (step : Option α → Option α × ρ) : Option Entry → Option Entry × Except Sacrilege ρ
  | none => ((step none).1.map fun x => (wrap x, none), .ok (step none).2)
  | some (value, expiry) =>
      match view value with
      | some x => ((step (some x)).1.map fun x => (wrap x, expiry), .ok (step (some x)).2)
      | none => (some (value, expiry), misuse cmd)

/-- The law for the command on a container: where it drops one, it makes none. -/
structure StepSplits (step : List β → Option α → Option α × ρ) (combine : ρ → ρ → ρ → Prop) :
    Prop where
  state : ∀ xs ys c, (step (xs ++ ys) c).1 = (step ys (step xs c).1).1
  reply : ∀ xs ys c, combine (step xs c).2 (step ys (step xs c).1).2 (step (xs ++ ys) c).2
  gone : ∀ xs ys x, (step xs (some x)).1 = none → (step ys none).1 = none

theorem containerCell_map {view : Value → Option α} {wrap : α → Value} (cmd : Command)
    (step : Option α → Option α × ρ) (hview : ∀ x, view (wrap x) = some x) {c : Option α}
    {expiry : Option ℕ} (h : c = none → expiry = none ∨ (step none).1 = none) :
    containerCell view wrap cmd step (c.map fun x => (wrap x, expiry)) =
      ((step c).1.map fun x => (wrap x, expiry), .ok (step c).2) := by
  cases c with
  | none =>
      rcases h rfl with rfl | hnone
      · rfl
      · simp only [Option.map_none, containerCell, hnone]
  | some x => simp only [Option.map_some, containerCell, hview]

theorem onLive_eq (s : Soul) (key : Bytes) (now : ℕ) (g : Option Entry → Option Entry × ρ) :
    s.onLive key now g =
      (s.put key (g ((s.get? key).filter (live now))).1,
        (g ((s.get? key).filter (live now))).2) := rfl

theorem onLive_put {s : Soul} {key : Bytes} {now : ℕ} {o : Option Entry}
    (h : o.filter (live now) = o) (g : Option Entry → Option Entry × ρ) :
    Soul.onLive (s.put key o) key now g = (s.put key (g o).1, (g o).2) := by
  rw [onLive_eq, Dict.get?_put_self, h, Dict.put_put]

/-- **The law for containers carries over to the store.** -/
theorem splits_containerCell {run : List β → Soul → Soul × Except Sacrilege ρ} {key : Bytes}
    {now : ℕ} {view : Value → Option α} {wrap : α → Value} {cmd : Command}
    {step : List β → Option α → Option α × ρ} {combine : ρ → ρ → ρ → Prop}
    (hstep : StepSplits step combine) (hview : ∀ x, view (wrap x) = some x)
    (hrun : ∀ xs s, run xs s = s.onLive key now (containerCell view wrap cmd (step xs))) :
    Splits run combine := by
  intro s xs ys _ _
  -- the container before the command, under a deadline that is not over
  have hsplit : ∀ (c : Option α) (expiry : Option ℕ), isExpired expiry now = false →
      (∀ ys, (step xs c).1 = none → expiry = none ∨ (step ys none).1 = none) →
      (∀ zs, containerCell view wrap cmd (step zs) ((s.get? key).filter (live now)) =
        ((step zs c).1.map fun x => (wrap x, expiry), .ok (step zs c).2)) →
      ∃ s₁ s₂ n₁ n₂ n, run xs s = (s₁, .ok n₁) ∧ run ys s₁ = (s₂, .ok n₂) ∧
        run (xs ++ ys) s = (s₂, .ok n) ∧ combine n₁ n₂ n := by
    intro c expiry hlive hgone hcell
    have hkept : (((step xs c).1.map fun x => (wrap x, expiry)) : Option Entry).filter (live now) =
        (step xs c).1.map fun x => (wrap x, expiry) := by
      cases (step xs c).1 with
      | none => rfl
      | some x => simp only [Option.map_some, filter_live_some, hlive, Bool.false_eq_true, if_false]
    refine ⟨s.put key ((step xs c).1.map fun x => (wrap x, expiry)),
      s.put key ((step ys (step xs c).1).1.map fun x => (wrap x, expiry)), _, _, _, ?_, ?_, ?_,
      hstep.reply xs ys c⟩
    · rw [hrun, onLive_eq, hcell]
    · rw [hrun, onLive_put hkept, containerCell_map cmd _ hview (hgone ys)]
    · rw [hrun, onLive_eq, hcell, hstep.state]
  rcases hcell : (s.get? key).filter (live now) with _ | ⟨value, expiry⟩
  · left
    apply hsplit none none rfl (fun _ _ => Or.inl rfl)
    intro zs
    rw [hcell]
    rfl
  · obtain ⟨hkey, hlive⟩ := Option.filter_eq_some_iff.mp hcell
    cases hvalue : view value with
    | none =>
        right
        have hfail : ∀ zs, run zs s = (s, misuse cmd) := by
          intro zs
          rw [hrun, onLive_eq, hcell]
          simp only [containerCell, hvalue, Dict.put_eq_self hkey]
        exact ⟨_, hfail xs, hfail ys, hfail _⟩
    | some x =>
        left
        have hexpiry : isExpired expiry now = false := by simpa [live] using hlive
        apply hsplit (some x) expiry hexpiry (fun zs h => Or.inr (hstep.gone xs zs x h))
        intro zs
        rw [hcell]
        simp only [containerCell, hvalue]

theorem updateCell_eq_containerCell {view : Value → Option α} {wrap : α → Value} {cmd : Command}
    {absent : Option Entry × Except Sacrilege ρ} {found : α → α × Except Sacrilege ρ}
    {step : Option α → Option α × ρ}
    (habsent : absent = ((step none).1.map fun x => (wrap x, none), .ok (step none).2))
    (hfound : ∀ x, (step (some x)).1 = some (found x).1 ∧ (found x).2 = .ok (step (some x)).2) :
    updateCell view wrap (misuse cmd) absent found = containerCell view wrap cmd step := by
  funext o
  rcases o with _ | ⟨value, expiry⟩
  · exact habsent
  · cases h : view value with
    | none => simp only [updateCell, containerCell, h]
    | some x => simp only [updateCell, containerCell, h, hfound, Option.map_some]

/-! ### Lists and strings -/

/-- Commands that append and answer with the length. -/
theorem stepSplits_length {γ : Type} {act : Option (List γ) → List β → List γ}
    (hact : ∀ xs ys c, act (some (act c xs)) ys = act c (xs ++ ys)) :
    StepSplits (fun xs c => (some (act c xs), (act c xs).length)) secondReply := by
  constructor
  · intro xs ys c
    simp only [hact]
  · intro xs ys c
    simp only [secondReply, hact]
  · intro xs ys c h
    cases h

def lpushStep (elements : List Bytes) (list : Option (List Bytes)) : Option (List Bytes) × ℕ :=
  (some (elements.reverse ++ list.getD []), (elements.reverse ++ list.getD []).length)

theorem splits_lpush (key : Bytes) (now : ℕ) :
    Splits (fun elements s => s.lpush key elements now) secondReply := by
  have hstep : StepSplits lpushStep secondReply := by
    apply stepSplits_length
    intro xs ys c
    simp only [Option.getD_some, List.reverse_append, List.append_assoc]
  apply splits_containerCell hstep fun _ => list?_eq_some.mpr rfl
  intro elements s
  rw [lpush_eq_onLive]
  congr 1
  apply updateCell_eq_containerCell
  · simp [lpushStep]
  · intro list
    simp [lpushStep]

def rpushStep (elements : List Bytes) (list : Option (List Bytes)) : Option (List Bytes) × ℕ :=
  (some (list.getD [] ++ elements), (list.getD [] ++ elements).length)

theorem splits_rpush (key : Bytes) (now : ℕ) :
    Splits (fun elements s => s.rpush key elements now) secondReply := by
  have hstep : StepSplits rpushStep secondReply := by
    apply stepSplits_length
    intro xs ys c
    simp only [Option.getD_some, List.append_assoc]
  apply splits_containerCell hstep fun _ => list?_eq_some.mpr rfl
  intro elements s
  rw [rpush_eq_onLive]
  congr 1
  apply updateCell_eq_containerCell
  · rfl
  · intro list
    rw [foldl_concat]
    exact ⟨rfl, rfl⟩

def appendStep (incomingValue : Bytes) (value : Option Bytes) : Option Bytes × ℕ :=
  (some (value.getD [] ++ incomingValue), (value.getD [] ++ incomingValue).length)

theorem splits_append (key : Bytes) (now : ℕ) :
    Splits (fun value s => s.append key value now) secondReply := by
  have hstep : StepSplits appendStep secondReply := by
    apply stepSplits_length
    intro xs ys c
    simp only [Option.getD_some, List.append_assoc]
  apply splits_containerCell hstep fun _ => string?_eq_some.mpr rfl
  intro incomingValue s
  rw [append_eq_onLive]
  congr 1
  apply updateCell_eq_containerCell
  · rfl
  · intro value
    exact ⟨rfl, rfl⟩

/-! ### Sets -/

/-- The count a loop starts with is added to what it counts. -/
theorem saddLoop_count (set : HashSet Bytes) (count : ℕ) (values : List Bytes) :
    saddLoop set count values =
      ((saddLoop set 0 values).1, count + (saddLoop set 0 values).2) := by
  induction values generalizing set count with
  | nil => rfl
  | cons value values ih =>
      rw [saddLoop, saddLoop]
      split_ifs
      · exact ih _ _
      · rw [ih _ (count + 1), ih _ (0 + 1), zero_add, add_assoc]

theorem saddLoop_append (set : HashSet Bytes) (count : ℕ) (xs ys : List Bytes) :
    saddLoop set count (xs ++ ys) =
      saddLoop (saddLoop set count xs).1 (saddLoop set count xs).2 ys := by
  induction xs generalizing set count with
  | nil => rfl
  | cons value xs ih => exact ih _ _

def saddStep (values : List Bytes) (set : Option (HashSet Bytes)) : Option (HashSet Bytes) × ℕ :=
  (some (saddLoop (set.getD HashSet.empty) 0 values).1,
    (saddLoop (set.getD HashSet.empty) 0 values).2)

theorem splits_sadd (key : Bytes) (now : ℕ) :
    Splits (fun values s => s.sadd key values now) sumOfReplies := by
  have hstep : StepSplits saddStep sumOfReplies := by
    constructor
    · intro xs ys set
      simp only [saddStep, Option.getD_some]
      rw [saddLoop_append, saddLoop_count]
    · intro xs ys set
      simp only [sumOfReplies, saddStep, Option.getD_some]
      rw [saddLoop_append, saddLoop_count]
    · intro xs ys set h
      cases h
  apply splits_containerCell hstep fun _ => set?_eq_some.mpr rfl
  intro values s
  rw [sadd_eq_onLive]
  congr 1
  apply updateCell_eq_containerCell
  · rfl
  · intro set
    exact ⟨rfl, rfl⟩

theorem sremLoop_count (set : HashSet Bytes) (count : ℕ) (values : List Bytes) :
    sremLoop set count values =
      ((sremLoop set 0 values).1, count + (sremLoop set 0 values).2) := by
  induction values generalizing set count with
  | nil => rfl
  | cons value values ih =>
      rw [sremLoop, sremLoop]
      split_ifs
      · rw [ih _ (count + 1), ih _ (0 + 1), zero_add, add_assoc]
      · exact ih _ _

theorem sremLoop_append (set : HashSet Bytes) (count : ℕ) (xs ys : List Bytes) :
    sremLoop set count (xs ++ ys) =
      sremLoop (sremLoop set count xs).1 (sremLoop set count xs).2 ys := by
  induction xs generalizing set count with
  | nil => rfl
  | cons value xs ih => exact ih _ _

/-- Nothing is removed from an empty set. -/
theorem sremLoop_of_isEmpty {set : HashSet Bytes} (h : set.isEmpty = true) (values : List Bytes) :
    (sremLoop set 0 values).1.isEmpty = true ∧ (sremLoop set 0 values).2 = 0 := by
  induction values generalizing set with
  | nil => exact ⟨h, rfl⟩
  | cons value values ih =>
      have hmem := HashSet.isEmpty_iff.mp h
      have hcontains : set.contains value = false := by
        rw [← Bool.not_eq_true, HashSet.contains_iff]
        exact hmem value
      have hremove : (set.remove value).isEmpty = true := by
        rw [HashSet.isEmpty_iff]
        intro other hother
        exact hmem other (HashSet.mem_remove.mp hother).2
      rw [sremLoop, hcontains]
      exact ih hremove

/-- SREM on a set; an exhausted set is dropped. -/
def sremStep (values : List Bytes) : Option (HashSet Bytes) → Option (HashSet Bytes) × ℕ
  | none => (none, 0)
  | some set =>
      (if (sremLoop set 0 values).1.isEmpty then none else some (sremLoop set 0 values).1,
        (sremLoop set 0 values).2)

theorem splits_srem (key : Bytes) (now : ℕ) :
    Splits (fun values s => s.srem key values now) sumOfReplies := by
  have hstep : StepSplits sremStep sumOfReplies := by
    constructor
    · intro xs ys set
      cases set with
      | none => rfl
      | some set =>
          simp only [sremStep, sremLoop_append, sremLoop_count _ (sremLoop set 0 xs).2]
          by_cases hempty : (sremLoop set 0 xs).1.isEmpty = true
          · rw [if_pos hempty, if_pos (sremLoop_of_isEmpty hempty ys).1]
          · rw [if_neg hempty]
    · intro xs ys set
      cases set with
      | none => rfl
      | some set =>
          simp only [sumOfReplies, sremStep, sremLoop_append,
            sremLoop_count _ (sremLoop set 0 xs).2]
          by_cases hempty : (sremLoop set 0 xs).1.isEmpty = true
          · rw [if_pos hempty, (sremLoop_of_isEmpty hempty ys).2]
          · rw [if_neg hempty]
    · intro xs ys set h
      rfl
  apply splits_containerCell hstep fun _ => set?_eq_some.mpr rfl
  intro values s
  rw [srem_eq_onLive]
  congr 1
  funext o
  rcases o with _ | ⟨_ | _ | _ | set, expiry⟩
  · rfl
  · rfl
  · rfl
  · rfl
  · simp only [sremCell, containerCell, Value.set?, sremStep]
    split_ifs <;> rfl

/-! ### Hashes -/

theorem hsetLoop_append (map : FieldMap) (added added' added'' : ℕ)
    (xs ys : List (Bytes × Bytes)) :
    (hsetLoop map added (xs ++ ys)).1 = (hsetLoop (hsetLoop map added' xs).1 added'' ys).1 := by
  induction xs generalizing map added added' with
  | nil => rw [List.nil_append, ← hsetFreshLoop_fst _ 0, hsetFreshLoop_fst _ 0 added'', hsetLoop]
  | cons pair xs ih => exact ih _ _ _

def hsetStep (pairs : List (Bytes × Bytes)) : Option FieldMap → Option FieldMap × ℕ
  | none => (some (hsetFreshLoop ∅ 0 pairs).1, (hsetFreshLoop ∅ 0 pairs).2)
  | some map => (some (hsetLoop map 0 pairs).1, (hsetLoop map 0 pairs).2)

theorem splits_hset (key : Bytes) (now : ℕ) :
    Splits (fun pairs s => s.hset key pairs now) anyReply := by
  have hstep : StepSplits hsetStep anyReply := by
    constructor
    · intro xs ys map
      cases map with
      | none =>
          simp only [hsetStep, hsetFreshLoop_fst ∅ 0 0]
          rw [hsetLoop_append ∅ 0 0 0]
      | some map =>
          simp only [hsetStep]
          rw [hsetLoop_append map 0 0 0]
    · intro xs ys map
      trivial
    · intro xs ys map h
      cases h
  apply splits_containerCell hstep fun _ => hash?_eq_some.mpr rfl
  intro pairs s
  rw [hset_eq_onLive]
  congr 1
  apply updateCell_eq_containerCell
  · rfl
  · intro map
    exact ⟨rfl, rfl⟩

theorem hdelLoop_append (map : FieldMap) (deleted : ℕ) (xs ys : List Bytes) :
    hdelLoop map deleted (xs ++ ys) =
      hdelLoop (hdelLoop map deleted xs).1 (hdelLoop map deleted xs).2 ys := by
  induction xs generalizing map deleted with
  | nil => rfl
  | cons field xs ih => exact ih _ _

/-- The map the loop of HDEL leaves does not depend on its counter. -/
theorem hdelLoop_fst (map : FieldMap) (deleted deleted' : ℕ) (fields : List Bytes) :
    (hdelLoop map deleted fields).1 = (hdelLoop map deleted' fields).1 := by
  induction fields generalizing map deleted deleted' with
  | nil => rfl
  | cons field fields ih => exact ih _ _ _

def hdelStep (fields : List Bytes) : Option FieldMap → Option FieldMap × ℕ
  | none => (none, 0)
  | some map => (some (hdelLoop map 0 fields).1, (hdelLoop map 0 fields).2)

theorem hdelLoop_zero (map : FieldMap) (fields : List Bytes) :
    (hdelLoop map 0 fields).2 = wrapU32 (fields.toFinset ∩ fieldsOf map).card := by
  rw [hdelLoop_spec map (by norm_num), zero_add]

theorem splits_hdel (key : Bytes) (now : ℕ) :
    Splits (fun fields s => s.hdel key fields now) wrappedSum := by
  have hstep : StepSplits hdelStep wrappedSum := by
    constructor
    · intro xs ys map
      cases map with
      | none => rfl
      | some map =>
          simp only [hdelStep]
          rw [hdelLoop_append, hdelLoop_fst _ _ 0]
    · intro xs ys map
      cases map with
      | none => rfl
      | some map =>
          have hlt : (hdelLoop map 0 xs).2 < 2 ^ 32 := by
            rw [hdelLoop_zero]
            exact wrapU32_lt _
          simp only [hdelStep, wrappedSum]
          rw [hdelLoop_append, hdelLoop_spec _ hlt, hdelLoop_zero _ ys, Nat.add_comm,
            ← wrapU32_add_wrapU32, Nat.add_comm]
    · intro xs ys map h
      cases h
  apply splits_containerCell hstep fun _ => hash?_eq_some.mpr rfl
  intro fields s
  rw [hdel_eq_onLive]
  congr 1
  apply updateCell_eq_containerCell
  · rfl
  · intro map
    exact ⟨rfl, rfl⟩

/-! ### Commands on several keys -/

theorem forKeys_append {γ : Type} (access : Soul → Bytes → Soul × Option Value)
    (visit : γ → Option Value → γ) (s : Soul) (acc : γ) (xs ys : List Bytes) :
    forKeys access visit s acc (xs ++ ys) =
      forKeys access visit (forKeys access visit s acc xs).1 (forKeys access visit s acc xs).2
        ys := by
  induction xs generalizing s acc with
  | nil => rfl
  | cons key xs ih => exact ih _ _

/-- The step of the counter of DEL. -/
def countDeleted (deleted : ℕ) (value : Option Value) : ℕ :=
  if value.isSome then wrapU32 (deleted + 1) else deleted

theorem countDeleted_lt {deleted : ℕ} (h : deleted < 2 ^ 32) (value : Option Value) :
    countDeleted deleted value < 2 ^ 32 := by
  unfold countDeleted
  split_ifs
  · exact wrapU32_lt _
  · exact h

/-- The count the loop starts with is added to what it counts. -/
theorem forKeys_count (access : Soul → Bytes → Soul × Option Value) (s : Soul) {deleted : ℕ}
    (h : deleted < 2 ^ 32) (keys : List Bytes) :
    forKeys access countDeleted s deleted keys =
      ((forKeys access countDeleted s 0 keys).1,
        wrapU32 (deleted + (forKeys access countDeleted s 0 keys).2)) := by
  induction keys generalizing s deleted with
  | nil => exact Prod.ext rfl (wrapU32_of_lt h).symm
  | cons key keys ih =>
      simp only [forKeys]
      rw [ih _ (countDeleted_lt h _), ih _ (countDeleted_lt (by norm_num) _)]
      congr 1
      unfold countDeleted wrapU32
      split_ifs <;> omega

theorem del_append (s : Soul) (xs ys : List Bytes) (now : ℕ) :
    s.del (xs ++ ys) now =
      ((del (s.del xs now).1 ys now).1,
        wrapU32 ((s.del xs now).2 + (del (s.del xs now).1 ys now).2)) := by
  have hcount : (s.del xs now).2 < 2 ^ 32 := by
    have h := congrArg Prod.snd
      (forKeys_count (fun s key => s.removeValidValue key now) s (by norm_num : 0 < 2 ^ 32) xs)
    change (s.del xs now).2 = wrapU32 (0 + (s.del xs now).2) at h
    rw [h]
    exact wrapU32_lt _
  exact (forKeys_append _ countDeleted s 0 xs ys).trans (forKeys_count _ _ hcount ys)

theorem splits_del (now : ℕ) :
    Splits (fun keys s => ((s.del keys now).1, .ok (s.del keys now).2)) wrappedSum := by
  intro s xs ys _ _
  left
  refine ⟨_, _, _, _, wrapU32 _, rfl, rfl, ?_, rfl⟩
  simp only [del_append]

/-- The arguments of MSET. -/
def terms (pairs : List (Bytes × Bytes)) : List Bytes := pairs.flatMap fun pair => [pair.1, pair.2]

theorem mset_append (s : Soul) (xs ys : List (Bytes × Bytes)) :
    s.mset (terms (xs ++ ys)) = mset (s.mset (terms xs)) (terms ys) := by
  induction xs generalizing s with
  | nil => rfl
  | cons pair xs ih => exact ih _

theorem splits_mset : Splits (fun pairs s => (s.mset (terms pairs), .ok ())) anyReply := by
  intro s xs ys _ _
  left
  refine ⟨_, _, _, _, (), rfl, rfl, ?_, trivial⟩
  simp only [mset_append]

/-- **Batching is the same as sending one by one**, for the answers of HDEL and DEL in 32 bits. -/
theorem batches_split (key : Bytes) (now : ℕ) :
    Splits (fun elements s => s.lpush key elements now) secondReply ∧
      Splits (fun elements s => s.rpush key elements now) secondReply ∧
      Splits (fun value s => s.append key value now) secondReply ∧
      Splits (fun values s => s.sadd key values now) sumOfReplies ∧
      Splits (fun values s => s.srem key values now) sumOfReplies ∧
      Splits (fun pairs s => s.hset key pairs now) anyReply ∧
      Splits (fun fields s => s.hdel key fields now) wrappedSum ∧
      Splits (fun keys s => ((s.del keys now).1, .ok (s.del keys now).2)) wrappedSum ∧
      Splits (fun pairs s => (s.mset (terms pairs), .ok ())) anyReply :=
  ⟨splits_lpush key now, splits_rpush key now, splits_append key now, splits_sadd key now,
    splits_srem key now, splits_hset key now, splits_hdel key now, splits_del now, splits_mset⟩

/-! ### 2 ^ 32 fields -/

/-- The numbers below `n` as texts. -/
def numbers (n : ℕ) : List Bytes := (List.range n).map print

theorem nodup_numbers (n : ℕ) : (numbers n).Nodup := by
  have hinjective : Function.Injective print := Function.LeftInverse.injective Decimal.value_print
  exact List.nodup_range.map hinjective

/-- A hash with the numbers below `n` as fields. -/
def numberedHash (n : ℕ) : FieldMap := (hsetLoop ∅ 0 ((numbers n).map fun field => (field, []))).1

theorem fieldsOf_numberedHash (n : ℕ) : fieldsOf (numberedHash n) = (numbers n).toFinset := by
  rw [numberedHash, fieldsOf_hsetLoop, fieldsOf_empty, Finset.union_empty, listed, List.map_map]
  congr 1
  exact List.map_id _

theorem hdel_of_live {s : Soul} {key : Bytes} {map : FieldMap} {expiry : Option ℕ} {now : ℕ}
    (hkey : s.get? key = some (.hash map, expiry)) (hlive : isExpired expiry now = false)
    (fields : List Bytes) :
    s.hdel key fields now =
      (s.insert key (.hash (hdelLoop map 0 fields).1, expiry),
        .ok (wrapU32 (fields.toFinset ∩ fieldsOf map).card)) := by
  rw [hdel_eq_onLive, onLive_of_live hkey hlive, ← hdelLoop_zero]
  rfl

theorem numbers_succ (n : ℕ) : numbers (n + 1) = numbers n ++ [print n] := by
  rw [numbers, List.range_succ, List.map_append]
  rfl

theorem card_numbers (n : ℕ) : (numbers n).toFinset.card = n := by
  rw [List.toFinset_card_of_nodup (nodup_numbers n), numbers, List.length_map, List.length_range]

theorem print_notMem_numbers (n : ℕ) : print n ∉ (numbers n).toFinset := by
  have hnodup := nodup_numbers (n + 1)
  rw [numbers_succ, ← List.concat_eq_append, List.nodup_concat] at hnodup
  rw [List.mem_toFinset]
  exact hnodup.1

/-- To delete the first `n` of `n + 1` fields and then the last against deleting all at once. -/
theorem replies_of_splits_hdel {key : Bytes} {n : ℕ} (hn : n ≠ 0)
    (h : Splits (fun fields s => s.hdel key fields 0) sumOfReplies) :
    wrapU32 (n + 1) = wrapU32 n + wrapU32 1 := by
  have hfields : fieldsOf (numberedHash (n + 1)) = insert (print n) (numbers n).toFinset := by
    rw [fieldsOf_numberedHash, numbers_succ, List.toFinset_append, List.toFinset_cons,
      List.toFinset_nil, Finset.insert_empty, Finset.union_singleton]
  have hlast := print_notMem_numbers n
  have hnonempty : numbers n ≠ [] := by
    intro hnil
    apply hn
    rw [← card_numbers n, hnil]
    rfl
  have hfirst : (numbers n).toFinset ∩ fieldsOf (numberedHash (n + 1)) =
      (numbers n).toFinset := by
    rw [hfields]
    exact Finset.inter_eq_left.mpr (Finset.subset_insert _ _)
  have hrest : [print n].toFinset ∩
      fieldsOf (hdelLoop (numberedHash (n + 1)) 0 (numbers n)).1 = {print n} := by
    rw [fieldsOf_hdelLoop, hfields, Finset.insert_sdiff_cancel hlast]
    exact Finset.inter_self _
  have hall : (numbers n ++ [print n]).toFinset ∩ fieldsOf (numberedHash (n + 1)) =
      insert (print n) (numbers n).toFinset := by
    rw [hfields, List.toFinset_append, Finset.union_comm]
    exact Finset.inter_self _
  have hrun : ∀ (s : Soul) (map : FieldMap) (fields : List Bytes),
      Soul.hdel (s.insert key (.hash map, none)) key fields 0 =
        ((s.insert key (.hash map, none)).insert key (.hash (hdelLoop map 0 fields).1, none),
          .ok (wrapU32 (fields.toFinset ∩ fieldsOf map).card)) := by
    intro s map fields
    exact hdel_of_live (Dict.get?_insert_self _ _ _) rfl fields
  rcases h (Soul.new.insert key (Value.hash (numberedHash (n + 1)), none)) (numbers n) [print n]
      hnonempty (List.cons_ne_nil _ _) with
    ⟨s₁, s₂, n₁, n₂, m, h₁, h₂, h₃, hsum⟩ | ⟨e, h₁, -, -⟩
  · simp only [hrun, hfirst, card_numbers] at h₁
    cases h₁
    simp only [hrun, hrest, Finset.card_singleton] at h₂
    cases h₂
    simp only [hrun, hall, Finset.card_insert_of_notMem hlast, card_numbers] at h₃
    cases (Prod.ext_iff.mp h₃).2
    exact hsum
  · simp only [hrun] at h₁
    cases (Prod.ext_iff.mp h₁).2

/-- Deleting 2 ^ 32 fields is answered with zero. -/
theorem hdel_reply_wraps :
    ¬ ∀ (key : Bytes) (now : ℕ), Splits (fun fields s => s.hdel key fields now) sumOfReplies := by
  intro h
  have hwrap := replies_of_splits_hdel (n := 2 ^ 32 - 1) (by norm_num) (h (ascii "k") 0)
  norm_num [wrapU32] at hwrap

end Soul
end Heaven
