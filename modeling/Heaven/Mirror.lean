import Heaven.Pops
import Heaven.Positions
import Heaven.Temple

/-! # Left and right

The two ends of a list are treated by code of their own: LPUSH reverses what it puts into a fresh
list, LREM scans backwards for a negative count, indices are counted from either end.  Nevertheless
the ends are mirror images.  The mirrored run swaps the pushes and the pops, negates the counts of
LREM and counts indices from the other end; from mirrored stores it stays mirrored and gets the same
replies (`mirrored_run`).

A command acts on one cell, so the step of the simulation is a law for cell operations
(`CellMirror`), proved once for each of the three forms they have. -/

namespace Heaven

open Decimal (ascii)

/-- The command that does the same at the other end. -/
def Command.mirror : Command → Command
  | .lpush => .rpush
  | .rpush => .lpush
  | .lpop => .rpop
  | .rpop => .lpop
  | cmd => cmd

def Sacrilege.mirror : Sacrilege → Sacrilege
  | .incorrectNumberOfArguments cmd => .incorrectNumberOfArguments cmd.mirror
  | .incorrectUsage cmd => .incorrectUsage cmd.mirror
  | .unknownCommand => .unknownCommand
  | .subscriberOnlyMode => .subscriberOnlyMode

/-- The same reply, but for the command named in an error. -/
def Response.mirror : Response → Response
  | .error sacrilege => .error sacrilege.mirror
  | response => response

/-! ### The commands -/

/-- The commands on the list at a key. -/
inductive ListCommand where
  | lpush (elements : List Bytes)
  | rpush (elements : List Bytes)
  | lpop
  | rpop
  | lpopM (count : ℕ)
  | rpopM (count : ℕ)
  | lrem (count : ℤ) (element : Bytes)
  | lindex (index : ℤ)
  | lset (index : ℤ) (element : Bytes)
  | llen

namespace ListCommand

def toDatabase (key : Bytes) (time : ℕ) : ListCommand → DatabaseCommand
  | .lpush elements => .lpush key elements time
  | .rpush elements => .rpush key elements time
  | .lpop => .lpop key time
  | .rpop => .rpop key time
  | .lpopM count => .lpopM key count time
  | .rpopM count => .rpopM key count time
  | .lrem count element => .lrem key count element time
  | .lindex index => .lindex key index time
  | .lset index element => .lset key index element time
  | .llen => .llen key time

/-- The command seen from the other end of the list. -/
def mirror : ListCommand → ListCommand
  | .lpush elements => .rpush elements
  | .rpush elements => .lpush elements
  | .lpop => .rpop
  | .rpop => .lpop
  | .lpopM count => .rpopM count
  | .rpopM count => .lpopM count
  | .lrem count element => .lrem (-count) element
  | .lindex index => .lindex (-1 - index)
  | .lset index element => .lset (-1 - index) element
  | .llen => .llen

/-- Indices are 32-bit integers. -/
def InRange : ListCommand → Prop
  | .lindex index | .lset index _ => InI32 index
  | _ => True

instance : ∀ cmd : ListCommand, Decidable cmd.InRange
  | .lindex _ | .lset _ _ => inferInstanceAs (Decidable (InI32 _))
  | .lpush _ | .rpush _ | .lpop | .rpop | .lpopM _ | .rpopM _ | .lrem _ _ | .llen =>
      inferInstanceAs (Decidable True)

end ListCommand

namespace Soul

open Transcripts

variable {ρ : Type}

/-! ### Mirrored lists -/

theorem inI32_mirror {index : ℤ} (h : InI32 index) : InI32 (-1 - index) := by
  unfold InI32 at h ⊢
  omega

theorem position_mirror (len : ℕ) (index : ℤ) :
    position len (-1 - index) = len - 1 - position len index := by
  unfold position
  split_ifs <;> omega

theorem inside_mirror {len : ℕ} {index : ℤ} : Inside len (-1 - index) ↔ Inside len index := by
  unfold Inside
  rw [position_mirror]
  omega

theorem elementAt_reverse (list : List Bytes) (index : ℤ) :
    elementAt list.reverse (-1 - index) = elementAt list index := by
  unfold elementAt
  rw [List.length_reverse]
  by_cases h : Inside list.length index
  · rw [if_pos h, if_pos (inside_mirror.mpr h), position_mirror]
    obtain ⟨h₀, hlt⟩ := h
    apply List.getElem?_reverse'
    omega
  · rw [if_neg h, if_neg (inside_mirror.not.mpr h)]

/-- To set an element from the other end. -/
theorem reverse_set {list : List Bytes} {i j : ℕ} (h : i + j + 1 = list.length) (element : Bytes) :
    list.reverse.set i element = (list.set j element).reverse := by
  apply List.ext_getElem?
  intro k
  by_cases hk : k < list.length
  · have hother : k + (list.length - 1 - k) + 1 = list.length := by omega
    have hother' : k + (list.length - 1 - k) + 1 = (list.set j element).length := by
      rw [List.length_set]
      exact hother
    rw [List.getElem?_set, List.getElem?_reverse' hother, List.getElem?_reverse' hother',
      List.getElem?_set]
    have hiff : i = k ↔ j = list.length - 1 - k := by omega
    simp only [hiff, List.length_reverse]
    by_cases heq : j = list.length - 1 - k
    · rw [if_pos heq, if_pos heq, if_pos (by omega), if_pos (by omega)]
    · rw [if_neg heq, if_neg heq]
  · rw [List.getElem?_eq_none, List.getElem?_eq_none] <;> simp <;> omega

theorem popBack_reverse (list : List Bytes) :
    popBack list.reverse = ((popFront list).1.reverse, (popFront list).2) := by
  unfold popBack
  cases list with
  | nil => rfl
  | cons element list => simp [popFront]

theorem popFront_reverse (list : List Bytes) :
    popFront list.reverse = ((popBack list).1.reverse, (popBack list).2) := by
  have h := popBack_reverse list.reverse
  rw [List.reverse_reverse] at h
  rw [h, List.reverse_reverse]

/-- Mirrored pops take the same elements. -/
theorem popLoop_reverse {pop pop' : List Bytes → List Bytes × Option Bytes}
    (h : ∀ list, pop' list.reverse = ((pop list).1.reverse, (pop list).2)) (n : ℕ)
    (list : List Bytes) (popped : List (Option Bytes)) :
    popLoop pop' n list.reverse popped =
      ((popLoop pop n list popped).1.reverse, (popLoop pop n list popped).2) := by
  induction n generalizing list popped with
  | zero => rfl
  | succ n ih =>
      rw [popLoop, popLoop, h]
      rcases pop list with ⟨rest, _ | element⟩
      · rfl
      · exact ih rest _

theorem lsetList_reverse {list : List Bytes} (hlen : list.length < 2 ^ 31) {index : ℤ}
    (hindex : InI32 index) (element : Bytes) :
    lsetList (-1 - index) element list.reverse =
      ((lsetList index element list).1.reverse, (lsetList index element list).2) := by
  have hlen' : list.reverse.length < 2 ^ 31 := by rwa [List.length_reverse]
  rw [lsetList_eq hlen hindex, lsetList_eq hlen' (inI32_mirror hindex), List.length_reverse]
  by_cases h : Inside list.length index
  · rw [if_pos h, if_pos (inside_mirror.mpr h), position_mirror]
    obtain ⟨h₀, hlt⟩ := h
    have hother : (list.length - 1 - position list.length index).toNat +
        (position list.length index).toNat + 1 = list.length := by omega
    rw [reverse_set hother]
  · rw [if_neg h, if_neg (inside_mirror.not.mpr h)]

theorem lremList_reverse {list : List Bytes} (hlen : list.length < 2 ^ 31) (count : ℤ)
    (element : Bytes) :
    lremList (-count) element list.reverse =
      ((lremList count element list).1.reverse, (lremList count element list).2) := by
  have hlen' : list.reverse.length < 2 ^ 31 := by rwa [List.length_reverse]
  rw [lremList_eq hlen, lremList_eq hlen', removals_reverse]
  unfold dropLast
  rcases lt_trichotomy count 0 with hneg | rfl | hpos
  · rw [if_pos (by omega), if_neg (by omega), List.reverse_reverse]
  · have hall : removals list 0 element = list.count element := if_pos rfl
    have hall' : dropFirst element (list.count element) list.reverse =
        list.reverse.filter fun existing => existing ≠ element := by
      rw [← List.count_reverse, dropFirst_count]
    rw [neg_zero, if_pos le_rfl, if_pos le_rfl, hall, hall', dropFirst_count, List.filter_reverse]
  · rw [if_neg (by omega), if_pos hpos.le, List.reverse_reverse]

/-! ### Mirrored cells -/

/-- The entry with its list reversed. -/
def mirrorEntry : Entry → Entry
  | (.list list, expiry) => (.list list.reverse, expiry)
  | entry => entry

/-- The cells at `key` hold mirrored entries, or none. -/
def Mirrored (key : Bytes) (s t : Soul) : Prop := t.get? key = (s.get? key).map mirrorEntry

/-- A list in the cell has fewer than 2 ^ 31 elements. -/
def ShortCell (o : Option Entry) : Prop :=
  ∀ list ∈ o.bind fun entry => entry.1.list?, list.length < 2 ^ 31

instance (o : Option Entry) : Decidable (ShortCell o) :=
  inferInstanceAs (Decidable (∀ list ∈ _, _))

theorem live_mirrorEntry (now : ℕ) (entry : Entry) :
    live now (mirrorEntry entry) = live now entry := by
  obtain ⟨value, expiry⟩ := entry
  cases value <;> rfl

theorem filter_mirror (now : ℕ) (o : Option Entry) :
    (o.map mirrorEntry).filter (live now) = (o.filter (live now)).map mirrorEntry := by
  cases o with
  | none => rfl
  | some entry => by_cases h : live now entry <;> simp [Option.filter, live_mirrorEntry, h]

theorem ShortCell.filter {o : Option Entry} (h : ShortCell o) (p : Entry → Bool) :
    ShortCell (o.filter p) := by
  intro list ho
  obtain ⟨entry, hentry, hlist⟩ := Option.bind_eq_some_iff.mp ho
  exact h list (Option.bind_eq_some_iff.mpr ⟨entry, (Option.filter_eq_some_iff.mp hentry).1, hlist⟩)

/-- `g'` does to the mirrored cell what `g` does to the cell, with replies changed by `φ`. -/
def CellMirror (g g' : Option Entry → Option Entry × ρ) (φ : ρ → ρ) : Prop :=
  ∀ o, ShortCell o → g' (o.map mirrorEntry) = ((g o).1.map mirrorEntry, φ (g o).2)

theorem queryCell_mirror {wrongType wrongType' absent absent' : ρ} {found found' : List Bytes → ρ}
    {φ : ρ → ρ} (hwrong : wrongType' = φ wrongType) (habsent : absent' = φ absent)
    (hfound : ∀ list, list.length < 2 ^ 31 → found' list.reverse = φ (found list)) :
    CellMirror (queryCell Value.list? wrongType absent found)
      (queryCell Value.list? wrongType' absent' found') φ := by
  rintro (_ | ⟨_ | list | _ | _, expiry⟩) hshort
  case some.list => exact congrArg (Prod.mk _) (hfound list (hshort list rfl))
  case none => exact congrArg (Prod.mk _) habsent
  case some.string | some.hash | some.set => exact congrArg (Prod.mk _) hwrong

theorem updateCell_mirror {wrongType wrongType' : ρ} {absent absent' : Option Entry × ρ}
    {found found' : List Bytes → List Bytes × ρ} {φ : ρ → ρ} (hwrong : wrongType' = φ wrongType)
    (habsent : absent' = (absent.1.map mirrorEntry, φ absent.2))
    (hfound : ∀ list, list.length < 2 ^ 31 →
      found' list.reverse = ((found list).1.reverse, φ (found list).2)) :
    CellMirror (updateCell Value.list? .list wrongType absent found)
      (updateCell Value.list? .list wrongType' absent' found') φ := by
  rintro (_ | ⟨_ | list | _ | _, expiry⟩) hshort
  case some.list =>
    simp only [Option.map_some, mirrorEntry, updateCell, Value.list?,
      hfound list (hshort list rfl)]
  case none => exact habsent
  case some.string | some.hash | some.set => exact congrArg (Prod.mk _) hwrong

theorem popCell_mirror (now : ℕ) (cmd : Command) (absent : ρ)
    {pop pop' : List Bytes → List Bytes × ρ}
    (hpop : ∀ list, pop' list.reverse = ((pop list).1.reverse, (pop list).2)) :
    CellMirror (popCell now cmd absent pop) (popCell now cmd.mirror absent pop')
      (Except.mapError Sacrilege.mirror) := by
  rintro (_ | ⟨_ | list | _ | _, expiry⟩) -
  case some.list =>
    simp only [Option.map_some, mirrorEntry, popCell, hpop, List.isEmpty_reverse]
    split_ifs <;> rfl
  case none | some.string | some.hash | some.set => rfl

/-! ### Mirrored commands -/

/-- The stores are mirrored at `key`, and the replies are the same but for the command named in an
error. -/
def MirroredResults (key : Bytes) (p q : Soul × Except Panic Response) : Prop :=
  Mirrored key p.1 q.1 ∧ q.2 = p.2.map Response.mirror

theorem onCell_mirror {g g' : Option Entry → Option Entry × ρ} {φ : ρ → ρ} {key : Bytes}
    {s t : Soul} (h : CellMirror g g' φ) (hshort : ShortCell (s.get? key))
    (hst : Mirrored key s t) :
    Mirrored key (s.onCell key g).1 (t.onCell key g').1 ∧
      (t.onCell key g').2 = φ (s.onCell key g).2 := by
  have hcell := h (s.get? key) hshort
  unfold Mirrored at hst ⊢
  simp only [Dict.onCell, Dict.get?_put_self, hst, hcell, and_self]

theorem onLive_mirror {g g' : Option Entry → Option Entry × ρ} {φ : ρ → ρ} {key : Bytes} {now : ℕ}
    {s t : Soul} (h : CellMirror g g' φ) (hshort : ShortCell (s.get? key))
    (hst : Mirrored key s t) :
    Mirrored key (s.onLive key now g).1 (t.onLive key now g').1 ∧
      (t.onLive key now g').2 = φ (s.onLive key now g).2 := by
  apply onCell_mirror (φ := φ) _ hshort hst
  intro o ho
  simp only [filter_mirror]
  exact h _ (ho.filter _)

section respond

variable {α : Type} {answer : α → Response} (hanswer : ∀ x, (answer x).mirror = answer x)
  {key : Bytes}
include hanswer

theorem replyTo_mirror (r : Except Sacrilege α) :
    replyTo answer (r.mapError Sacrilege.mirror) = (replyTo answer r).mirror := by
  cases r with
  | error sacrilege => rfl
  | ok x => exact (hanswer x).symm

theorem respond_mirror {p q : Soul × Except Sacrilege α}
    (h : Mirrored key p.1 q.1 ∧ q.2 = p.2.mapError Sacrilege.mirror) :
    MirroredResults key (respond answer p) (respond answer q) := by
  refine ⟨h.1, ?_⟩
  unfold respond
  rw [h.2, replyTo_mirror hanswer]
  rfl

theorem respondOrPanic_mirror {p q : Soul × Except Panic (Except Sacrilege α)}
    (h : Mirrored key p.1 q.1 ∧ q.2 = p.2.map (Except.mapError Sacrilege.mirror)) :
    MirroredResults key (respondOrPanic answer p) (respondOrPanic answer q) := by
  refine ⟨h.1, ?_⟩
  unfold respondOrPanic
  rw [h.2]
  cases p.2 with
  | error panic => rfl
  | ok r => exact congrArg Except.ok (replyTo_mirror hanswer r)

end respond

/-- A pushed list is the reverse of the list pushed at the other end. -/
theorem push_mirror (key : Bytes) (elements : List Bytes) (now : ℕ) {s t : Soul}
    (hshort : ShortCell (s.get? key)) (hst : Mirrored key s t) :
    MirroredResults key (respond .length (s.lpush key elements now))
        (respond .length (t.rpush key elements now)) ∧
      MirroredResults key (respond .length (s.rpush key elements now))
        (respond .length (t.lpush key elements now)) := by
  rw [lpush_eq_onLive, rpush_eq_onLive, lpush_eq_onLive, rpush_eq_onLive]
  constructor
  · apply respond_mirror (fun _ => rfl)
    apply onLive_mirror _ hshort hst
    refine updateCell_mirror rfl ?_ ?_
    · simp only [Option.map_some, mirrorEntry, List.reverse_reverse]
      rfl
    · intro list _
      simp only [List.foldl_flip_cons_eq_append', foldl_concat, List.reverse_append,
        List.reverse_reverse, List.length_append, List.length_reverse, Nat.add_comm]
      rfl
  · apply respond_mirror (fun _ => rfl)
    apply onLive_mirror _ hshort hst
    refine updateCell_mirror rfl rfl ?_
    intro list _
    simp only [List.foldl_flip_cons_eq_append', foldl_concat, List.reverse_append,
      List.length_append, List.length_reverse, Nat.add_comm]
    rfl

theorem pop_mirror {α : Type} {answer : α → Response} (hanswer : ∀ x, (answer x).mirror = answer x)
    (key : Bytes) (now : ℕ) (cmd : Command) (absent : α) {pop pop' : List Bytes → List Bytes × α}
    (hpop : ∀ list, pop' list.reverse = ((pop list).1.reverse, (pop list).2)) {s t : Soul}
    (hshort : ShortCell (s.get? key)) (hst : Mirrored key s t) :
    MirroredResults key (respond answer (s.popWith key now cmd absent pop))
      (respond answer (t.popWith key now cmd.mirror absent pop')) := by
  rw [popWith_eq_onCell, popWith_eq_onCell]
  apply respond_mirror hanswer
  exact onCell_mirror (popCell_mirror now cmd absent hpop) hshort hst

/-- **The mirrored command on the mirrored store**: the step of the simulation. -/
theorem command_mirror (config : Config) (key : Bytes) (now : ℕ) {cmd : ListCommand}
    (hrange : cmd.InRange) {s t : Soul} (hshort : ShortCell (s.get? key))
    (hst : Mirrored key s t) :
    MirroredResults key (database s config (cmd.toDatabase key now))
      (database t config (cmd.mirror.toDatabase key now)) := by
  cases cmd with
  | lpush elements => exact (push_mirror key elements now hshort hst).1
  | rpush elements => exact (push_mirror key elements now hshort hst).2
  | lpop => exact pop_mirror (fun _ => rfl) key now .lpop none popBack_reverse hshort hst
  | rpop => exact pop_mirror (fun _ => rfl) key now .rpop none popFront_reverse hshort hst
  | lpopM count =>
      apply pop_mirror (fun _ => rfl) key now .lpop none _ hshort hst
      intro list
      rw [popLoop_reverse popBack_reverse]
  | rpopM count =>
      apply pop_mirror (fun _ => rfl) key now .rpop none _ hshort hst
      intro list
      rw [popLoop_reverse popFront_reverse]
  | lrem count element =>
      apply respondOrPanic_mirror (fun _ => rfl)
      rw [lrem_eq_onLive, lrem_eq_onLive]
      apply onLive_mirror _ hshort hst
      refine updateCell_mirror rfl rfl ?_
      intro list hlen
      rw [lremList_reverse hlen, lremList_eq hlen]
      rfl
  | lindex index =>
      apply respond_mirror (fun _ => rfl)
      unfold lindex
      rw [query_eq_onLive, query_eq_onLive]
      apply onLive_mirror _ hshort hst
      refine queryCell_mirror rfl rfl ?_
      intro list hlen
      have hlen' : list.reverse.length < 2 ^ 31 := by rwa [List.length_reverse]
      rw [lindexList_eq hlen hrange, lindexList_eq hlen' (inI32_mirror hrange), elementAt_reverse]
      rfl
  | lset index element =>
      apply respondOrPanic_mirror (fun _ => rfl)
      rw [lset_eq_onLive, lset_eq_onLive]
      apply onLive_mirror _ hshort hst
      refine updateCell_mirror rfl rfl ?_
      intro list hlen
      rw [lsetList_reverse hlen hrange, lsetList_eq hlen hrange]
      split_ifs <;> rfl
  | llen =>
      apply respond_mirror (fun _ => rfl)
      unfold llen
      rw [query_eq_onLive, query_eq_onLive]
      apply onLive_mirror _ hshort hst
      refine queryCell_mirror rfl rfl ?_
      intro list _
      rw [List.length_reverse]
      rfl

/-! ### Mirrored runs -/

/-- A command on the list at `key`, at its time. -/
def runListCommand (config : Config) (key : Bytes) (cmd : ListCommand × ℕ) (s : Soul) :
    Soul × Except Panic Response :=
  database s config (cmd.1.toDatabase key cmd.2)

/-- The command of the mirrored run, at the same time. -/
def mirrored (cmd : ListCommand × ℕ) : ListCommand × ℕ := (cmd.1.mirror, cmd.2)

/-- Indices are 32-bit integers, and the list has fewer than 2 ^ 31 elements. -/
def MirrorsAt (key : Bytes) (s : Soul) (cmd : ListCommand × ℕ) : Prop :=
  cmd.1.InRange ∧ ShortCell (s.get? key)

instance (key : Bytes) (s : Soul) (cmd : ListCommand × ℕ) : Decidable (MirrorsAt key s cmd) :=
  inferInstanceAs (Decidable (_ ∧ _))

theorem runListCommand_simulates (config : Config) (key : Bytes) :
    Simulates (Mirrored key) (MirrorsAt key) (runListCommand config key)
      (runListCommand config key) mirrored (Except.map Response.mirror) := by
  rintro s t ⟨cmd, now⟩ hst ⟨hrange, hshort⟩
  exact command_mirror config key now hrange hshort hst

/-- **Left and right are mirror images.**  After every part of a run of list commands the list is
the reverse of the one in the mirrored run, or missing in both, and the replies are the same but
for the command named in an error. -/
theorem mirrored_run (config : Config) (key : Bytes) {cmds : List (ListCommand × ℕ)} {s t : Soul}
    (hrun : Meets (MirrorsAt key) (runListCommand config key) cmds s)
    (hst : Mirrored key s t) :
    (∀ pre post, cmds = pre ++ post →
      Mirrored key (transcript (runListCommand config key) pre s).1
        (transcript (runListCommand config key) (pre.map mirrored) t).1) ∧
      (transcript (runListCommand config key) (cmds.map mirrored) t).2 =
        (transcript (runListCommand config key) cmds s).2.map (Except.map Response.mirror) :=
  (runListCommand_simulates config key).throughout hrun hst

/-- Two elements are pushed and the first of them is read, on either side. -/
theorem mirrored_run_lpush :
    (transcript (runListCommand ∅ (ascii "k"))
        [(.rpush [ascii "a", ascii "b"], 0), (.lindex (-1), 0)] Soul.new).2 =
      (transcript (runListCommand ∅ (ascii "k"))
        [(.lpush [ascii "a", ascii "b"], 0), (.lindex 0, 0)] Soul.new).2.map
          (Except.map Response.mirror) := by
  have hrun : Meets (MirrorsAt (ascii "k")) (runListCommand ∅ (ascii "k"))
      [(.lpush [ascii "a", ascii "b"], 0), (.lindex 0, 0)] Soul.new := by decide
  have hnew : Mirrored (ascii "k") Soul.new Soul.new := rfl
  exact (mirrored_run ∅ (ascii "k") hrun hnew).2

end Soul
end Heaven
