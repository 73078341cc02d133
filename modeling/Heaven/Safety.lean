import Heaven.Expiry
import Heaven.Lib.Runs
import Heaven.Lists

/-! # No store command panics, but TTL

The temple's thread owns the store, so a panic in a method of the store ends the service.  The list
methods stay within their lists (`rangeOf_ok`, `lsetList_ok`, `removeOccurrences_spec`).  TTL
converts the deadline to a `SystemTime` and panics when it does not fit, and nothing keeps such a
deadline out of the store: SET EX and EXPIRE take any number of seconds.  `run_returns_iff` says
that this is the only way to panic. -/

namespace Heaven

open Decimal (ascii)
open Runs Soul

/-- The method returns. -/
def Returns (config : Config) (s : Soul) (cmd : DatabaseCommand) : Prop :=
  ∃ response, (database s config cmd).2 = .ok response

/-- The command is a TTL, and the deadline at its key lies beyond the last second of a
`SystemTime`. -/
def AsksFarDeadline (s : Soul) (cmd : DatabaseCommand) : Prop :=
  ∃ key time value expiry, cmd = .ttl key time ∧ s.get? key = some (value, some expiry) ∧
    SystemTime.maxSecs < expiry

theorem query_ok {α ε ρ : Type} (s : Soul) (key : Bytes) (now : ℕ) (view : Value → Option α)
    {wrongType absent : Except ε ρ} {found : α → Except ε ρ} (hw : ∃ r, wrongType = .ok r)
    (ha : ∃ r, absent = .ok r) (hf : ∀ x, ∃ r, found x = .ok r) :
    ∃ r, (s.query key now view wrongType absent found).2 = .ok r := by
  rw [query_eq_onLive]
  simp only [onLive, Dict.onKept, Dict.onCell]
  rcases (s.get? key).filter (live now) with _ | ⟨value, expiry⟩
  · exact ha
  · simp only [queryCell]
    cases view value with
    | none => exact hw
    | some x => exact hf x

theorem updateCell_ok {α ε ρ : Type} {view : Value → Option α} {wrap : α → Value}
    {wrongType : Except ε ρ} {absent : Option Entry × Except ε ρ} {found : α → α × Except ε ρ}
    (hw : ∃ r, wrongType = .ok r) (ha : ∃ r, absent.2 = .ok r) (hf : ∀ x, ∃ r, (found x).2 = .ok r)
    (o : Option Entry) : ∃ r, (updateCell view wrap wrongType absent found o).2 = .ok r := by
  rcases o with _ | ⟨value, expiry⟩
  · exact ha
  · simp only [updateCell]
    cases view value with
    | none => exact hw
    | some x => exact hf x

theorem respondOrPanic_ok {α : Type} (answer : α → Response)
    {called : Soul × Except Panic (Except Sacrilege α)} (h : ∃ r, called.2 = .ok r) :
    ∃ response, (respondOrPanic answer called).2 = .ok response := by
  obtain ⟨r, hr⟩ := h
  refine ⟨replyTo answer r, ?_⟩
  rw [respondOrPanic, hr]
  rfl

theorem ttl_ok_iff (s : Soul) (key : Bytes) (time : SystemTime) :
    (∃ n, (s.ttl key time).2 = .ok n) ↔
      ¬ ∃ value expiry, s.get? key = some (value, some expiry) ∧ SystemTime.maxSecs < expiry := by
  rw [ttl_eq_onCell]
  simp only [Dict.onCell]
  rcases hs : s.get? key with _ | ⟨value, _ | expiry⟩
  · simp [ttlCell]
  · simp [ttlCell]
  · by_cases hfit : expiry ≤ SystemTime.maxSecs
    · obtain ⟨deadline, hdeadline, -⟩ := epochPlus_eq expiry hfit
      apply iff_of_true
      · simp only [ttlCell, hdeadline]
        split_ifs
        · exact ⟨_, rfl⟩
        · cases deadline.durationSince time with
          | none => exact ⟨_, rfl⟩
          | some duration => exact ⟨_, rfl⟩
      · rintro ⟨_, _, ⟨⟩, hfar⟩
        exact absurd hfit (not_le.mpr hfar)
    · apply iff_of_false
      · rintro ⟨n, hn⟩
        simp only [ttlCell, epochPlus_error expiry hfit] at hn
        cases hn
      · exact not_not.mpr ⟨value, expiry, rfl, not_le.mp hfit⟩

theorem not_asksFarDeadline (s : Soul) {cmd : DatabaseCommand}
    (h : ∀ key time, cmd ≠ .ttl key time) : ¬ AsksFarDeadline s cmd := by
  rintro ⟨key, time, -, -, rfl, -⟩
  exact h key time rfl

/-- **A well-formed command returns, unless it asks for a far deadline.** -/
theorem returns_iff (config : Config) (s : Soul) {cmd : DatabaseCommand} (h : cmd.WellFormed) :
    Returns config s cmd ↔ ¬ AsksFarDeadline s cmd := by
  unfold Returns
  cases cmd
  case ttl key time =>
    have hfar : AsksFarDeadline s (.ttl key time) ↔
        ∃ value expiry, s.get? key = some (value, some expiry) ∧ SystemTime.maxSecs < expiry := by
      constructor
      · rintro ⟨_, _, value, expiry, ⟨⟩, hs, hlt⟩
        exact ⟨value, expiry, hs, hlt⟩
      · rintro ⟨value, expiry, hs, hlt⟩
        exact ⟨key, time, value, expiry, rfl, hs, hlt⟩
    rw [hfar, ← ttl_ok_iff s key time]
    simp only [database]
    cases (s.ttl key time).2 <;> simp [Except.map]
  all_goals
    refine iff_of_true ?_ (not_asksFarDeadline s fun _ _ => by simp)
  case lrange key startingIndex endingIndex time =>
    apply respondOrPanic_ok
    apply query_ok s key time _ ⟨_, rfl⟩ ⟨_, rfl⟩
    intro list
    obtain ⟨elements, helements⟩ := rangeOf_ok list startingIndex h.2
    rw [helements]
    exact ⟨_, rfl⟩
  case lset key index element time =>
    apply respondOrPanic_ok
    rw [lset_eq_onLive]
    exact updateCell_ok ⟨_, rfl⟩ ⟨_, rfl⟩ (lsetList_ok index element) _
  case lrem key count element time =>
    apply respondOrPanic_ok
    rw [lrem_eq_onLive]
    apply updateCell_ok ⟨_, rfl⟩ ⟨_, rfl⟩
    intro list
    obtain ⟨-, removed, hremoved⟩ := lremList_ok count element list
    exact ⟨_, hremoved⟩
  all_goals exact ⟨_, rfl⟩

/-- **Over every run of accepted commands, the methods of the store return exactly as long as no
TTL asks for a far deadline.** -/
theorem run_returns_iff (config : Config) (cmds : List DatabaseCommand)
    (h : ∀ cmd ∈ cmds, Accepted cmd) :
    Always (execute config) (Returns config) Soul.new cmds ↔
      Always (execute config) (fun s cmd => ¬ AsksFarDeadline s cmd) Soul.new cmds := by
  apply always_congr (I := fun _ => True) (P := Accepted) _ _ h trivial
  · intro _ _ _ _ _ _
    trivial
  · intro s cmd haccepted _
    exact returns_iff config s haccepted.wellFormed

/-- SET without a deadline, then TTL. -/
theorem run_returns_set_ttl :
    Always (execute ∅) (Returns ∅) Soul.new
      [.set (ascii "k") (.string (ascii "x"), none), .ttl (ascii "k") .unixEpoch] := by
  refine (run_returns_iff ∅ _ ?_).mpr ?_
  · rw [List.forall_mem_cons, List.forall_mem_singleton]
    exact ⟨⟨[ascii "SET", ascii "k", ascii "x"], by decide, .unixEpoch, 1, by decide⟩,
      ⟨[ascii "TTL", ascii "k"], by decide, .unixEpoch, 1, by decide⟩⟩
  · refine always_cons.mpr ⟨not_asksFarDeadline _ fun _ _ => by simp, ?_⟩
    intro t ht
    refine always_cons.mpr ⟨?_, fun _ _ => always_nil⟩
    obtain ⟨rfl, -⟩ := execute_eq_ok.mp ht
    rintro ⟨_, _, value, expiry, ⟨⟩, hs, -⟩
    cases (Dict.get?_insert_self _ _ _).symm.trans hs

/-- SET k x EX 9223372036854775808, then TTL k. -/
theorem set_far_deadline_ttl_panics :
    ¬ ∀ (config : Config) (cmds : List DatabaseCommand), (∀ cmd ∈ cmds, Accepted cmd) →
      Always (execute config) (Returns config) Soul.new cmds := by
  intro h
  have haccepted : ∀ cmd ∈ [DatabaseCommand.set (ascii "k") (.string (ascii "x"), some (2 ^ 63)),
      .ttl (ascii "k") .unixEpoch], Accepted cmd := by
    rw [List.forall_mem_cons, List.forall_mem_singleton]
    exact ⟨⟨[ascii "SET", ascii "k", ascii "x", ascii "EX", ascii "9223372036854775808"],
        by decide, .unixEpoch, 1, by decide⟩,
      ⟨[ascii "TTL", ascii "k"], by decide, .unixEpoch, 1, by decide⟩⟩
  have hreturns := h ∅ _ haccepted
  obtain ⟨-, hnext⟩ := always_cons.mp hreturns
  obtain ⟨⟨response, hresponse⟩, -⟩ := always_cons.mp (hnext _ (execute_eq_ok.mpr ⟨rfl, _, rfl⟩))
  have hpanic : (database (Soul.new.set (ascii "k") (.string (ascii "x"), some (2 ^ 63))) ∅
      (.ttl (ascii "k") .unixEpoch)).2 = .error .timeOverflow := rfl
  cases hpanic.symm.trans hresponse

end Heaven
