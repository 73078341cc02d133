import Heaven.Window

/-! # When reading requests panics

A pass of the loop of `wish` panics exactly on an overlong announcement (`pass_ok_iff`); otherwise
it makes the move of the parser, `MoveStep` says what that can be, and whatever a pass keeps is
proved by cases on it.  A pass keeps the buffer well formed and reads or consumes a byte
(`pass_keeps`), so every call of `wish` ends.  Hence the calls of `wish` on a connection never
panic precisely if no pass of theirs starts on an overlong announcement: `calls_ok_iff`. -/

namespace Heaven

open Loops (Jump Head)
open Decimal (ascii)

/-! ### A pass -/

/-- What a pass that does not panic has done, by the move of the parser. -/
inductive MoveStep (build : Build) (worker : Worker) : Worker → WishJump → Prop
  | stop (hmove : worker.virtue.move = .stop) : MoveStep build worker worker (.leave (.ok ()))
  | refuse {sin : Sin} (hmove : worker.virtue.move = .refuse sin) :
      MoveStep build worker worker (.leave (.error sin))
  | consume {n : ℕ} {phase : Phase} {expectedTerms : ℕ} {terms : List Bytes}
      {granted : List Request}
      (hmove : worker.virtue.move = .consume n phase expectedTerms terms granted)
      (positive : 0 < n) (inside : n ≤ worker.virtue.window.length)
      (wf : ({ worker.virtue with
        readIdx := worker.virtue.readIdx + n, phase, expectedTerms, terms } : Virtue).WellFormed) :
      MoveStep build worker
        { worker with
          virtue := { worker.virtue with
            readIdx := worker.virtue.readIdx + n, phase, expectedTerms, terms }
          granted := worker.granted ++ granted }
        .again
  | more {n : ℕ} {worker' : Worker} {jump : WishJump} (hmove : worker.virtue.move = .more n)
      (inside : n ≤ worker.virtue.window.length) (wf : (worker.skip n).virtue.WellFormed)
      (hread : readMore build (worker.skip n) = .ok (worker', jump)) :
      MoveStep build worker worker' jump

section Pass

variable {worker worker' : Worker} {jump : WishJump} (build : Build)
  (hwf : worker.virtue.WellFormed)

include hwf

theorem make_ok {move : Move} (hfits : move.Fits worker.virtue.window.length) :
    ∃ out, worker.make build move = .ok out := by
  cases move with
  | stop => exact ⟨_, rfl⟩
  | refuse sin => exact ⟨_, rfl⟩
  | consume n phase expectedTerms terms granted => exact ⟨_, rfl⟩
  | more n =>
      obtain ⟨after, jump, hread, -⟩ := readMore_spec build (Worker.skip_wellFormed hwf hfits)
      exact ⟨_, hread⟩

/-- **A pass panics exactly on an overlong announcement.** -/
theorem pass_ok_iff : (∃ out, pass build worker = .ok out) ↔ ¬ worker.virtue.Overlong := by
  constructor
  · rintro ⟨out, hout⟩ hlong
    obtain ⟨panic, hpanic⟩ := pass_overlong build hwf hlong
    rw [hpanic] at hout
    cases hout
  · intro hshort
    rw [pass_eq build hwf hshort]
    exact make_ok build hwf worker.virtue.move_fits

/-- **All that a pass can have done.** -/
theorem pass_moves (h : pass build worker = .ok (worker', jump)) :
    MoveStep build worker worker' jump := by
  have hshort := (pass_ok_iff build hwf).mp ⟨_, h⟩
  have hfits := worker.virtue.move_fits
  rw [pass_eq build hwf hshort] at h
  cases hmove : worker.virtue.move with
  | stop =>
      rw [hmove] at h
      cases h
      exact .stop hmove
  | refuse sin =>
      rw [hmove] at h
      cases h
      exact .refuse hmove
  | consume n phase expectedTerms terms granted =>
      rw [hmove] at h hfits
      obtain ⟨hpositive, hinside, hphase⟩ := hfits
      cases h
      exact .consume hmove hpositive hinside (hwf.consume hinside hphase expectedTerms terms)
  | more n =>
      rw [hmove] at h hfits
      exact .more hmove hfits (Worker.skip_wellFormed hwf hfits) h

theorem measure_eq : worker.measure =
    2 * worker.stream.payload.length + worker.virtue.window.length := by
  rw [Worker.measure, hwf.length_window]

/-- Reading more keeps the buffer well formed; when it goes on, it has read a byte. -/
theorem readMore_keeps (h : readMore build worker = .ok (worker', jump)) :
    worker'.virtue.WellFormed ∧ (jump = .again →
      worker'.measure < 2 * worker.stream.payload.length + worker.virtue.window.length) := by
  cases readMore_step hwf h with
  | failed => exact ⟨hwf, fun h => by cases h⟩
  | blocked wf => exact ⟨wf, fun h => by cases h⟩
  | received bytes wf same nonempty window payload =>
      refine ⟨wf, ?_⟩
      intro _
      have hpos : 0 < bytes.length := List.length_pos_iff.mpr nonempty
      rw [measure_eq wf]
      dsimp only
      rw [window, payload, List.length_append, List.length_append]
      omega

/-- A pass keeps the buffer well formed; when it goes round again, it lowers the measure. -/
theorem pass_keeps (h : pass build worker = .ok (worker', jump)) :
    worker'.virtue.WellFormed ∧ (jump = .again → worker'.measure < worker.measure) := by
  have hlength := hwf.length_window
  rw [measure_eq hwf]
  cases pass_moves build hwf h with
  | stop => exact ⟨hwf, fun h => by cases h⟩
  | refuse => exact ⟨hwf, fun h => by cases h⟩
  | consume hmove positive inside wf =>
      refine ⟨wf, ?_⟩
      intro _
      rw [Worker.measure]
      dsimp only
      omega
  | @more n _ _ hmove inside wf hread =>
      obtain ⟨hkeep, hless⟩ := readMore_keeps build wf hread
      have hstream : (worker.skip n).stream = worker.stream := rfl
      have hskip : (worker.skip n).virtue.window.length ≤ worker.virtue.window.length := by
        rw [worker.skip_window, List.length_drop]
        exact Nat.sub_le _ _
      refine ⟨hkeep, ?_⟩
      intro hjump
      have hlt := hless hjump
      rw [hstream] at hlt
      omega

omit hwf in
/-- The rule for the loop: a pass that goes round again keeps the invariant and lowers the
measure. -/
theorem pass_again (w w' : Worker) (hw : w.virtue.WellFormed)
    (h : pass build w = .ok (w', .again)) : w'.virtue.WellFormed ∧ w'.measure < w.measure := by
  obtain ⟨hw', hless⟩ := pass_keeps build hw h
  exact ⟨hw', hless rfl⟩

theorem head_wellFormed {head : Worker} (h : Head (pass build) worker head) :
    head.virtue.WellFormed :=
  h.keeps (fun w w' hw hpass => (pass_again build w w' hw hpass).1) hwf

/-- **The loop ends, and panics precisely if a pass starts on an overlong announcement.** -/
theorem loop_ok_iff :
    (∃ out, worker.loop build = some (.ok out)) ↔
      ∀ head, Head (pass build) worker head → ¬ head.virtue.Overlong := by
  rw [Worker.loop, Loops.run_ok_iff (pass_again build) _ worker hwf (Nat.lt_succ_self _)]
  apply forall₂_congr
  intro head hhead
  exact pass_ok_iff build (head_wellFormed build hwf hhead)

end Pass

/-! ### Calls -/

/-- The buffer of a connection between two calls. -/
def Pilgrim.WellFormed (pilgrim : Pilgrim) : Prop := pilgrim.worker.virtue.WellFormed

theorem Pilgrim.wellFormed_new (stream : TcpStream) : (new stream).WellFormed :=
  Virtue.wellFormed_new

/-- The states in which some call on the connection stands at the head of its loop. -/
def AtLoop (build : Build) (pilgrim : Pilgrim) (head : Worker) : Prop :=
  ∃ n pilgrim' entry, calls build pilgrim n = some (.ok (pilgrim', .ok ())) ∧
    readMore build pilgrim'.worker = .ok (entry, .again) ∧ Head (pass build) entry head

/-- A call panics precisely if a pass of its loop starts on an overlong announcement. -/
theorem wish_ok_iff (build : Build) {pilgrim : Pilgrim} (hwf : pilgrim.WellFormed) :
    (∃ out, wish build pilgrim = some (.ok out)) ↔
      ∀ entry, readMore build pilgrim.worker = .ok (entry, .again) →
        ∀ head, Head (pass build) entry head → ¬ head.virtue.Overlong := by
  obtain ⟨entry, jump, hread, -⟩ := readMore_spec build hwf
  have hentry := (readMore_keeps build hwf hread).1
  unfold wish
  rw [hread]
  cases jump with
  | leave result =>
      apply iff_of_true ⟨_, rfl⟩
      intro entry' h
      cases h
  | again =>
      dsimp only
      constructor
      · rintro ⟨out, hout⟩ entry' h
        cases h
        obtain ⟨out', hloop, hmap⟩ := Option.map_eq_some_iff.mp hout
        cases out' with
        | error panic => cases hmap
        | ok out' => exact (loop_ok_iff build hentry).mp ⟨_, hloop⟩
      · intro h
        obtain ⟨out, hloop⟩ := (loop_ok_iff build hentry).mpr (h entry rfl)
        rw [hloop]
        exact ⟨_, rfl⟩

section Leads

variable {build : Build} {entry loop : Worker → Prop} {rest : Worker → Except Sin Unit → Prop}
  (hread : ∀ worker worker' jump, worker.virtue.WellFormed → entry worker →
    readMore build worker = .ok (worker', jump) → jump.Leads loop rest worker')
  (hpass : ∀ worker worker' jump, worker.virtue.WellFormed → loop worker →
    pass build worker = .ok (worker', jump) → jump.Leads loop rest worker')

include hread hpass

/-- **A condition at the entry of a call, one at the head of its loop, and one at its end**, each of
which leads to the next. -/
theorem wish_leads {pilgrim pilgrim' : Pilgrim} {result : Except Sin Unit}
    (hwf : pilgrim.WellFormed) (hentry : entry pilgrim.worker)
    (h : wish build pilgrim = some (.ok (pilgrim', result))) : rest pilgrim'.worker result := by
  unfold wish at h
  cases hout : readMore build pilgrim.worker with
  | error panic =>
      rw [hout] at h
      cases h
  | ok out =>
      obtain ⟨head, jump⟩ := out
      have hwf' := (readMore_keeps build hwf hout).1
      have hleads := hread _ _ _ hwf hentry hout
      rw [hout] at h
      cases jump with
      | leave result =>
          cases h
          exact hleads
      | again =>
          dsimp only at h
          obtain ⟨out, hloop, hmap⟩ := Option.map_eq_some_iff.mp h
          rcases out with panic | ⟨worker, result⟩
          · cases hmap
          · cases hmap
            have hbody : ∀ w w' jump, (w.virtue.WellFormed ∧ loop w) →
                pass build w = .ok (w', jump) →
                  jump.Leads (fun w => w.virtue.WellFormed ∧ loop w) rest w' := by
              rintro w w' jump ⟨hw, hloop⟩ hw'
              have hnext := hpass _ _ _ hw hloop hw'
              cases jump with
              | again => exact ⟨(pass_keeps build hw hw').1, hnext⟩
              | leave result => exact hnext
            exact Loops.run_leads hbody _ head ⟨hwf', hleads⟩ hloop

end Leads

theorem wish_keeps {build : Build} {pilgrim pilgrim' : Pilgrim} {result : Except Sin Unit}
    (hwf : pilgrim.WellFormed) (h : wish build pilgrim = some (.ok (pilgrim', result))) :
    pilgrim'.WellFormed := by
  have hread : ∀ worker worker' jump, worker.virtue.WellFormed → True →
      readMore build worker = .ok (worker', jump) →
        jump.Leads (fun w => w.virtue.WellFormed) (fun w _ => w.virtue.WellFormed) worker' :=
    fun _ _ jump hw _ hread => Jump.leads_self (readMore_keeps build hw hread).1 jump
  have hpass : ∀ worker worker' jump, worker.virtue.WellFormed → worker.virtue.WellFormed →
      pass build worker = .ok (worker', jump) →
        jump.Leads (fun w => w.virtue.WellFormed) (fun w _ => w.virtue.WellFormed) worker' :=
    fun _ _ jump hw _ hpass => Jump.leads_self (pass_keeps build hw hpass).1 jump
  exact wish_leads hread hpass hwf trivial h

theorem calls_keeps {build : Build} {pilgrim pilgrim' : Pilgrim} (hwf : pilgrim.WellFormed)
    {n : ℕ} {result : Except Sin Unit}
    (h : calls build pilgrim n = some (.ok (pilgrim', result))) : pilgrim'.WellFormed := by
  induction n generalizing pilgrim' result with
  | zero =>
      cases h
      exact hwf
  | succ n ih =>
      rw [calls] at h
      split at h
      · exact wish_keeps (ih ‹_›) h
      · exact ih h

/-- **A condition between two calls and one at the head of the loop** that the first read and every
pass lead to, hold after any number of calls. -/
theorem calls_leads {build : Build} {loop : Worker → Prop}
    {rest : Worker → Except Sin Unit → Prop}
    (hread : ∀ worker worker' jump, worker.virtue.WellFormed → rest worker (.ok ()) →
      readMore build worker = .ok (worker', jump) → jump.Leads loop rest worker')
    (hpass : ∀ worker worker' jump, worker.virtue.WellFormed → loop worker →
      pass build worker = .ok (worker', jump) → jump.Leads loop rest worker')
    {pilgrim pilgrim' : Pilgrim} {n : ℕ} {result : Except Sin Unit} (hwf : pilgrim.WellFormed)
    (hrest : rest pilgrim.worker (.ok ()))
    (h : calls build pilgrim n = some (.ok (pilgrim', result))) : rest pilgrim'.worker result := by
  induction n generalizing pilgrim' result with
  | zero =>
      cases h
      exact hrest
  | succ n ih =>
      rw [calls] at h
      split at h
      · rename_i before hbefore
        exact wish_leads hread hpass (calls_keeps hwf hbefore) (ih hbefore) h
      · exact ih h

/-- What the first read and every pass keep holds after any number of calls. -/
theorem calls_invariant {build : Build} {I : Worker → Prop}
    (hread : ∀ worker worker' jump, worker.virtue.WellFormed → I worker →
      readMore build worker = .ok (worker', jump) → I worker')
    (hpass : ∀ worker worker' jump, worker.virtue.WellFormed → I worker →
      pass build worker = .ok (worker', jump) → I worker')
    {pilgrim pilgrim' : Pilgrim} {n : ℕ} {result : Except Sin Unit} (hwf : pilgrim.WellFormed)
    (hI : I pilgrim.worker) (h : calls build pilgrim n = some (.ok (pilgrim', result))) :
    I pilgrim'.worker := by
  have hread' : ∀ worker worker' jump, worker.virtue.WellFormed → I worker →
      readMore build worker = .ok (worker', jump) →
        jump.Leads I (fun worker _ => I worker) worker' :=
    fun _ _ jump hw hworker hw' => Jump.leads_self (hread _ _ _ hw hworker hw') jump
  have hpass' : ∀ worker worker' jump, worker.virtue.WellFormed → I worker →
      pass build worker = .ok (worker', jump) →
        jump.Leads I (fun worker _ => I worker) worker' :=
    fun _ _ jump hw hworker hw' => Jump.leads_self (hpass _ _ _ hw hworker hw') jump
  exact calls_leads hread' hpass' hwf hI h

/-- Calls that have been carried out, with what has been tested of their outcome. -/
theorem exists_calls {build : Build} {pilgrim : Pilgrim} {n : ℕ}
    {test : Pilgrim × Except Sin Unit → Bool}
    (h : (calls build pilgrim n).map (·.map test) = some (.ok true)) :
    ∃ pilgrim' result, calls build pilgrim n = some (.ok (pilgrim', result)) ∧
      test (pilgrim', result) = true := by
  obtain ⟨out, hcalls, hout⟩ := Option.map_eq_some_iff.mp h
  rcases out with panic | ⟨pilgrim', result⟩
  · cases hout
  · exact ⟨pilgrim', result, hcalls, Except.ok.inj hout⟩

/-- Calls of which no pass starts on an overlong announcement return, without a panic. -/
theorem calls_ok (build : Build) {stream : TcpStream}
    (h : ∀ head, AtLoop build (.new stream) head → ¬ head.virtue.Overlong) (n : ℕ) :
    ∃ out, calls build (.new stream) n = some (.ok out) := by
  induction n with
  | zero => exact ⟨_, rfl⟩
  | succ n ih =>
      obtain ⟨⟨pilgrim, result⟩, hcalls⟩ := ih
      rw [calls, hcalls]
      cases result with
      | error sin => exact ⟨_, rfl⟩
      | ok _ =>
          have hwf := calls_keeps (Pilgrim.wellFormed_new stream) hcalls
          apply (wish_ok_iff build hwf).mpr
          intro entry hread head hhead
          exact h head ⟨n, pilgrim, entry, hcalls, hread, hhead⟩

/-- **The calls of `wish` on a connection all return, without a panic, precisely if no pass of
their loop starts on an overlong announcement.** -/
theorem calls_ok_iff (build : Build) (stream : TcpStream) :
    (∀ n, ∃ out, calls build (.new stream) n = some (.ok out)) ↔
      ∀ head, AtLoop build (.new stream) head → ¬ head.virtue.Overlong := by
  have hnew := Pilgrim.wellFormed_new stream
  constructor
  · rintro h head ⟨n, pilgrim, entry, hcalls, hread, hhead⟩
    obtain ⟨out, hout⟩ := h (n + 1)
    rw [calls, hcalls] at hout
    have hwf := calls_keeps hnew hcalls
    exact (wish_ok_iff build hwf).mp ⟨out, hout⟩ entry hread head hhead
  · exact calls_ok build

/-- The announced length `2 ^ 64 - 2` is read without complaint; the next byte makes the worker
panic, also in a release build. -/
theorem wish_panics_on_huge_length :
    ¬ ∀ (build : Build) (stream : TcpStream) (n : ℕ),
      ∃ out, calls build (.new stream) n = some (.ok out) := by
  intro h
  obtain ⟨out, hout⟩ := h .release
    [.data 42 (ascii "1\r\n$18446744073709551614\r\nx")] 1
  have hpanic : calls .release
      (.new [.data 42 (ascii "1\r\n$18446744073709551614\r\nx")]) 1 =
        some (.error .indexOutOfBounds) := by decide +kernel
  rw [hpanic] at hout
  cases hout

end Heaven
