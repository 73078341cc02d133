import Heaven.WishSafety

/-! # The loop of `wish` ends

The loop both shrinks the window, when it consumes, and lets it grow, when it reads; some passes
skip a byte and read in one go.  `Advances` says what a pass that goes round again has done to the
window and to the socket, and `pass_proceeds` that every pass either leaves or does one of the two,
in every phase and for empty terms and empty requests as well.

The bytes of the socket count twice in `Worker.measure`: one that is read moves into the window,
where it counts once.  So a call makes at most as many passes as the measure at its first read
allows (`passes_le`), and it returns out of the last of them (`CallReturns`). -/

namespace Heaven

open Loops (Jump Head Passes)
open Decimal (ascii)

/-! ### A pass -/

/-- What a pass that goes round again has done: it has consumed a byte of the window at least, or
has taken a byte from the socket at least, perhaps after it skipped one of the window. -/
inductive Advances (worker worker' : Worker) : Prop
  | consumed (n : ℕ) (positive : 0 < n) (inside : n ≤ worker.virtue.window.length)
      (window : worker'.virtue.window = worker.virtue.window.drop n)
      (stream : worker'.stream = worker.stream)
  | received (n : ℕ) (bytes : Bytes) (nonempty : bytes ≠ [])
      (inside : n ≤ worker.virtue.window.length)
      (window : worker'.virtue.window = worker.virtue.window.drop n ++ bytes)
      (payload : worker.stream.payload = bytes ++ worker'.stream.payload)

/-- A pass leaves the loop, or it goes round again and has advanced. -/
inductive Proceeds (build : Build) (worker : Worker) : Prop
  | leaves {worker' : Worker} {result : Except Sin Unit}
      (h : pass build worker = .ok (worker', .leave result))
  | goesRound {worker' : Worker} (h : pass build worker = .ok (worker', .again))
      (advances : Advances worker worker')

section Pass

variable {worker : Worker} (build : Build) (hwf : worker.virtue.WellFormed)

include hwf

/-- **Every pass leaves the loop, consumes a byte or receives one**, unless it stands on an
overlong announcement. -/
theorem pass_proceeds (hshort : ¬ worker.virtue.Overlong) : Proceeds build worker := by
  obtain ⟨⟨worker', jump⟩, hpass⟩ := (pass_ok_iff build hwf).mpr hshort
  cases pass_moves build hwf hpass with
  | stop => exact .leaves hpass
  | refuse => exact .leaves hpass
  | @consume n phase expectedTerms terms granted hmove positive inside =>
      apply Proceeds.goesRound hpass
      exact .consumed n positive inside (worker.virtue.window_consume n) rfl
  | @more n _ _ hmove inside wf hread =>
      cases readMore_step wf hread with
      | failed => exact .leaves hpass
      | blocked => exact .leaves hpass
      | received bytes wf' same nonempty window payload =>
          rw [worker.skip_window] at window
          apply Proceeds.goesRound hpass
          exact .received n bytes nonempty inside window payload

/-- The passes that go round again are no more than the measure at the entry allows. -/
theorem passes_le {n : ℕ} {last : Worker} (h : Passes (pass build) worker n last) :
    last.virtue.WellFormed ∧ n + last.measure ≤ worker.measure :=
  h.add_measure_le (pass_again build) hwf

/-- The fuel of the loop does not run out, whatever is announced. -/
theorem loop_ends : ∃ out, worker.loop build = some out := by
  cases hout : worker.loop build with
  | some out => exact ⟨out, rfl⟩
  | none =>
      rw [Worker.loop] at hout
      obtain ⟨last, hpasses⟩ := Loops.passes_of_run_eq_none _ worker hout
      obtain ⟨-, hle⟩ := passes_le build hwf hpasses
      omega

end Pass

/-! ### A call -/

/-- A call returns: out of its first read, or out of a pass before which `n` passes have gone round,
where `n` is bounded by the bytes in the window and twice the bytes still to be read. -/
inductive CallReturns (build : Build) (pilgrim : Pilgrim) : Prop
  | atOnce {worker : Worker} {result : Except Sin Unit}
      (read : readMore build pilgrim.worker = .ok (worker, .leave result))
      (returns : wish build pilgrim = some (.ok (worker.pilgrim, result)))
  | after {entry last worker : Worker} {result : Except Sin Unit} (n : ℕ)
      (read : readMore build pilgrim.worker = .ok (entry, .again))
      (passes : Passes (pass build) entry n last)
      (leaves : pass build last = .ok (worker, .leave result))
      (bound : n < 2 * pilgrim.stream.payload.length + pilgrim.worker.virtue.window.length)
      (returns : wish build pilgrim = some (.ok (worker.pilgrim, result)))

section Call

variable (build : Build) {pilgrim : Pilgrim} (hwf : pilgrim.WellFormed)

include hwf

/-- **A call ends**, with a result or with a panic. -/
theorem wish_ends : ∃ out, wish build pilgrim = some out := by
  unfold wish
  cases hread : readMore build pilgrim.worker with
  | error panic => exact ⟨_, rfl⟩
  | ok out =>
      obtain ⟨entry, jump⟩ := out
      cases jump with
      | leave result => exact ⟨_, rfl⟩
      | again =>
          have hentry := (readMore_keeps build hwf hread).1
          obtain ⟨out, hloop⟩ := loop_ends build hentry
          dsimp only
          rw [hloop]
          exact ⟨_, rfl⟩

/-- A call that does not panic returns after so many passes. -/
theorem callReturns_of_ok {out : Pilgrim × Except Sin Unit}
    (hout : wish build pilgrim = some (.ok out)) : CallReturns build pilgrim := by
  have hreturns := hout
  unfold wish at hout
  cases hread : readMore build pilgrim.worker with
  | error panic => simp [hread] at hout
  | ok first =>
      obtain ⟨entry, jump⟩ := first
      cases jump with
      | leave result =>
          have hsame : (entry.pilgrim, result) = out := by simpa [hread] using hout
          rw [← hsame] at hreturns
          exact .atOnce hread hreturns
      | again =>
          obtain ⟨hentry, hless⟩ := readMore_keeps build hwf hread
          rw [hread] at hout
          dsimp only at hout
          obtain ⟨run, hloop, hmap⟩ := Option.map_eq_some_iff.mp hout
          rcases run with panic | ⟨worker, result⟩
          · cases hmap
          · obtain ⟨n, last, hpasses, hleaves⟩ := Loops.passes_of_run _ entry hloop
            obtain ⟨-, hle⟩ := passes_le build hentry hpasses
            have hmeasure := hless rfl
            have hstream : pilgrim.worker.stream = pilgrim.stream := rfl
            rw [hstream] at hmeasure
            have hbound : n < 2 * pilgrim.stream.payload.length +
                pilgrim.worker.virtue.window.length := by omega
            cases hmap
            exact .after n hread hpasses hleaves hbound hreturns

/-- **The loop terminates.**  A call on a well-formed buffer that meets no overlong announcement
returns after a bounded number of passes, and each of them leaves, consumes a byte or receives
one. -/
theorem wish_terminates (hshort : ∀ entry, readMore build pilgrim.worker = .ok (entry, .again) →
      ∀ head, Head (pass build) entry head → ¬ head.virtue.Overlong) :
    CallReturns build pilgrim ∧
      ∀ entry, readMore build pilgrim.worker = .ok (entry, .again) →
        ∀ head, Head (pass build) entry head → Proceeds build head := by
  constructor
  · obtain ⟨out, hout⟩ := (wish_ok_iff build hwf).mpr hshort
    exact callReturns_of_ok build hwf hout
  · intro entry hread head hhead
    have hentry := (readMore_keeps build hwf hread).1
    have hhead' := head_wellFormed build hentry hhead
    exact pass_proceeds build hhead' (hshort entry hread head hhead)

end Call

/-- An empty request, an empty term and a byte that is skipped, in two pieces. -/
theorem wish_terminates_on_empty_terms :
    let pilgrim : Pilgrim := .new [.data 42 (ascii "0\r\n*1\r\nx$0\r"), .data 10 (ascii "\r\n")]
    CallReturns .release pilgrim ∧
      ∀ entry, readMore .release pilgrim.worker = .ok (entry, .again) →
        ∀ head, Head (pass .release) entry head → Proceeds .release head := by
  have hwf : Pilgrim.WellFormed (.new [.data 42 (ascii "0\r\n*1\r\nx$0\r"),
    .data 10 (ascii "\r\n")]) := Pilgrim.wellFormed_new _
  have hcalls : (calls .release (.new [.data 42 (ascii "0\r\n*1\r\nx$0\r"),
      .data 10 (ascii "\r\n")]) 1).map (·.map fun _ => true) = some (.ok true) := by
    decide +kernel
  obtain ⟨after, result, hout, -⟩ := exists_calls hcalls
  exact wish_terminates .release hwf ((wish_ok_iff .release hwf).mp ⟨_, hout⟩)

end Heaven
