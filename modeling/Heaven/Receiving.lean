import Heaven.Decoding

/-! # What is granted of an input

The bytes of a client are the encoding of its requests, cut off anywhere, and its requests may be
larger than the server can read.  Then a call of `wish` may fail or panic, but what it has
granted by then is still the beginning of the sequence (`Within`).

`Discipline` is what the parties around `wish` rely on: a condition on the worker between two calls
and one at the head of the loop, which the two steps of a call, `readMore` and `pass`, keep.
`Within` is a discipline for every input, and `Rests` with `Follows` is one for an open connection
whose requests fit; there no call fails. -/

namespace Heaven

open Loops (Jump)

/-- The granted requests only become more, and are the first ones of the sequence. -/
structure Grants (requests : List Request) (worker worker' : Worker) : Prop where
  more : worker.granted <+: worker'.granted
  initial : worker'.granted <+: requests

/-- The step ends in a state that is fit to go on from, or it fails. -/
def Continues (rest loop : Worker → Prop) (mayFail : Prop) (worker : Worker) : WishJump → Prop
  | .again => loop worker
  | .leave (.ok ()) => rest worker
  | .leave (.error _) => mayFail

/-- A condition between two calls of `wish`, and one at the head of its loop. -/
structure Discipline (build : Build) (requests : List Request) where
  rest : Worker → Prop
  loop : Worker → Prop
  /-- A call may return an error or panic. -/
  mayFail : Prop
  rest_granted : ∀ worker, rest worker → worker.granted <+: requests
  loop_granted : ∀ worker, loop worker → worker.granted <+: requests
  readMore : ∀ worker worker' jump, rest worker → readMore build worker = .ok (worker', jump) →
    worker'.granted = worker.granted ∧ Continues rest loop mayFail worker' jump
  pass : ∀ worker worker' jump, loop worker → pass build worker = .ok (worker', jump) →
    Grants requests worker worker' ∧ Continues rest loop mayFail worker' jump
  readMore_ok : ∀ worker, rest worker → mayFail ∨ ∃ out, Heaven.readMore build worker = .ok out
  pass_ok : ∀ worker, loop worker → mayFail ∨ ∃ out, Heaven.pass build worker = .ok out

/-! ### Granting -/

def Move.granted : Move → List Request
  | .consume _ _ _ _ granted => granted
  | _ => []

namespace Virtue

theorem granted_takeNumber (virtue : Virtue) {next : ℕ → ℕ → Move}
    (h : ∀ n number, (next n number).granted = []) : (virtue.takeNumber next).granted = [] := by
  unfold takeNumber
  cases findCrlf virtue.window with
  | none => rfl
  | some i =>
      dsimp only
      cases bytesToUsize (virtue.window.take i) with
      | error sin => rfl
      | ok number => exact h (i + 2) number

theorem length_granted_move (virtue : Virtue) : virtue.move.granted.length ≤ 1 := by
  unfold move
  cases hwindow : virtue.window with
  | nil => exact Nat.zero_le 1
  | cons first rest =>
      dsimp only
      cases virtue.phase with
      | idle =>
          dsimp only
          split_ifs
          all_goals exact Nat.zero_le 1
      | graspingMarker =>
          dsimp only
          split_ifs
          all_goals exact Nat.zero_le 1
      | awaitingTermCount =>
          rw [virtue.granted_takeNumber fun _ _ => rfl]
          exact Nat.zero_le 1
      | awaitingBulkStringLength =>
          rw [virtue.granted_takeNumber fun _ _ => rfl]
          exact Nat.zero_le 1
      | awaitingBulkString len =>
          dsimp only [takeTerm]
          split_ifs
          · exact Nat.zero_le 1
          · exact Nat.zero_le 1
          · exact le_rfl
          · exact Nat.zero_le 1

end Virtue

section Granting

variable {worker worker' : Worker} {jump : WishJump} (build : Build)
  (hwf : worker.virtue.WellFormed)

include hwf

theorem readMore_granted (h : readMore build worker = .ok (worker', jump)) :
    worker'.granted = worker.granted := by
  cases readMore_step hwf h with
  | failed => rfl
  | blocked => rfl
  | received => rfl

/-- A pass grants one request at most, and then goes on. -/
theorem pass_grants (h : pass build worker = .ok (worker', jump)) :
    ∃ more, worker'.granted = worker.granted ++ more ∧ more.length ≤ 1 ∧
      (jump ≠ .again → more = []) := by
  have hone := worker.virtue.length_granted_move
  cases pass_moves build hwf h with
  | stop => exact ⟨[], (List.append_nil _).symm, Nat.zero_le 1, fun _ => rfl⟩
  | refuse => exact ⟨[], (List.append_nil _).symm, Nat.zero_le 1, fun _ => rfl⟩
  | @consume n phase expectedTerms terms granted hmove =>
      rw [hmove] at hone
      exact ⟨granted, rfl, hone, fun hne => absurd rfl hne⟩
  | more hmove inside wf hread =>
      refine ⟨[], ?_, Nat.zero_le 1, fun _ => rfl⟩
      rw [readMore_granted build wf hread, List.append_nil]
      rfl

theorem pass_granted (h : pass build worker = .ok (worker', jump)) :
    worker.granted <+: worker'.granted := by
  obtain ⟨more, hmore, -⟩ := pass_grants build hwf h
  rw [hmore]
  exact List.prefix_append _ _

end Granting

/-! ### Any requests -/

/-- The worker is inside the encoding of `requests`, of which `tail` has not been sent and `todo`
not been granted; the connection may end at any time. -/
structure Within (requests : List Request) (tail : Bytes) (todo : List Request)
    (worker : Worker) : Prop where
  wf : worker.virtue.WellFormed
  split : requests = worker.granted ++ todo
  place : Place worker.virtue.phase worker.virtue.terms worker.virtue.expectedTerms todo
    (worker.virtue.window ++ (worker.stream.payload ++ tail))

variable {requests todo : List Request} {tail : Bytes} {worker worker' : Worker} {jump : WishJump}
  (build : Build)

theorem Within.granted (h : Within requests tail todo worker) : worker.granted <+: requests := by
  rw [h.split]
  exact List.prefix_append _ _

theorem Within.readMore (h : Within requests tail todo worker)
    (hread : Heaven.readMore build worker = .ok (worker', jump)) :
    Within requests tail todo worker' := by
  have hplace := h.place
  cases readMore_step h.wf hread with
  | failed => exact h
  | blocked wf same window payload =>
      refine ⟨wf, h.split, ?_⟩
      rw [same.phase, same.terms, same.expectedTerms, window, ← payload]
      exact hplace
  | received bytes wf same nonempty window payload =>
      refine ⟨wf, h.split, ?_⟩
      rw [same.phase, same.terms, same.expectedTerms, window]
      rw [payload] at hplace
      simpa only [List.append_assoc] using hplace

/-- The step lemma. -/
theorem Within.pass (h : Within requests tail todo worker)
    (hpass : Heaven.pass build worker = .ok (worker', jump)) :
    ∃ todo', Within requests tail todo' worker' := by
  have hshort := (pass_ok_iff build h.wf).mp ⟨_, hpass⟩
  rw [pass_eq build h.wf hshort] at hpass
  obtain ⟨n, phase, expectedTerms, terms, granted, todo', hmove, hsplit, hplace⟩ |
    hmove | hmove | ⟨sin, hmove⟩ := move_within h.place
  · have hfits := worker.virtue.move_fits
    rw [hmove] at hfits hpass
    obtain ⟨-, hn, hphase⟩ := hfits
    cases hpass
    refine ⟨todo', h.wf.consume hn hphase expectedTerms terms, ?_, ?_⟩
    · rw [h.split, hsplit, List.append_assoc]
    · have hwindow := worker.virtue.window_consume n
      exact hwindow ▸ hplace
  · rw [hmove] at hpass
    cases hpass
    exact ⟨todo, h⟩
  · rw [hmove] at hpass
    exact ⟨todo, h.readMore build hpass⟩
  · rw [hmove] at hpass
    cases hpass
    exact ⟨todo, h⟩

theorem within_new {stream : TcpStream} (hbytes : encodeAll requests = stream.payload ++ tail) :
    Within requests tail requests (Pilgrim.new stream).worker := by
  refine ⟨Virtue.wellFormed_new, rfl, ?_⟩
  have hwindow : (Pilgrim.new stream).worker.virtue.window = [] := rfl
  rw [hwindow, List.nil_append]
  show Place .idle [] 0 requests (stream.payload ++ tail)
  rw [← hbytes]
  exact .idle 0 requests

/-- The discipline of a connection on which anything may go wrong. -/
def Discipline.within (requests : List Request) (tail : Bytes) : Discipline build requests where
  rest worker := ∃ todo, Within requests tail todo worker
  loop worker := ∃ todo, Within requests tail todo worker
  mayFail := True
  readMore_ok := fun _ _ => .inl trivial
  pass_ok := fun _ _ => .inl trivial
  rest_granted := fun _ ⟨_, h⟩ => h.granted
  loop_granted := fun _ ⟨_, h⟩ => h.granted
  readMore := by
    rintro worker worker' jump ⟨todo, h⟩ hread
    refine ⟨readMore_granted build h.wf hread, ?_⟩
    have hwithin := h.readMore build hread
    rcases jump with _ | ⟨_ | _⟩
    · exact ⟨todo, hwithin⟩
    · trivial
    · exact ⟨todo, hwithin⟩
  pass := by
    rintro worker worker' jump ⟨todo, h⟩ hpass
    obtain ⟨todo', hwithin⟩ := h.pass build hpass
    refine ⟨⟨pass_granted build h.wf hpass, hwithin.granted⟩, ?_⟩
    rcases jump with _ | ⟨_ | _⟩
    · exact ⟨todo', hwithin⟩
    · trivial
    · exact ⟨todo', hwithin⟩

/-! ### Requests that fit -/

theorem Follows.granted (h : Follows requests tail todo worker) : worker.granted <+: requests := by
  rw [h.split]
  exact List.prefix_append _ _

/-- The discipline of an open connection whose requests fit. -/
def Discipline.fits (requests : List Request) (tail : Bytes)
    (hfits : ∀ request ∈ requests, request.Fits) : Discipline build requests where
  rest worker := ∃ todo, Rests requests tail todo worker
  loop worker := ∃ todo, Follows requests tail todo worker
  mayFail := False
  readMore_ok := by
    rintro worker ⟨todo, h⟩
    obtain ⟨w, hread, -⟩ | ⟨w, hread, -⟩ := h.readMore build
    · exact .inr ⟨_, hread⟩
    · exact .inr ⟨_, hread⟩
  pass_ok := by
    rintro worker ⟨todo, h⟩
    obtain ⟨w, todo', hpass, -⟩ | ⟨w, hpass, -⟩ := h.pass build hfits
    · exact .inr ⟨_, hpass⟩
    · exact .inr ⟨_, hpass⟩
  rest_granted := fun _ ⟨_, h⟩ => h.toFollows.granted
  loop_granted := fun _ ⟨_, h⟩ => h.granted
  readMore := by
    rintro worker worker' jump ⟨todo, h⟩ hread
    refine ⟨readMore_granted build h.wf hread, ?_⟩
    obtain ⟨w, hspec, hw⟩ | ⟨w, hspec, hw⟩ := h.readMore build
    · rw [hspec] at hread
      cases hread
      exact ⟨todo, hw⟩
    · rw [hspec] at hread
      cases hread
      exact ⟨todo, hw⟩
  pass := by
    rintro worker worker' jump ⟨todo, h⟩ hpass
    have hmore := pass_granted build h.wf hpass
    obtain ⟨w, todo', hspec, hw⟩ | ⟨w, hspec, hw⟩ := h.pass build hfits
    · rw [hspec] at hpass
      cases hpass
      exact ⟨⟨hmore, hw.granted⟩, todo', hw⟩
    · rw [hspec] at hpass
      cases hpass
      exact ⟨⟨hmore, hw.toFollows.granted⟩, todo, hw⟩

end Heaven
