import Heaven.WishSafety

/-! # The socket runs dry

A call of `wish` begins with a read, and a read takes an arrival or a piece of one from the socket.
So after as many calls as the socket has in it, nothing is left to read (`calls_dry`), unless a call
has failed. -/

namespace Heaven

open Loops (Jump)

namespace TcpStream

/-- What is in the socket, counted so that each read takes something. -/
def size (stream : TcpStream) : ℕ := stream.length + stream.payload.length

theorem size_eq_zero {stream : TcpStream} : stream.size = 0 ↔ stream = [] := by
  constructor
  · intro h
    exact List.length_eq_zero_iff.mp (Nat.eq_zero_of_add_eq_zero h).1
  · rintro rfl
    rfl

theorem size_read {room : ℕ} (hroom : 0 < room) (stream : TcpStream) :
    (stream.read room).2.size ≤ stream.size - 1 := by
  unfold size
  rcases stream with _ | ⟨_ | _ | _ | _, later⟩
  · exact Nat.zero_le _
  · rename_i first rest
    rw [read]
    cases hdrop : (first :: rest).drop room with
    | nil =>
        simp only [payload, List.length_cons, List.length_append]
        omega
    | cons next rest' =>
        have hlength := congrArg List.length hdrop
        rw [List.length_drop] at hlength
        simp only [payload, List.length_cons, List.length_append] at hlength ⊢
        omega
  all_goals
    simp only [read, payload, List.length_cons]
    omega

end TcpStream

section Draining

variable {worker worker' : Worker} {jump : WishJump} (build : Build)
  (hwf : worker.virtue.WellFormed)

include hwf

/-- Reading takes something from the socket, or fails and leaves it.  It ends the call only if the
read would block. -/
theorem readMore_takes (h : readMore build worker = .ok (worker', jump)) :
    (∃ room > 0, worker'.stream = (worker.stream.read room).2 ∧
      (jump = .leave (.ok ()) → (worker.stream.read room).1 = .wouldBlock)) ∨
      ∃ sin, jump = .leave (.error sin) ∧ worker'.stream = worker.stream := by
  unfold readMore Virtue.potentiallyResizeAndRead at h
  obtain ⟨virtue, hresize, hroomy, -, -, hroom⟩ | ⟨hresize, -⟩ :=
    Virtue.potentiallyResize_spec build hwf
  · obtain ⟨-, hle⟩ := hroomy.le_length
    have hpos : 0 < (virtue.backlog.drop virtue.writeIdx).length := by
      rw [List.length_drop]
      omega
    rw [hresize] at h
    dsimp only [bind, Except.bind] at h
    rw [slice_of_le hroomy.inside (Nat.le_refl _), List.take_length] at h
    dsimp only at h
    obtain ⟨bytes, later, hread, hne, hlen, -⟩ | ⟨later, hread, -⟩ | ⟨later, hread | hread, -⟩ :=
      worker.stream.read_spec hpos
    · rw [hread] at h
      rw [List.length_drop] at hlen
      have hfit : virtue.writeIdx + bytes.length < 2 ^ 64 := by omega
      obtain ⟨b, rest, rfl⟩ := List.exists_cons_of_ne_nil hne
      dsimp only at h
      rw [addUsize_of_lt build hfit] at h
      cases h
      exact .inl ⟨_, hpos, by rw [hread], fun hleave => by cases hleave⟩
    · rw [hread] at h
      cases h
      exact .inl ⟨_, hpos, by rw [hread], fun _ => by rw [hread]⟩
    · rw [hread] at h
      cases h
      exact .inr ⟨_, rfl, rfl⟩
    · rw [hread] at h
      cases h
      exact .inr ⟨_, rfl, rfl⟩
  · rw [hresize] at h
    cases h
    exact .inr ⟨_, rfl, rfl⟩

theorem readMore_size (h : readMore build worker = .ok (worker', jump)) :
    worker'.stream.size ≤ worker.stream.size := by
  obtain ⟨room, hroom, hstream, -⟩ | ⟨sin, -, hstream⟩ := readMore_takes build hwf h
  · have hless := TcpStream.size_read hroom worker.stream
    rw [hstream]
    omega
  · rw [hstream]

/-- The step lemma: no pass puts anything into the socket. -/
theorem pass_size (h : pass build worker = .ok (worker', jump)) :
    worker'.stream.size ≤ worker.stream.size := by
  cases pass_moves build hwf h with
  | stop => exact Nat.le_refl _
  | refuse => exact Nat.le_refl _
  | consume => exact Nat.le_refl _
  | @more n _ _ hmove inside wf hread =>
      have hle : worker'.stream.size ≤ (worker.skip n).stream.size :=
        readMore_size build wf hread
      exact hle

end Draining

variable {build : Build} {pilgrim pilgrim' : Pilgrim}

/-- A call that does not fail takes something from the socket. -/
theorem wish_size (hwf : pilgrim.WellFormed)
    (h : wish build pilgrim = some (.ok (pilgrim', .ok ()))) :
    pilgrim'.stream.size ≤ pilgrim.stream.size - 1 := by
  let taken (worker : Worker) : Prop := worker.stream.size ≤ pilgrim.stream.size - 1
  let rest (worker : Worker) (result : Except Sin Unit) : Prop := result = .ok () → taken worker
  have hread : ∀ worker worker' jump, worker.virtue.WellFormed →
      worker.stream.size ≤ pilgrim.stream.size → readMore build worker = .ok (worker', jump) →
        jump.Leads taken rest worker' := by
    intro worker worker' jump hw hsize hread
    obtain ⟨room, hroom, hstream, -⟩ | ⟨sin, rfl, -⟩ := readMore_takes build hw hread
    · have hless := TcpStream.size_read hroom worker.stream
      rw [← hstream] at hless
      have htaken : taken worker' := hless.trans (Nat.sub_le_sub_right hsize 1)
      cases jump with
      | again => exact htaken
      | leave result => exact fun _ => htaken
    · intro hresult
      cases hresult
  have hpass : ∀ worker worker' jump, worker.virtue.WellFormed → taken worker →
      pass build worker = .ok (worker', jump) → jump.Leads taken rest worker' := by
    intro worker worker' jump hw htaken hpass
    have htaken' : taken worker' := (pass_size build hw hpass).trans htaken
    cases jump with
    | again => exact htaken'
    | leave result => exact fun _ => htaken'
  exact wish_leads hread hpass hwf (Nat.le_refl _) h rfl

theorem calls_size {n : ℕ} (hwf : pilgrim.WellFormed)
    (h : calls build pilgrim n = some (.ok (pilgrim', .ok ()))) :
    pilgrim'.stream.size ≤ pilgrim.stream.size - n := by
  induction n generalizing pilgrim' with
  | zero =>
      cases h
      exact Nat.le_refl _
  | succ n ih =>
      rw [calls] at h
      split at h
      · rename_i before hbefore
        have hle := ih hbefore
        have hless := wish_size (calls_keeps hwf hbefore) h
        omega
      · rename_i hnot
        exact absurd h (hnot _)

/-- **After enough calls nothing is left to read.** -/
theorem calls_dry {n : ℕ} (hwf : pilgrim.WellFormed) (hn : pilgrim.stream.size ≤ n)
    (h : calls build pilgrim n = some (.ok (pilgrim', .ok ()))) : pilgrim'.stream = [] := by
  have hle := calls_size hwf h
  exact TcpStream.size_eq_zero.mp (by omega)

end Heaven
