import Heaven.WishSafety

/-! # The buffer of a connection

The bytes that `wish` keeps between `read_idx` and `write_idx` are those that it has read and has
not consumed.  `Stands` follows the calls on a connection from one head of the loop to the next and
counts what is consumed; `consumption` is what the source adds to `read_idx` in a pass.

A read appends to the bytes, a pass drops some of them in front, and an error leaves them as they
are (`Accounts.readMore`, `Accounts.pass`, `Accounts.breaks`).  Hence `buffer_accounts`: the indices
and the bytes are right at every head of the loop and after every call, and no read is made into a
full buffer. -/

namespace Heaven

open Loops (Jump Head)

/-! ### Reads of nothing -/

/-- A read into a buffer with room gives nothing, or fails, only where the socket says so. -/
theorem TcpStream.read_lost {room : ℕ} (hroom : 0 < room) {stream later : TcpStream}
    {result : ReadResult} (h : stream.read room = (result, later)) :
    (result = .ok [] → stream = .closed :: later) ∧
      (result = .failed → stream = .failed :: later) := by
  obtain ⟨room, rfl⟩ := Nat.exists_eq_succ_of_ne_zero hroom.ne'
  cases stream with
  | nil =>
      cases h
      simp
  | cons arrival rest =>
      cases arrival with
      | wouldBlock | closed | failed =>
          cases h
          simp
      | data first bytes =>
          rw [TcpStream.read, List.drop_succ_cons] at h
          cases hrest : bytes.drop room with
          | nil =>
              rw [hrest] at h
              cases h
              simp
          | cons next more =>
              rw [hrest] at h
              cases h
              simp

/-- What comes before a read: the window survives being moved and the backlog being doubled, and
the read is offered 1024 bytes. -/
structure OffersRoom (build : Build) (worker : Worker) : Prop where
  compact : ∃ compacted, worker.virtue.compact build = .ok compacted ∧
    compacted.window = worker.virtue.window ∧
      (compacted.backlog.length * 2 ≤ 64 * 1024 * 1024 →
        ({ compacted with backlog := resize compacted.backlog (compacted.backlog.length * 2) } :
          Virtue).window = worker.virtue.window)
  resizes : ∃ out, worker.virtue.potentiallyResize build = .ok out
  room : ∀ virtue, worker.virtue.potentiallyResize build = .ok (.ok virtue) →
    virtue.window = worker.virtue.window ∧
      ∃ room, slice virtue.backlog virtue.writeIdx virtue.backlog.length = .ok room ∧
        1024 ≤ room.length ∧
          ∀ later, worker.stream.read room.length = (.ok [], later) →
            worker.stream = .closed :: later

theorem offersRoom (build : Build) {worker : Worker} (hwf : worker.virtue.WellFormed) :
    OffersRoom build worker := by
  have hspec := Virtue.potentiallyResize_spec build hwf
  refine ⟨?_, ?_, ?_⟩
  · obtain ⟨compacted, hcompact, hwf', hwindow, -⟩ := Virtue.compact_spec build hwf
    refine ⟨compacted, hcompact, hwindow, ?_⟩
    intro hsize
    exact (Virtue.resize_spec hwf' hsize).2.trans hwindow
  · obtain ⟨virtue, hresize, -⟩ | ⟨hresize, -⟩ := hspec
    all_goals exact ⟨_, hresize⟩
  · intro virtue hvirtue
    obtain ⟨roomy, hresize, hwf', hwindow, -, hroom⟩ | ⟨hresize, -⟩ := hspec
    · rw [hresize] at hvirtue
      cases hvirtue
      have hslice := slice_of_le hwf'.inside (Nat.le_refl virtue.backlog.length)
      rw [List.take_length] at hslice
      have hlength : 1024 ≤ (virtue.backlog.drop virtue.writeIdx).length := by
        rw [List.length_drop]
        omega
      refine ⟨hwindow, _, hslice, hlength, ?_⟩
      intro later hread
      exact (TcpStream.read_lost (by omega) hread).1 rfl
    · rw [hresize] at hvirtue
      cases hvirtue

/-- What a read leaves that ends its call with an error: the backlog cannot grow, or the socket has
ended or failed. -/
inductive Breaks (build : Build) (worker : Worker) : Worker → Prop
  | full {virtue : Virtue}
      (hfull : worker.virtue.potentiallyResize build = .ok (.error .blasphemy))
      (hcompact : worker.virtue.compact build = .ok virtue) :
      Breaks build worker { worker with virtue }
  | lost {virtue : Virtue} {room : Bytes} {result : ReadResult} {later : TcpStream}
      (hresize : worker.virtue.potentiallyResize build = .ok (.ok virtue))
      (hslice : slice virtue.backlog virtue.writeIdx virtue.backlog.length = .ok room)
      (hread : worker.stream.read room.length = (result, later))
      (hresult : result = .ok [] ∨ result = .failed) :
      Breaks build worker { worker with virtue, stream := later }

/-- A read that breaks leaves the bytes of the connection where they were. -/
theorem Breaks.spec {build : Build} {worker worker' : Worker} (h : Breaks build worker worker')
    (hwf : worker.virtue.WellFormed) :
    worker'.virtue.WellFormed ∧ worker'.virtue.window = worker.virtue.window ∧
      worker'.stream.payload = worker.stream.payload := by
  cases h with
  | full hfull hcompact =>
      obtain ⟨virtue, hok, hwf', hwindow, -⟩ := Virtue.compact_spec build hwf
      rw [hok] at hcompact
      cases hcompact
      exact ⟨hwf', hwindow, rfl⟩
  | @lost virtue room result later hresize hslice hread hresult =>
      obtain ⟨roomy, hok, hwf', hwindow, -, hroom⟩ | ⟨hfull, -⟩ :=
        Virtue.potentiallyResize_spec build hwf
      · rw [hok] at hresize
        cases hresize
        rw [slice_of_le hwf'.inside (Nat.le_refl _), List.take_length] at hslice
        cases hslice
        have hpos : 0 < (virtue.backlog.drop virtue.writeIdx).length := by
          rw [List.length_drop]
          omega
        refine ⟨hwf', hwindow, ?_⟩
        obtain rfl | rfl := hresult
        · rw [(TcpStream.read_lost hpos hread).1 rfl]
          rfl
        · rw [(TcpStream.read_lost hpos hread).2 rfl]
          rfl
      · rw [hfull] at hresize
        cases hresize

/-! ### What a pass consumes -/

namespace Virtue

/-- What a pass of the loop adds to `read_idx`, unless it fails. -/
def consumption (virtue : Virtue) : ℕ :=
  match virtue.window with
  | [] => 0
  | _ :: _ =>
      match virtue.phase with
      | .idle => 1
      | .awaitingTermCount | .awaitingBulkStringLength =>
          match findCrlf virtue.window with
          | some i => i + 2
          | none => 0
      | .graspingMarker => 1
      | .awaitingBulkString len => if virtue.window.length ≥ len + 2 then len + 2 else 0

end Virtue

/-- The move consumes this much, unless it refuses the input. -/
def Move.Consumes (n : ℕ) : Move → Prop
  | .stop => n = 0
  | .refuse _ => True
  | .consume m _ _ _ _ => n = m
  | .more m => n = m

theorem takeNumber_consumes {virtue : Virtue} {next : ℕ → ℕ → Move}
    (h : ∀ n number, (next n number).Consumes n) :
    (virtue.takeNumber next).Consumes
      (match findCrlf virtue.window with
        | some i => i + 2
        | none => 0) := by
  unfold Virtue.takeNumber
  cases findCrlf virtue.window with
  | none => rfl
  | some i =>
      dsimp only
      cases bytesToUsize (virtue.window.take i) with
      | error sin => trivial
      | ok number => exact h (i + 2) number

theorem takeTerm_consumes (virtue : Virtue) (len : ℕ) :
    (virtue.takeTerm len).Consumes (if virtue.window.length ≥ len + 2 then len + 2 else 0) := by
  unfold Virtue.takeTerm
  by_cases hshort : virtue.window.length < len + 2
  · rw [if_pos hshort, if_neg (by omega)]
    rfl
  · rw [if_neg hshort, if_pos (by omega)]
    dsimp only
    split_ifs
    · trivial
    · rfl
    · rfl

theorem move_consumes (virtue : Virtue) : virtue.move.Consumes virtue.consumption := by
  unfold Virtue.move Virtue.consumption
  cases hwindow : virtue.window with
  | nil => rfl
  | cons first rest =>
      dsimp only
      rw [← hwindow]
      cases virtue.phase with
      | idle =>
          dsimp only
          split_ifs
          · rfl
          · trivial
      | awaitingTermCount => exact takeNumber_consumes fun _ _ => rfl
      | graspingMarker =>
          dsimp only
          split_ifs
          · rfl
          · rfl
      | awaitingBulkStringLength => exact takeNumber_consumes fun _ _ => rfl
      | awaitingBulkString len => exact takeTerm_consumes virtue len

/-! ### Reading and consuming -/

/-- The bytes of a connection that its socket has handed out. -/
def bytesRead (stream : TcpStream) (worker : Worker) : Bytes :=
  stream.payload.take (stream.payload.length - worker.stream.payload.length)

theorem bytesRead_eq {stream : TcpStream} {worker : Worker} {bytes : Bytes}
    (h : stream.payload = bytes ++ worker.stream.payload) : bytesRead stream worker = bytes := by
  rw [bytesRead, h, List.length_append, Nat.add_sub_cancel]
  exact List.take_left' rfl

/-- The buffer is well formed and holds what has been read, but for the bytes consumed. -/
structure Accounts (stream : TcpStream) (worker : Worker) (consumed : ℕ) : Prop where
  wellFormed : worker.virtue.WellFormed
  payload : stream.payload = bytesRead stream worker ++ worker.stream.payload
  within : consumed ≤ (bytesRead stream worker).length
  window : worker.virtue.window = (bytesRead stream worker).drop consumed

namespace Accounts

variable {build : Build} {stream : TcpStream} {worker worker' : Worker} {consumed : ℕ}

theorem new (stream : TcpStream) : Accounts stream (Pilgrim.new stream).worker 0 := by
  have hread : bytesRead stream (Pilgrim.new stream).worker = [] := bytesRead_eq rfl
  refine ⟨Virtue.wellFormed_new, ?_, Nat.zero_le _, ?_⟩
  · rw [hread]
    rfl
  · rw [hread]
    rfl

/-- Bytes that are read stand behind those that were there. -/
theorem receive (h : Accounts stream worker consumed) (hwf : worker'.virtue.WellFormed)
    {bytes : Bytes} (hwindow : worker'.virtue.window = worker.virtue.window ++ bytes)
    (hpayload : worker.stream.payload = bytes ++ worker'.stream.payload) :
    Accounts stream worker' consumed := by
  have hread : bytesRead stream worker' = bytesRead stream worker ++ bytes := by
    apply bytesRead_eq
    rw [List.append_assoc, ← hpayload]
    exact h.payload
  refine ⟨hwf, ?_, ?_, ?_⟩
  · rw [hread, List.append_assoc, ← hpayload]
    exact h.payload
  · rw [hread, List.length_append]
    exact Nat.le_add_right_of_le h.within
  · rw [hwindow, h.window, hread, List.drop_append_of_le_length h.within]

/-- Consuming drops bytes in front. -/
theorem consume (h : Accounts stream worker consumed) {n : ℕ}
    (hn : n ≤ worker.virtue.window.length) (hwf : worker'.virtue.WellFormed)
    (hwindow : worker'.virtue.window = worker.virtue.window.drop n)
    (hstream : worker'.stream = worker.stream) : Accounts stream worker' (consumed + n) := by
  have hread : bytesRead stream worker' = bytesRead stream worker := by
    rw [bytesRead, bytesRead, hstream]
  have hwithin := h.within
  refine ⟨hwf, ?_, ?_, ?_⟩
  · rw [hread, hstream]
    exact h.payload
  · rw [h.window, List.length_drop] at hn
    rw [hread]
    omega
  · rw [hwindow, hread, h.window, List.drop_drop]

/-- **A read keeps account**, unless it ends the connection. -/
theorem readMore (h : Accounts stream worker consumed) {jump : WishJump}
    (hread : Heaven.readMore build worker = .ok (worker', jump)) :
    jump.Leads (fun w => Accounts stream w consumed)
      (fun w result => result = .ok () → Accounts stream w consumed) worker' := by
  cases readMore_step h.wellFormed hread with
  | failed =>
      intro hresult
      cases hresult
  | blocked wf same window payload =>
      intro _
      apply h.receive wf
      · rw [window]
        exact (List.append_nil _).symm
      · exact payload
  | received bytes wf same nonempty window payload => exact h.receive wf window payload

/-- A read that breaks keeps account too. -/
theorem breaks (h : Accounts stream worker consumed) (hbreaks : Breaks build worker worker') :
    Accounts stream worker' consumed := by
  obtain ⟨hwf, hwindow, hpayload⟩ := hbreaks.spec h.wellFormed
  apply h.receive hwf
  · rw [hwindow]
    exact (List.append_nil _).symm
  · exact hpayload.symm

/-- Skipping the bytes that a pass skips before it reads. -/
theorem skip (h : Accounts stream worker consumed) {n : ℕ}
    (hmove : worker.virtue.move = .more n) :
    Accounts stream (worker.skip n) (consumed + worker.virtue.consumption) := by
  have hfits := worker.virtue.move_fits
  have hconsumes := move_consumes worker.virtue
  rw [hmove] at hfits hconsumes
  rw [(hconsumes : worker.virtue.consumption = n)]
  exact h.consume hfits (Worker.skip_wellFormed h.wellFormed hfits) (worker.skip_window n) rfl

/-- **A pass keeps account**, unless it ends the connection. -/
theorem pass (h : Accounts stream worker consumed) {jump : WishJump}
    (hpass : Heaven.pass build worker = .ok (worker', jump)) :
    jump.Leads (fun w => Accounts stream w (consumed + worker.virtue.consumption))
      (fun w result => result = .ok () →
        Accounts stream w (consumed + worker.virtue.consumption)) worker' := by
  have hconsumes := move_consumes worker.virtue
  cases pass_moves build h.wellFormed hpass with
  | stop hmove =>
      rw [hmove] at hconsumes
      rw [(hconsumes : worker.virtue.consumption = 0)]
      intro _
      exact h
  | refuse =>
      intro hresult
      cases hresult
  | @consume n phase expectedTerms terms granted hmove positive inside wf =>
      rw [hmove] at hconsumes
      rw [(hconsumes : worker.virtue.consumption = n)]
      exact h.consume inside wf (worker.virtue.window_consume n) rfl
  | more hmove inside wf hread => exact (h.skip hmove).readMore hread

end Accounts

/-! ### Calls -/

/-- What comes next on a connection: a call of `wish`, or a pass of its loop. -/
inductive Ahead where
  | call
  | pass

/-- The states in which the calls on a connection stand before a call and at the heads of their
loops, with the number of bytes that have been consumed.  The server makes no call after an error,
but another one would find the buffer as it is left. -/
inductive Stands (build : Build) (stream : TcpStream) : Ahead → Worker → ℕ → Prop
  | new : Stands build stream .call (Pilgrim.new stream).worker 0
  | enter {worker worker' : Worker} {consumed : ℕ} (h : Stands build stream .call worker consumed)
      (hread : readMore build worker = .ok (worker', .again)) :
      Stands build stream .pass worker' consumed
  | blocked {worker worker' : Worker} {consumed : ℕ}
      (h : Stands build stream .call worker consumed)
      (hread : readMore build worker = .ok (worker', .leave (.ok ()))) :
      Stands build stream .call worker' consumed
  | again {worker worker' : Worker} {consumed : ℕ} (h : Stands build stream .pass worker consumed)
      (hpass : pass build worker = .ok (worker', .again)) :
      Stands build stream .pass worker' (consumed + worker.virtue.consumption)
  | leave {worker worker' : Worker} {consumed : ℕ} (h : Stands build stream .pass worker consumed)
      (hpass : pass build worker = .ok (worker', .leave (.ok ()))) :
      Stands build stream .call worker' (consumed + worker.virtue.consumption)
  | lost {worker worker' : Worker} {consumed : ℕ} (h : Stands build stream .call worker consumed)
      (hbreaks : Breaks build worker worker') : Stands build stream .call worker' consumed
  | lostInside {worker worker' : Worker} {consumed n : ℕ} {sin : Sin}
      (h : Stands build stream .pass worker consumed) (hmove : worker.virtue.move = .more n)
      (hpass : pass build worker = .ok (worker.skip n, .leave (.error sin)))
      (hbreaks : Breaks build (worker.skip n) worker') :
      Stands build stream .call worker' (consumed + worker.virtue.consumption)
  | refused {worker : Worker} {consumed : ℕ} {sin : Sin}
      (h : Stands build stream .pass worker consumed) (hmove : worker.virtue.move = .refuse sin)
      (hpass : pass build worker = .ok (worker, .leave (.error sin))) :
      Stands build stream .call worker consumed

/-- **Every state that is reached stands to account.** -/
theorem Stands.accounts {build : Build} {stream : TcpStream} {ahead : Ahead} {worker : Worker}
    {consumed : ℕ} (h : Stands build stream ahead worker consumed) :
    Accounts stream worker consumed := by
  induction h with
  | new => exact .new stream
  | enter _ hread ih => exact ih.readMore hread
  | blocked _ hread ih => exact ih.readMore hread rfl
  | again _ hpass ih => exact ih.pass hpass
  | leave _ hpass ih => exact ih.pass hpass rfl
  | lost _ hbreaks ih => exact ih.breaks hbreaks
  | lostInside _ hmove _ hbreaks ih => exact (ih.skip hmove).breaks hbreaks
  | refused _ _ _ ih => exact ih

section Follow

variable {build : Build} {stream : TcpStream} {worker worker' : Worker} {jump : WishJump}

theorem Stands.readMore {consumed : ℕ} (h : Stands build stream .call worker consumed)
    (hread : Heaven.readMore build worker = .ok (worker', jump)) :
    jump.Leads (fun w => ∃ c, Stands build stream .pass w c)
      (fun w result => result = .ok () → ∃ c, Stands build stream .call w c) worker' := by
  cases jump with
  | again => exact ⟨_, h.enter hread⟩
  | leave result =>
      rintro rfl
      exact ⟨_, h.blocked hread⟩

theorem Stands.pass {consumed : ℕ} (h : Stands build stream .pass worker consumed)
    (hpass : Heaven.pass build worker = .ok (worker', jump)) :
    jump.Leads (fun w => ∃ c, Stands build stream .pass w c)
      (fun w result => result = .ok () → ∃ c, Stands build stream .call w c) worker' := by
  cases jump with
  | again => exact ⟨_, h.again hpass⟩
  | leave result =>
      rintro rfl
      exact ⟨_, h.leave hpass⟩

/-- A call that ends well leaves the connection before the next one. -/
theorem stands_of_calls {n : ℕ} {pilgrim : Pilgrim}
    (h : calls build (.new stream) n = some (.ok (pilgrim, .ok ()))) :
    ∃ consumed, Stands build stream .call pilgrim.worker consumed := by
  have hread : ∀ worker worker' jump, worker.virtue.WellFormed →
      (.ok () = (.ok () : Except Sin Unit) → ∃ c, Stands build stream .call worker c) →
        Heaven.readMore build worker = .ok (worker', jump) →
          jump.Leads (fun w => ∃ c, Stands build stream .pass w c)
            (fun w result => result = .ok () → ∃ c, Stands build stream .call w c) worker' := by
    intro worker worker' jump _ hrest hread
    obtain ⟨consumed, hstands⟩ := hrest rfl
    exact hstands.readMore hread
  have hpass : ∀ worker worker' jump, worker.virtue.WellFormed →
      (∃ c, Stands build stream .pass worker c) →
        Heaven.pass build worker = .ok (worker', jump) →
          jump.Leads (fun w => ∃ c, Stands build stream .pass w c)
            (fun w result => result = .ok () → ∃ c, Stands build stream .call w c) worker' := by
    rintro worker worker' jump _ ⟨consumed, hstands⟩ hpass
    exact hstands.pass hpass
  exact calls_leads hread hpass (Pilgrim.wellFormed_new stream) (fun _ => ⟨0, .new⟩) h rfl

/-- Every head of a loop is reached. -/
theorem stands_of_atLoop {head : Worker} (h : AtLoop build (.new stream) head) :
    ∃ consumed, Stands build stream .pass head consumed := by
  obtain ⟨n, pilgrim, entry, hcalls, hread, hhead⟩ := h
  obtain ⟨consumed, hstands⟩ := stands_of_calls hcalls
  have hkeep : ∀ w w' : Worker, (∃ c, Stands build stream .pass w c) →
      Heaven.pass build w = .ok (w', .again) → ∃ c, Stands build stream .pass w' c := by
    rintro w w' ⟨c, hw⟩ hpass
    exact ⟨_, hw.again hpass⟩
  exact hhead.keeps hkeep ⟨_, hstands.enter hread⟩

end Follow

/-- The reads that come next are offered room: the one at the beginning of a call, and the one that
a pass makes behind the bytes that it skips. -/
def ReadsIntoRoom (build : Build) : Ahead → Worker → Prop
  | .call, worker => OffersRoom build worker
  | .pass, worker => ∀ out, pass build worker = .ok out →
      pass build worker = worker.make build worker.virtue.move ∧
        ∀ n, worker.virtue.move = .more n → OffersRoom build (worker.skip n)

theorem Stands.readsIntoRoom {build : Build} {stream : TcpStream} {ahead : Ahead}
    {worker : Worker} {consumed : ℕ} (h : Stands build stream ahead worker consumed) :
    ReadsIntoRoom build ahead worker := by
  have hwf := h.accounts.wellFormed
  cases ahead with
  | call => exact offersRoom build hwf
  | pass =>
      intro out hout
      have hshort := (pass_ok_iff build hwf).mp ⟨out, hout⟩
      refine ⟨pass_eq build hwf hshort, ?_⟩
      intro n hmove
      have hfits := worker.virtue.move_fits
      rw [hmove] at hfits
      exact offersRoom build (Worker.skip_wellFormed hwf hfits)

/-- **The buffer of a connection holds what has been read and not been consumed**, at every head of
the loop of every call and between the calls, and no read is made into a full buffer. -/
theorem buffer_accounts (build : Build) (stream : TcpStream) :
    (∀ head, AtLoop build (.new stream) head →
        ∃ consumed, Stands build stream .pass head consumed) ∧
      (∀ n pilgrim, calls build (.new stream) n = some (.ok (pilgrim, .ok ())) →
        ∃ consumed, Stands build stream .call pilgrim.worker consumed) ∧
      ∀ ahead worker consumed, Stands build stream ahead worker consumed →
        worker.virtue.readIdx ≤ worker.virtue.writeIdx ∧
          worker.virtue.writeIdx ≤ worker.virtue.backlog.length ∧
          (∃ k, worker.virtue.backlog.length = 4096 * 2 ^ k) ∧
          worker.virtue.backlog.length ≤ 64 * 1024 * 1024 ∧
          stream.payload = bytesRead stream worker ++ worker.stream.payload ∧
          consumed ≤ (bytesRead stream worker).length ∧
          slice worker.virtue.backlog worker.virtue.readIdx worker.virtue.writeIdx =
            .ok ((bytesRead stream worker).drop consumed) ∧
          ReadsIntoRoom build ahead worker := by
  refine ⟨fun head hhead => stands_of_atLoop hhead, fun n pilgrim hcalls => stands_of_calls hcalls,
    ?_⟩
  intro ahead worker consumed hstands
  obtain ⟨hwf, hpayload, hwithin, hwindow⟩ := hstands.accounts
  obtain ⟨k, -, hsize⟩ := hwf.size
  have hslice := hwf.slice_window
  rw [hwindow] at hslice
  exact ⟨hwf.ordered, hwf.inside, ⟨k, hsize⟩, hwf.le_length.2, hpayload, hwithin, hslice,
    hstands.readsIntoRoom⟩

end Heaven
