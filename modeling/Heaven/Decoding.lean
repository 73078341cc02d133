import Heaven.Encoding
import Heaven.WishSafety

/-! # Reading requests undoes writing them

The bytes of a sequence of requests reach `wish` in pieces of any size, with reads that would
block anywhere between them.  `Follows` is the invariant of the loop: what has been granted and
what is still to be granted make up the sequence, and the window with the bytes that are still to
come is the rest of its encoding.  Between two calls the worker `Rests`: it waits for a request
that is not complete.

`wish_decodes` is the result: no call fails, and after each call the granted requests are exactly
those whose encodings lie inside the bytes read so far. -/

namespace Heaven

open Loops (Jump)
open Decimal (ascii print)

/-- The worker is inside the encoding of `requests`, of which `tail` has not been sent and `todo`
not been granted. -/
structure Follows (requests : List Request) (tail : Bytes) (todo : List Request)
    (worker : Worker) : Prop where
  wf : worker.virtue.WellFormed
  stays : worker.stream.Open
  split : requests = worker.granted ++ todo
  place : Place worker.virtue.phase worker.virtue.terms worker.virtue.expectedTerms todo
    (worker.virtue.window ++ (worker.stream.payload ++ tail))

structure Rests (requests : List Request) (tail : Bytes) (todo : List Request)
    (worker : Worker) : Prop extends Follows requests tail todo worker where
  small : worker.virtue.window.length ≤ 64 * 1024 * 1024 - 1024
  incomplete : Incomplete todo (worker.stream.payload ++ tail)

variable {requests todo : List Request} {tail : Bytes} {worker : Worker} (build : Build)

/-- No length inside the encoding is overlong. -/
theorem Follows.not_overlong (h : Follows requests tail todo worker)
    (hfits : ∀ request ∈ todo, request.Fits) : ¬ worker.virtue.Overlong := by
  rintro ⟨len, hphase, hlen, -⟩
  have hplace := h.place
  rw [hphase] at hplace
  generalize worker.virtue.window ++ (worker.stream.payload ++ tail) = rest at hplace
  generalize worker.virtue.terms = terms at hplace
  generalize worker.virtue.expectedTerms = expectedTerms at hplace
  cases hplace with
  | bulkString done term rest hne todo =>
      have hterm := (hfits _ List.mem_cons_self).2 term (by simp)
      omega

/-- A worker at rest that reads goes on inside the encoding, or rests again. -/
theorem Rests.readMore (h : Rests requests tail todo worker) :
    (∃ worker', Heaven.readMore build worker = .ok (worker', .again) ∧
        Follows requests tail todo worker') ∨
      ∃ worker', Heaven.readMore build worker = .ok (worker', .leave (.ok ())) ∧
        Rests requests tail todo worker' := by
  have hplace := h.place
  obtain ⟨worker', jump, hread, hstep⟩ := readMore_spec build h.wf
  cases hstep with
  | failed full =>
      have hsmall := h.small
      have hlarge := full h.stays
      omega
  | blocked wf same window payload stays =>
      refine .inr ⟨_, hread, ⟨wf, stays h.stays, h.split, ?_⟩, ?_, ?_⟩
      · rw [same.phase, same.terms, same.expectedTerms, window, ← payload]
        exact hplace
      · rw [window]
        exact h.small
      · rw [← payload]
        exact h.incomplete
  | received bytes wf same nonempty window payload stays =>
      refine .inl ⟨_, hread, wf, stays h.stays, h.split, ?_⟩
      rw [same.phase, same.terms, same.expectedTerms, window]
      rw [payload] at hplace
      simpa only [List.append_assoc] using hplace

/-- The step lemma: a pass stays inside the encoding, or leaves the loop at rest. -/
theorem Follows.pass (h : Follows requests tail todo worker)
    (hfits : ∀ request ∈ requests, request.Fits) :
    (∃ worker' todo', Heaven.pass build worker = .ok (worker', .again) ∧
        Follows requests tail todo' worker') ∨
      ∃ worker', Heaven.pass build worker = .ok (worker', .leave (.ok ())) ∧
        Rests requests tail todo worker' := by
  have htodo : ∀ request ∈ todo, request.Fits := by
    intro request hrequest
    apply hfits
    rw [h.split]
    exact List.mem_append_right _ hrequest
  rw [pass_eq build h.wf (h.not_overlong htodo)]
  obtain ⟨n, phase, expectedTerms, terms, granted, todo', hmove, hsplit, hplace⟩ |
    ⟨hmove | hmove, hsmall, hincomplete⟩ := move_place h.place htodo
  · have hmoves := worker.virtue.move_fits
    rw [hmove] at hmoves
    obtain ⟨-, hn, hphase⟩ := hmoves
    rw [hmove]
    refine .inl ⟨_, todo', rfl, h.wf.consume hn hphase expectedTerms terms, h.stays, ?_, ?_⟩
    · rw [h.split, hsplit, List.append_assoc]
    · have hwindow := worker.virtue.window_consume n
      exact hwindow ▸ hplace
  · rw [hmove]
    exact .inr ⟨worker, rfl, h, hsmall, hincomplete⟩
  · rw [hmove]
    have hrest : Rests requests tail todo worker := ⟨h, hsmall, hincomplete⟩
    obtain ⟨worker', hread, hfollows⟩ | hleave := hrest.readMore build
    · exact .inl ⟨worker', todo, hread, hfollows⟩
    · exact .inr hleave

/-- The loop ends at rest. -/
theorem Follows.loop (h : Follows requests tail todo worker)
    (hfits : ∀ request ∈ requests, request.Fits) :
    ∃ worker', worker.loop build = some (.ok (worker', .ok ())) ∧
      ∃ todo', Rests requests tail todo' worker' := by
  have hbody : ∀ w : Worker, (∃ todo, Follows requests tail todo w) →
      (∃ w', Heaven.pass build w = .ok (w', .again) ∧ (∃ todo, Follows requests tail todo w') ∧
          w'.measure < w.measure) ∨
        ∃ w' result, Heaven.pass build w = .ok (w', .leave result) ∧
          (result = .ok () ∧ ∃ todo, Rests requests tail todo w') := by
    rintro w ⟨todo, hw⟩
    obtain ⟨w', todo', hpass, hw'⟩ | ⟨w', hpass, hw'⟩ := hw.pass build hfits
    · have hless := (pass_keeps build hw.wf hpass).2 rfl
      exact .inl ⟨w', hpass, ⟨todo', hw'⟩, hless⟩
    · exact .inr ⟨w', _, hpass, rfl, todo, hw'⟩
  obtain ⟨worker', result, hrun, rfl, hrests⟩ :=
    Loops.run_total hbody (worker.measure + 1) worker ⟨todo, h⟩ (Nat.lt_succ_self _)
  exact ⟨worker', hrun, hrests⟩

/-- A call finds the worker at rest and leaves it at rest. -/
theorem wish_rests {pilgrim : Pilgrim} (h : Rests requests tail todo pilgrim.worker)
    (hfits : ∀ request ∈ requests, request.Fits) :
    ∃ pilgrim', wish build pilgrim = some (.ok (pilgrim', .ok ())) ∧
      ∃ todo', Rests requests tail todo' pilgrim'.worker := by
  unfold wish
  obtain ⟨entry, hread, hentry⟩ | ⟨worker', hread, hrests⟩ := h.readMore build
  · rw [hread]
    obtain ⟨worker', hloop, hrests⟩ := hentry.loop build hfits
    dsimp only
    rw [hloop]
    exact ⟨_, rfl, hrests⟩
  · rw [hread]
    exact ⟨_, rfl, todo, hrests⟩

theorem rests_new {stream : TcpStream} (hopen : stream.Open)
    (hbytes : encodeAll requests = stream.payload ++ tail) :
    Rests requests tail requests (Pilgrim.new stream).worker := by
  have hwindow : Virtue.new.window = [] := rfl
  have hplace : Place .idle [] 0 requests (Virtue.new.window ++ (stream.payload ++ tail)) := by
    rw [hwindow, List.nil_append, ← hbytes]
    exact .idle 0 requests
  refine ⟨⟨Virtue.wellFormed_new, hopen, rfl, hplace⟩, Nat.zero_le _, ?_⟩
  have hrest := hplace.length_rest.2
  rwa [hwindow, List.nil_append] at hrest

theorem calls_rest {stream : TcpStream} (hopen : stream.Open)
    (hbytes : encodeAll requests = stream.payload ++ tail)
    (hfits : ∀ request ∈ requests, request.Fits) (n : ℕ) :
    ∃ pilgrim, calls build (.new stream) n = some (.ok (pilgrim, .ok ())) ∧
      ∃ todo, Rests requests tail todo pilgrim.worker := by
  induction n with
  | zero => exact ⟨_, rfl, requests, rests_new hopen hbytes⟩
  | succ n ih =>
      obtain ⟨pilgrim, hcalls, todo, hrests⟩ := ih
      rw [calls, hcalls]
      exact wish_rests build hrests hfits

/-- At rest, the granted requests are those that are complete inside the bytes read. -/
theorem Rests.granted_eq {stream : TcpStream} (h : Rests requests tail todo worker)
    (hbytes : encodeAll requests = stream.payload ++ tail) :
    worker.granted =
      completeWithin requests (stream.payload.length - worker.stream.payload.length) := by
  have hrest := h.place.length_rest.1
  have htotal := congrArg List.length hbytes
  rw [h.split, encodeAll_append] at htotal
  simp only [List.length_append] at htotal hrest
  -- the bytes read: those of the granted requests, and some of the rest
  obtain ⟨k, hk⟩ : ∃ k, stream.payload.length - worker.stream.payload.length =
      (encodeAll worker.granted).length + k := ⟨_, (Nat.add_sub_of_le (by omega)).symm⟩
  rw [hk, h.split, completeWithin_append]
  cases todo with
  | nil => rw [completeWithin, List.append_nil]
  | cons request todo =>
      have hincomplete := h.incomplete request todo rfl
      rw [encodeAll_cons, List.length_append] at htotal hrest
      rw [List.length_append] at hincomplete
      rw [completeWithin, if_neg (by omega), List.append_nil]

/-- **Reading requests undoes writing them, however the bytes are cut.** -/
theorem wish_decodes (requests : List Request) (hfits : ∀ request ∈ requests, request.Fits)
    (stream : TcpStream) (hopen : stream.Open) (hbytes : stream.payload <+: encodeAll requests)
    (n : ℕ) :
    ∃ pilgrim, calls build (.new stream) n = some (.ok (pilgrim, .ok ())) ∧
      pilgrim.granted =
        completeWithin requests (stream.payload.length - pilgrim.stream.payload.length) := by
  obtain ⟨tail, hbytes⟩ := hbytes
  obtain ⟨pilgrim, hcalls, todo, hrests⟩ := calls_rest build hopen hbytes.symm hfits n
  exact ⟨pilgrim, hcalls, hrests.granted_eq hbytes.symm⟩

/-- A request cut inside the end of its term count and inside its term. -/
theorem wish_decodes_ping :
    ∃ pilgrim, calls .release
        (.new [.data 42 (ascii "1\r"), .wouldBlock, .data 10 (ascii "$4\r\nPI"), .wouldBlock,
          .data 78 (ascii "G\r\n")]) 3 = some (.ok (pilgrim, .ok ())) ∧
      pilgrim.granted = completeWithin [⟨[ascii "PING"], List.cons_ne_nil _ _⟩]
        (14 - pilgrim.stream.payload.length) :=
  wish_decodes .release [⟨[ascii "PING"], List.cons_ne_nil _ _⟩] (by decide)
    [.data 42 (ascii "1\r"), .wouldBlock, .data 10 (ascii "$4\r\nPI"), .wouldBlock,
      .data 78 (ascii "G\r\n")] (by decide) (by decide) 3

/-- The encoding of a request with `2 ^ 64` terms begins with a count that is no `usize`. -/
theorem payload_huge_count {request : Request} (h : request.val.length = 2 ^ 64) :
    TcpStream.payload [.data 42 (ascii "18446744073709551616\r\n")] <+: encodeAll [request] := by
  have hprint : print (2 ^ 64) = ascii "18446744073709551616" := by decide
  rw [encodeAll_cons_eq, h, hprint]
  exact ⟨encodeTerms request.val ++ encodeAll [], rfl⟩

/-- Without a bound on the number of terms, a request can be refused: its count is not read. -/
theorem wish_refuses_huge_count :
    ¬ ∀ (build : Build) (requests : List Request),
      (∀ request ∈ requests, ∀ term ∈ request.val, term.length ≤ 64 * 1024 * 1024 - 1026) →
      ∀ stream : TcpStream, stream.Open → stream.payload <+: encodeAll requests →
        ∀ n, ∃ pilgrim, calls build (.new stream) n = some (.ok (pilgrim, .ok ())) ∧
          pilgrim.granted =
            completeWithin requests (stream.payload.length - pilgrim.stream.payload.length) := by
  intro h
  have hne : List.replicate (2 ^ 64) ([] : Bytes) ≠ [] := by
    rw [Ne, List.replicate_eq_nil_iff]
    norm_num
  obtain ⟨pilgrim, hcalls, -⟩ := h .release [⟨List.replicate (2 ^ 64) [], hne⟩]
    (by
      intro request hrequest term hterm
      rw [List.mem_singleton.mp hrequest] at hterm
      rw [List.eq_of_mem_replicate hterm]
      exact Nat.zero_le _)
    [.data 42 (ascii "18446744073709551616\r\n")] (by decide)
    (payload_huge_count List.length_replicate) 1
  have hrefused : (calls .release (.new [.data 42 (ascii "18446744073709551616\r\n")]) 1).map
      (·.map (·.2)) = some (.ok (.error .parseError)) := by decide +kernel
  rw [hcalls] at hrefused
  cases hrefused

end Heaven
