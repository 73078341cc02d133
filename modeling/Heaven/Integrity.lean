import Heaven.Connections
import Mathlib.Data.List.TakeWhile

/-! # Byte integrity

What a connection is owed follows from the decrees alone.  The `n`-th Welcome opens the connection
`n`, and the frames for it are the packets that the decrees hold for its client from then on, up to
the next Goodbye or Welcome of the client (`lifetime`).  Over all connections these are the
`frames`, in the order of the decrees.  Egress writes exactly these (`received_log`, `on_lifetime`).

When a write fails, egress keeps the stream and goes on writing to it.  So whether a connection sees
bytes behind a truncated frame depends on whether a frame for it comes behind one that its socket
has not taken (`intact_iff`). -/

namespace Heaven

open Decimal (ascii)

/-! ### What the decrees hold for a connection -/

/-- After the decree the client does not have the connection any more that it had before. -/
def Decree.parts (client : Token) : Decree → Bool
  | .welcome token => decide (token = client)
  | .goodbye token => decide (token = client)
  | _ => false

theorem Decree.packets_of_parts {client : Token} {decree : Decree}
    (h : decree.parts client = true) :
    decree.packets = [] := by
  cases decree with
  | welcome token => rfl
  | goodbye token => rfl
  | deliver gift => cases h
  | broadcast token event message clients => cases h

namespace Egress

/-- The number of the next connection: how many the decrees open. -/
def opened (decrees : List Decree) : Stream := decrees.countP Decree.isWelcome

/-- Of the decrees after the Welcome of a client, those that come while its connection lasts. -/
def lifetime (client : Token) (after : List Decree) : List Decree :=
  after.takeWhile fun decree => !decree.parts client

/-- The connection of a client after the decrees, the latest first. -/
def connectionOf (client : Token) : List Decree → Option Stream
  | [] => none
  | .welcome token :: earlier =>
      if client = token then some (opened earlier) else connectionOf client earlier
  | .goodbye token :: earlier => if client = token then none else connectionOf client earlier
  | .deliver _ :: earlier => connectionOf client earlier
  | .broadcast _ _ _ _ :: earlier => connectionOf client earlier

/-- The frames that the decrees, the latest first, hold for the connections. -/
def frames : List Decree → List (Stream × Packet)
  | [] => []
  | decree :: earlier =>
      frames earlier ++ decree.packets.filterMap fun p => (connectionOf p.1 earlier).map (·, p.2)

/-- The same, numbered. -/
def numbered (decrees : List Decree) : List ((Stream × Packet) × ℕ) :=
  (frames decrees.reverse).zipIdx

/-! ### Egress writes the frames -/

section Frames

variable (room : ℕ → ℕ)

theorem received_egressMap (decrees : List Decree) (client : Token) :
    (received room decrees).egressMap.get? client = connectionOf client decrees.reverse := by
  induction decrees using List.reverseRecOn with
  | nil => exact Dict.get?_empty client
  | append_singleton decrees decree ih =>
      rw [received_concat, process_egressMap, List.reverse_append, List.reverse_singleton,
        List.singleton_append]
      cases decree with
      | welcome token =>
          have hopened : opened decrees.reverse = opened decrees := List.countP_reverse
          rw [Dict.get?_insert, connectionOf, ih, hopened, received_accepted, opened]
      | goodbye token => rw [Dict.get?_erase, connectionOf, ih]
      | deliver gift => exact ih
      | broadcast token event message clients => exact ih

/-- **The log of egress consists of the frames of the decrees, in order.** -/
theorem received_log (decrees : List Decree) :
    (received room decrees).log = writes room 0 (frames decrees.reverse) := by
  induction decrees using List.reverseRecOn with
  | nil => rfl
  | append_singleton decrees decree ih =>
      have hattempts : attempts (received room decrees).egressMap decree.packets =
          decree.packets.filterMap fun p => (connectionOf p.1 decrees.reverse).map (·, p.2) := by
        simp only [attempts, received_egressMap]
      rw [received_concat, process_log, ih, hattempts, List.reverse_append,
        List.reverse_singleton, List.singleton_append, frames, writes_append, length_writes,
        Nat.zero_add]

end Frames

/-! ### The frames of a connection -/

section Lifetime

variable {client : Token} {after : List Decree}

/-- The connection of the client lasts. -/
def Lasts (client : Token) (after : List Decree) : Prop :=
  ∀ decree ∈ after, decree.parts client = false

theorem lasts_concat {decree : Decree} :
    Lasts client (after ++ [decree]) ↔ Lasts client after ∧ decree.parts client = false := by
  rw [Lasts, List.forall_mem_append, List.forall_mem_singleton]
  rfl

theorem lifetime_of_lasts (h : Lasts client after) : lifetime client after = after := by
  apply List.takeWhile_eq_self_iff.mpr
  intro decree hdecree
  rw [h decree hdecree]
  rfl

theorem lifetime_concat_of_lasts (h : Lasts client after) (decree : Decree) :
    lifetime client (after ++ [decree]) =
      after ++ if decree.parts client = true then [] else [decree] := by
  have hafter : ∀ d ∈ after, (!d.parts client) = true := by
    intro d hd
    rw [h d hd]
    rfl
  rw [lifetime, List.takeWhile_append_of_pos hafter, List.takeWhile_cons]
  cases decree.parts client <;> rfl

theorem lifetime_concat_of_not_lasts (h : ¬ Lasts client after) (decree : Decree) :
    lifetime client (after ++ [decree]) = lifetime client after := by
  rw [lifetime, List.takeWhile_append, if_neg]
  · rfl
  · intro hlength
    have hself : lifetime client after = after :=
      (List.takeWhile_prefix _).eq_of_length hlength
    apply h
    intro d hd
    have hkept := List.takeWhile_eq_self_iff.mp hself d hd
    simpa using hkept

/-- What egress has made of the connection that a Welcome has opened. -/
structure Serves (room : ℕ → ℕ) (before : List Decree) (client : Token) (after : List Decree) :
    Prop where
  holder : ∀ token, (received room (before ++ .welcome client :: after)).egressMap.get? token =
    some (opened before) ↔ token = client ∧ Lasts client after
  packets : ((received room (before ++ .welcome client :: after)).on (opened before)).map
    Write.packet = packetsFor client (lifetime client after)

theorem serves_nil (room : ℕ → ℕ) (before : List Decree) (client : Token) :
    Serves room before client [] := by
  have hnumbered := received_numbered room before
  have haccepted : _ = opened before := received_accepted room before
  refine ⟨?_, ?_⟩
  · intro token
    rw [received_concat, process_egressMap]
    dsimp only
    rw [Dict.get?_insert, haccepted]
    split_ifs with htoken
    · exact iff_of_true rfl ⟨htoken, fun _ h => absurd h List.not_mem_nil⟩
    · apply iff_of_false
      · intro hold
        have hlt := hnumbered.map_lt token _ hold
        rw [haccepted] at hlt
        exact absurd hlt (Nat.lt_irrefl _)
      · exact fun h => htoken h.1
  · rw [received_concat, on_process, ← haccepted, on_accepted hnumbered]
    rfl

/-- The step lemma. -/
theorem Serves.concat {room : ℕ → ℕ} {before : List Decree} (h : Serves room before client after)
    (decree : Decree) : Serves room before client (after ++ [decree]) := by
  have hsplit : before ++ .welcome client :: (after ++ [decree]) =
      (before ++ .welcome client :: after) ++ [decree] := by
    rw [List.append_assoc, List.cons_append]
  have hnew : opened before < (received room (before ++ .welcome client :: after)).accepted := by
    have hwelcome : (Decree.welcome client).isWelcome = true := rfl
    rw [received_accepted, opened, List.countP_append, List.countP_cons, if_pos hwelcome]
    exact Nat.lt_add_of_pos_right (Nat.succ_pos _)
  refine ⟨?_, ?_⟩
  · intro token
    have hholder := h.holder token
    rw [hsplit, received_concat, process_egressMap, lasts_concat]
    -- a client that is not the one of a Welcome or Goodbye keeps its stream
    have hapart : ∀ other, token ≠ other →
        ((received room (before ++ .welcome client :: after)).egressMap.get? token =
            some (opened before) ↔ token = client ∧ Lasts client after ∧ ¬ other = client) := by
      intro other htoken
      rw [hholder]
      constructor
      · rintro ⟨rfl, hlasts⟩
        exact ⟨rfl, hlasts, Ne.symm htoken⟩
      · rintro ⟨rfl, hlasts, -⟩
        exact ⟨rfl, hlasts⟩
    cases decree with
    | welcome other =>
        dsimp only [Decree.parts]
        rw [Dict.get?_insert, decide_eq_false_iff_not]
        split_ifs with htoken
        · -- the new stream is another one
          apply iff_of_false
          · intro hsome
            exact Nat.ne_of_gt hnew (Option.some.inj hsome)
          · rintro ⟨rfl, -, hother⟩
            exact hother htoken.symm
        · exact hapart other htoken
    | goodbye other =>
        dsimp only [Decree.parts]
        rw [Dict.get?_erase, decide_eq_false_iff_not]
        split_ifs with htoken
        · apply iff_of_false
          · intro hnone
            cases hnone
          · rintro ⟨rfl, -, hother⟩
            exact hother htoken.symm
        · exact hapart other htoken
    | deliver gift => simpa [Decree.parts] using hholder
    | broadcast publisher event message clients => simpa [Decree.parts] using hholder
  · have hpackets := h.packets
    rw [hsplit, received_concat, on_process, hpackets]
    by_cases hlasts : Lasts client after
    · have hclient : ∀ token, (received room (before ++ .welcome client :: after)).egressMap.get?
          token = some (opened before) ↔ token = client :=
        fun token => (h.holder token).trans (and_iff_left hlasts)
      rw [lifetime_concat_of_lasts hlasts, lifetime_of_lasts hlasts, packetsFor_append]
      simp only [hclient]
      cases hparts : decree.parts client with
      | true =>
          rw [Decree.packets_of_parts hparts]
          rfl
      | false => simp [packetsFor]
    · have hnone : ∀ token, ¬ (received room (before ++ .welcome client :: after)).egressMap.get?
          token = some (opened before) :=
        fun token hsome => hlasts ((h.holder token).mp hsome).2
      rw [lifetime_concat_of_not_lasts hlasts]
      simp [hnone]

/-- **Egress writes to the stream of a Welcome the packets for its client, from the Welcome on and
as long as the client has the stream.** -/
theorem serves (room : ℕ → ℕ) (before : List Decree) (client : Token) (after : List Decree) :
    Serves room before client after := by
  induction after using List.reverseRecOn with
  | nil => exact serves_nil room before client
  | append_singleton after decree ih => exact ih.concat decree

end Lifetime

/-! ### Which runs leave the connections intact -/

/-- After the first write fails, the second sends nothing. -/
def Silent (w w' : Write) : Prop := w.stream = w'.stream → w.Failed → w'.sent = 0

/-- Each connection has been sent an initial part of its frames, and nothing after a write that has
failed. -/
structure Intact (room : ℕ → ℕ) (decrees : List Decree) : Prop where
  initial : ∀ before client after, decrees = before ++ .welcome client :: after →
    (received room decrees).sentOn (opened before) <+:
      (packetsFor client (lifetime client after)).flatMap Packet.bytes
  silent : (received room decrees).log.Pairwise Silent

theorem flatMap_onWire_initial {log : List Write}
    (h : log.Pairwise fun w w' => w.Failed → w'.sent = 0) :
    log.flatMap Write.onWire <+: (log.map Write.packet).flatMap Packet.bytes := by
  induction log with
  | nil => exact List.prefix_rfl
  | cons w log ih =>
      rw [List.pairwise_cons] at h
      rw [List.flatMap_cons, List.map_cons, List.flatMap_cons]
      by_cases hfailed : w.Failed
      · have hrest : log.flatMap Write.onWire = [] := by
          rw [List.flatMap_eq_nil_iff]
          intro w' hw'
          rw [Write.onWire, h.1 w' hw' hfailed, List.take_zero]
        rw [hrest, List.append_nil]
        exact (List.take_prefix _ _).trans (List.prefix_append _ _)
      · have hwhole : w.onWire = w.packet.bytes := List.take_of_length_le (not_lt.mp hfailed)
        rw [hwhole]
        exact (List.prefix_append_right_inj _).mpr (ih h.2)

theorem intact_iff_silent (room : ℕ → ℕ) (decrees : List Decree) :
    Intact room decrees ↔ (received room decrees).log.Pairwise Silent := by
  constructor
  · exact Intact.silent
  · intro h
    refine ⟨?_, h⟩
    intro before client after hsplit
    have hpackets := (serves room before client after).packets
    rw [← hsplit] at hpackets
    rw [← hpackets]
    apply flatMap_onWire_initial
    have hfilter := h.filter fun w => decide (w.stream = opened before)
    refine hfilter.imp_of_mem ?_
    intro w w' hw hw' hsilent
    have hstream : w.stream = opened before := of_decide_eq_true (List.mem_filter.mp hw).2
    have hstream' : w'.stream = opened before := of_decide_eq_true (List.mem_filter.mp hw').2
    exact hsilent (hstream.trans hstream'.symm)

/-- The socket does not take the whole frame. -/
def Short (room : ℕ → ℕ) (a : (Stream × Packet) × ℕ) : Prop := room a.2 < a.1.2.bytes.length

/-- The socket takes bytes of the frame. -/
def Takes (room : ℕ → ℕ) (a : (Stream × Packet) × ℕ) : Prop :=
  0 < room a.2 ∧ a.1.2.bytes ≠ []

/-- Behind a frame that its socket does not take whole, the decrees hold no frame for the connection
of which the socket takes bytes. -/
def Spares (room : ℕ → ℕ) (decrees : List Decree) : Prop :=
  (numbered decrees).Pairwise fun a a' => a.1.1 = a'.1.1 → Short room a → ¬ Takes room a'

theorem write_sent_eq_zero (room : ℕ → ℕ) (a : (Stream × Packet) × ℕ) :
    (write room a.2 a.1.1 a.1.2).sent = 0 ↔ ¬ Takes room a := by
  have hnil : a.1.2.bytes ≠ [] ↔ 0 < a.1.2.bytes.length := List.length_pos_iff.symm
  unfold Takes
  rw [hnil]
  show min (room a.2) a.1.2.bytes.length = 0 ↔ _
  omega

theorem silent_iff_spares (room : ℕ → ℕ) (decrees : List Decree) :
    (received room decrees).log.Pairwise Silent ↔ Spares room decrees := by
  rw [received_log, writes, List.pairwise_map]
  apply Iff.of_eq
  unfold Spares numbered
  congr 1
  funext a a'
  apply propext
  show (a.1.1 = a'.1.1 → (write room a.2 a.1.1 a.1.2).Failed →
    (write room a'.2 a'.1.1 a'.1.2).sent = 0) ↔ _
  rw [write_failed, write_sent_eq_zero]
  rfl

theorem frames_initial (decrees later : List Decree) :
    frames decrees.reverse <+: frames (decrees ++ later).reverse := by
  induction later using List.reverseRecOn with
  | nil => rw [List.append_nil]
  | append_singleton later decree ih =>
      rw [← List.append_assoc, List.reverse_append, List.reverse_singleton,
        List.singleton_append, frames]
      exact ih.trans (List.prefix_append _ _)

theorem Spares.initial {room : ℕ → ℕ} {decrees decrees' : List Decree}
    (h : Spares room decrees) (hinitial : decrees' <+: decrees) : Spares room decrees' := by
  obtain ⟨later, rfl⟩ := hinitial
  obtain ⟨more, hmore⟩ := frames_initial decrees' later
  rw [Spares, numbered, ← hmore, List.zipIdx_append, List.pairwise_append] at h
  exact h.1

end Egress

/-- **In every state of a run each connection has been sent an initial part of its frames, and
nothing behind a failed write, if and only if** the decrees hold no frame for a connection of which
its socket takes bytes, behind one that it has not taken whole. -/
theorem intact_iff (room : ℕ → ℕ) (decrees : List Decree) :
    (∀ received, received <+: decrees → Egress.Intact room received) ↔
      Egress.Spares room decrees := by
  constructor
  · intro h
    exact (Egress.silent_iff_spares room decrees).mp (h decrees List.prefix_rfl).silent
  · intro h received hreceived
    exact (Egress.intact_iff_silent room received).mpr
      ((Egress.silent_iff_spares room received).mpr (h.initial hreceived))

/-- The socket of client 1 takes two bytes of a bulk string, and then all of an OK. -/
theorem reply_behind_truncated :
    ¬ ∀ (room : ℕ → ℕ) (decrees : List Decree), Egress.Intact room decrees := by
  intro h
  have hintact := h (fun n => if n = 0 then 2 else 100)
    [.welcome 1, .deliver ⟨1, .bulkString (some (ascii "abc"))⟩, .deliver ⟨1, .info .ok⟩]
  have hinitial : ascii "$3+OK\r\n" <+: ascii "$3\r\nabc\r\n+OK\r\n" :=
    hintact.initial [] 1 _ rfl
  exact absurd hinitial (by decide)

end Heaven
