import Heaven.Egress
import Heaven.Lib.History

/-! # Clients and their connections

The decrees that egress takes are a history: a client is welcomed once, and no decree concerns a
client before its Welcome (`Greets`).  Then the stream of a client is its own: the client has it
from its Welcome to its Goodbye, and what has been written to it are the packets for the client, all
of them and in order (`tracks`). -/

namespace Heaven

def Decree.isWelcome : Decree → Bool
  | .welcome _ => true
  | _ => false

namespace Egress

variable {room : ℕ → ℕ} {e : Egress}

/-- The state of egress after the decrees. -/
def received (room : ℕ → ℕ) (decrees : List Decree) : Egress :=
  decrees.foldl (process room) start

theorem received_concat (room : ℕ → ℕ) (decrees : List Decree) (decree : Decree) :
    received room (decrees ++ [decree]) = (received room decrees).process room decree := by
  simp [received]

/-! ### Streams -/

/-- Every stream belongs to one client, and later streams are new. -/
structure Numbered (e : Egress) : Prop where
  map_lt : ∀ token stream, e.egressMap.get? token = some stream → stream < e.accepted
  log_lt : ∀ w ∈ e.log, w.stream < e.accepted
  injective : ∀ token token' stream, e.egressMap.get? token = some stream →
    e.egressMap.get? token' = some stream → token = token'

theorem start_numbered : start.Numbered where
  map_lt := by
    intro token stream h
    rw [start, Dict.get?_empty] at h
    cases h
  log_lt := fun _ h => nomatch h
  injective := by
    intro token token' stream h
    rw [start, Dict.get?_empty] at h
    cases h

theorem mem_attempts {m : Dict Token Stream} {packets : List (Token × Packet)}
    {a : Stream × Packet} (h : a ∈ attempts m packets) :
    ∃ p ∈ packets, m.get? p.1 = some a.1 ∧ p.2 = a.2 := by
  obtain ⟨p, hp, hsome⟩ := List.mem_filterMap.mp h
  obtain ⟨stream, hstream, rfl⟩ := Option.map_eq_some_iff.mp hsome
  exact ⟨p, hp, hstream, rfl⟩

theorem mem_writes {n : ℕ} {attempts : List (Stream × Packet)} {w : Write}
    (h : w ∈ writes room n attempts) : (w.stream, w.packet) ∈ attempts := by
  obtain ⟨a, ha, rfl⟩ := List.mem_map.mp h
  exact List.fst_mem_of_mem_zipIdx ha

/-- Every Welcome brings a stream. -/
theorem received_accepted (room : ℕ → ℕ) (decrees : List Decree) :
    (received room decrees).accepted = decrees.countP Decree.isWelcome := by
  induction decrees using List.reverseRecOn with
  | nil => rfl
  | append_singleton decrees decree ih =>
      rw [received_concat, process_accepted, List.countP_append, ih]
      cases decree <;> rfl

theorem accepted_le (room : ℕ → ℕ) (e : Egress) (decree : Decree) :
    e.accepted ≤ (e.process room decree).accepted := by
  rw [process_accepted]
  cases decree <;> simp

/-- A stream after a decree is an old one of the same client, or the new one of its Welcome. -/
theorem get?_process {decree : Decree} {token : Token} {stream : Stream}
    (h : (e.process room decree).egressMap.get? token = some stream) :
    (decree = .welcome token ∧ stream = e.accepted) ∨ e.egressMap.get? token = some stream := by
  rw [process_egressMap] at h
  cases decree with
  | welcome client =>
      dsimp only at h
      rw [Dict.get?_insert] at h
      split_ifs at h with hclient
      · cases h
        exact Or.inl ⟨by rw [hclient], rfl⟩
      · exact Or.inr h
  | goodbye client =>
      dsimp only at h
      rw [Dict.get?_erase] at h
      split_ifs at h
      exact Or.inr h
  | deliver gift => exact Or.inr h
  | broadcast publisher event message clients => exact Or.inr h

theorem Numbered.process (h : e.Numbered) (decree : Decree) :
    (e.process room decree).Numbered where
  map_lt := by
    intro token stream hget
    rcases get?_process hget with ⟨rfl, rfl⟩ | hold
    · exact Nat.lt_succ_self _
    · exact lt_of_lt_of_le (h.map_lt token stream hold) (accepted_le room e decree)
  log_lt := by
    intro w hw
    rw [process_log, List.mem_append] at hw
    rcases hw with hw | hw
    · exact lt_of_lt_of_le (h.log_lt w hw) (accepted_le room e decree)
    · obtain ⟨p, -, hstream, -⟩ := mem_attempts (mem_writes hw)
      exact lt_of_lt_of_le (h.map_lt p.1 w.stream hstream) (accepted_le room e decree)
  injective := by
    intro token token' stream hget hget'
    rcases get?_process hget with ⟨rfl, rfl⟩ | hold <;>
      rcases get?_process hget' with ⟨hwelcome, hstream⟩ | hold'
    · cases hwelcome
      rfl
    · exact absurd (h.map_lt token' _ hold') (Nat.lt_irrefl _)
    · subst hstream
      exact absurd (h.map_lt token _ hold) (Nat.lt_irrefl _)
    · exact h.injective token token' stream hold hold'

theorem received_numbered (room : ℕ → ℕ) (decrees : List Decree) :
    (received room decrees).Numbered := by
  induction decrees using List.reverseRecOn with
  | nil => exact start_numbered
  | append_singleton decrees decree ih =>
      rw [received_concat]
      exact ih.process decree

/-! ### The packets of a client -/

/-- The packets that the decrees hold for a client. -/
def packetsFor (client : Token) (decrees : List Decree) : List Packet :=
  (decrees.flatMap Decree.packets).filterMap fun p => if p.1 = client then some p.2 else none

theorem packetsFor_append (client : Token) (decrees decrees' : List Decree) :
    packetsFor client (decrees ++ decrees') =
      packetsFor client decrees ++ packetsFor client decrees' := by
  simp [packetsFor, List.flatMap_append, List.filterMap_append]

theorem packetsFor_eq_nil {client : Token} {decree : Decree}
    (h : ∀ p ∈ decree.packets, p.1 ≠ client) : packetsFor client [decree] = [] := by
  simp only [packetsFor, List.flatMap_singleton, List.filterMap_eq_nil_iff]
  intro p hp
  exact if_neg (h p hp)

theorem on_process (room : ℕ → ℕ) (e : Egress) (decree : Decree) (stream : Stream) :
    ((e.process room decree).on stream).map Write.packet =
      (e.on stream).map Write.packet ++
        decree.packets.filterMap fun p =>
          if e.egressMap.get? p.1 = some stream then some p.2 else none := by
  have hwrites : ∀ (n : ℕ) (packets : List (Token × Packet)),
      ((writes room n (attempts e.egressMap packets)).filter
        fun w => decide (w.stream = stream)).map Write.packet =
      packets.filterMap fun p =>
        if e.egressMap.get? p.1 = some stream then some p.2 else none := by
    intro n packets
    induction packets generalizing n with
    | nil => rfl
    | cons p packets ih =>
        rw [attempts_cons, writes_append, List.filter_append, List.map_append, ih,
          List.filterMap_cons]
        cases hget : e.egressMap.get? p.1 with
        | none => rfl
        | some stream' =>
            by_cases hstream : stream' = stream
            · subst hstream
              simp [writes, write]
            · have hne : ¬ some stream' = some stream := fun heq => hstream (Option.some.inj heq)
              simp [writes, write, hstream]
  rw [on, process_log, List.filter_append, List.map_append, hwrites]
  rfl

/-- The stream of a client is sent the packets for the client. -/
theorem on_process_client (h : e.Numbered) (decree : Decree) {client : Token} {stream : Stream}
    (hstream : e.egressMap.get? client = some stream) :
    ((e.process room decree).on stream).map Write.packet =
      (e.on stream).map Write.packet ++ packetsFor client [decree] := by
  have hiff : ∀ token, e.egressMap.get? token = some stream ↔ token = client := by
    intro token
    constructor
    · intro htoken
      exact h.injective token client stream htoken hstream
    · rintro rfl
      exact hstream
  rw [on_process]
  simp only [hiff, packetsFor, List.flatMap_singleton]

/-! ### Histories of decrees -/

/-- A client is welcomed once, and nothing concerns it before. -/
def Greets (before : List Decree) : Decree → Prop
  | .welcome token => .welcome token ∉ before
  | .goodbye token => .welcome token ∈ before
  | .deliver gift => .welcome gift.token ∈ before
  | .broadcast token _ _ clients =>
      .welcome token ∈ before ∧ ∀ client ∈ clients, .welcome client ∈ before

theorem Greets.packets {before : List Decree} {decree : Decree} (h : Greets before decree) :
    ∀ p ∈ decree.packets, .welcome p.1 ∈ before := by
  cases decree with
  | welcome token => exact fun _ hp => nomatch hp
  | goodbye token => exact fun _ hp => nomatch hp
  | deliver gift => exact List.forall_mem_singleton.mpr h
  | broadcast token event message clients =>
      rw [Decree.packets, List.forall_mem_append, List.forall_mem_singleton]
      refine ⟨?_, h.1⟩
      intro p hp
      obtain ⟨client, hclient, rfl⟩ := List.mem_map.mp hp
      exact h.2 client hclient

/-- What egress has made of the decrees for one client. -/
structure Tracks (room : ℕ → ℕ) (client : Token) (decrees : List Decree) : Prop where
  stranger : .welcome client ∉ decrees → packetsFor client decrees = []
  isSome : ((received room decrees).egressMap.get? client).isSome = true ↔
    .welcome client ∈ decrees ∧ .goodbye client ∉ decrees
  packets : ∀ stream, (received room decrees).egressMap.get? client = some stream →
    ((received room decrees).on stream).map Write.packet = packetsFor client decrees

theorem welcome_of_goodbye {decrees : List Decree} (h : Successive Greets decrees) {client : Token}
    (hgoodbye : .goodbye client ∈ decrees) : .welcome client ∈ decrees := by
  obtain ⟨pre, post, rfl⟩ := List.append_of_mem hgoodbye
  have hgreets : Greets pre (.goodbye client) := h pre _ post rfl
  exact List.mem_append_left _ hgreets

theorem packetsFor_stranger {before : List Decree} {decree : Decree} (h : Greets before decree)
    {client : Token} (hstranger : .welcome client ∉ before) :
    packetsFor client [decree] = [] := by
  apply packetsFor_eq_nil
  rintro p hp rfl
  exact hstranger (h.packets p hp)

/-- A stream that is not yet in use has been sent nothing. -/
theorem on_accepted (h : e.Numbered) : e.on e.accepted = [] := by
  rw [on, List.filter_eq_nil_iff]
  intro w hw hstream
  exact Nat.ne_of_lt (h.log_lt w hw) (of_decide_eq_true hstream)

theorem Tracks.isSome_concat {client : Token} {decrees : List Decree} {decree : Decree}
    (hdecrees : Successive Greets decrees) (h : Tracks room client decrees)
    (hgreets : Greets decrees decree) :
    ((received room (decrees ++ [decree])).egressMap.get? client).isSome = true ↔
      .welcome client ∈ decrees ++ [decree] ∧ .goodbye client ∉ decrees ++ [decree] := by
  have hold := h.isSome
  rw [received_concat, process_egressMap]
  simp only [List.mem_append, List.mem_singleton]
  cases decree with
  | welcome token =>
      rw [Dict.get?_insert]
      split_ifs with htoken
      · subst htoken
        have hgoodbye : .goodbye client ∉ decrees :=
          fun hmem => hgreets (welcome_of_goodbye hdecrees hmem)
        simp [hgoodbye]
      · simp [hold, htoken]
  | goodbye token =>
      rw [Dict.get?_erase]
      split_ifs with htoken
      · simp [htoken]
      · simp [hold, htoken]
  | deliver gift => simp [hold]
  | broadcast token event message clients => simp [hold]

/-- **A client has a stream from its Welcome to its Goodbye, and the stream is sent the packets for
the client.** -/
theorem tracks (room : ℕ → ℕ) (client : Token) {decrees : List Decree}
    (h : Successive Greets decrees) : Tracks room client decrees := by
  refine h.induction ?_ ?_
  · have hnone : (received room []).egressMap.get? client = none := Dict.get?_empty client
    refine ⟨fun _ => rfl, ?_, ?_⟩
    · rw [hnone]
      simp
    · intro stream hstream
      rw [hnone] at hstream
      cases hstream
  · intro decrees decree hdecrees hgreets ih
    refine ⟨?_, ih.isSome_concat hdecrees hgreets, ?_⟩
    · intro hstranger
      rw [List.mem_append, not_or] at hstranger
      rw [packetsFor_append, ih.stranger hstranger.1, packetsFor_stranger hgreets hstranger.1]
      rfl
    · intro stream hstream
      rw [received_concat] at hstream ⊢
      have hnumbered := received_numbered room decrees
      rw [packetsFor_append]
      rcases get?_process hstream with ⟨rfl, rfl⟩ | hold
      · have hpackets : packetsFor client decrees = [] := ih.stranger hgreets
        rw [on_process, on_accepted hnumbered, hpackets]
        rfl
      · rw [on_process_client hnumbered decree hold, ih.packets stream hold]

end Egress

end Heaven
