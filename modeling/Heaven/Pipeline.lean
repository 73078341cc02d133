import Mathlib.Data.List.Pairwise
import Mathlib.Logic.Function.Basic
import Heaven.Lib.Runs
import Heaven.Routes
import Heaven.Safety
import Heaven.Wish

/-! # The order of replies

The parties between a client and its replies: the worker that grants the client's commands, the
temple's thread and the egress thread.  They exchange messages over two FIFO channels, to the
temple (`wishes`) and to egress (`decrees`); a decree reaches egress from the worker or from the
temple.  A client has one worker at a time, since its pilgrim is taken out of the ingress map
while a call of `wish` is running, so its commands are granted in the order in which they are
sent.  Every step of every party may come at any time.

A message is tagged with its client and with the place of its command in the client's input.
`repliesInOrder_iff` says for which inputs the replies keep their order in every interleaving:
those where a command that goes to the temple is not followed by a command that the worker
answers, nor by the end of the input. -/

namespace Heaven

open Decimal (ascii)
open Runs

/-! ### The parties -/

/-- What a worker finds in the input of its client. -/
inductive Input where
  | command (request : Request)
  | endOfInput
deriving DecidableEq

/-- What a client sends: commands, and perhaps the end of its input. -/
structure Script where
  commands : List Request
  ends : Bool

def Script.inputs (script : Script) : List Input :=
  script.commands.map .command ++ if script.ends then [.endOfInput] else []

/-- The messages of the worker; the end of the input makes `wish` fail, and the worker says goodbye
to egress. -/
def Input.emissions (token : Token) (clock : SystemTime) : Input → List Emission
  | .command request => grant request.val request.property clock token
  | .endOfInput => [.toEgress (.goodbye token)]

/-- A message, with the client and the place of the input that it belongs to. -/
structure Sent (α : Type) where
  token : Token
  place : ℕ
  message : α

/-- A client and its worker. -/
structure Client where
  /-- What is still to be taken from the input. -/
  inputs : List Input
  place : ℕ
  /-- The messages of the last input that are still to be sent. -/
  outbox : List (ℕ × Emission)

structure Pipeline where
  clients : Token → Client
  /-- `none` after a panic of the temple's thread. -/
  temple : Option Temple
  wishes : List (Sent Wish)
  decrees : List (Sent Decree)
  processed : List (Sent Decree)

inductive Action where
  /-- The worker of the client takes the next input. -/
  | take (token : Token) (clock : SystemTime)
  /-- The worker of the client sends a message. -/
  | send (token : Token)
  /-- The temple takes a wish. -/
  | turn
  /-- Egress takes a decree. -/
  | process

namespace Pipeline

def start (temple : Temple) (scripts : Token → Script) : Pipeline where
  clients token := ⟨(scripts token).inputs, 0, []⟩
  temple := some temple
  wishes := []
  decrees := []
  processed := []

def setClient (s : Pipeline) (token : Token) (client : Client) : Pipeline :=
  { s with clients := Function.update s.clients token client }

/-- A message of a worker goes into the channel of its receiver. -/
def post (s : Pipeline) (token : Token) : ℕ × Emission → Pipeline
  | (place, .toTemple wish) => { s with wishes := s.wishes ++ [⟨token, place, wish⟩] }
  | (place, .toEgress decree) => { s with decrees := s.decrees ++ [⟨token, place, decree⟩] }

/-- A step of a party; an error means that the party has nothing to do. -/
def step (s : Pipeline) : Action → Except Unit Pipeline
  | .take token clock =>
      match s.clients token with
      | ⟨input :: inputs, place, []⟩ =>
          .ok (s.setClient token
            ⟨inputs, place + 1, (input.emissions token clock).map (place, ·)⟩)
      | _ => .error ()
  | .send token =>
      match s.clients token with
      | ⟨inputs, place, emission :: outbox⟩ =>
          .ok ((s.setClient token ⟨inputs, place, outbox⟩).post token emission)
      | _ => .error ()
  | .turn =>
      match s.temple, s.wishes with
      | some temple, wish :: wishes =>
          match temple.turn wish.message with
          | (temple, .ok decree) =>
              .ok { s with
                temple := some temple
                wishes
                decrees := s.decrees ++ [⟨wish.token, wish.place, decree⟩] }
          | (_, .error _) => .ok { s with temple := none, wishes }
      | _, _ => .error ()
  | .process =>
      match s.decrees with
      | decree :: decrees => .ok { s with decrees, processed := s.processed ++ [decree] }
      | [] => .error ()

end Pipeline

/-! ### Order -/

/-- The places of the messages that belong to a client. -/
def placesOf {α : Type} (token : Token) (messages : List (Sent α)) : List ℕ :=
  (messages.filter fun m => decide (m.token = token)).map (·.place)

namespace Pipeline

/-- The places of the messages of a client that are on their way, from the nearest to egress to
the farthest. -/
def inFlight (s : Pipeline) (token : Token) : List ℕ :=
  placesOf token s.decrees ++ placesOf token s.wishes ++ (s.clients token).outbox.map (·.1)

/-- Egress has processed the replies to the client's commands in the order of the commands, and the
goodbye, if it has, after the replies to all commands before it. -/
structure InOrder (token : Token) (s : Pipeline) : Prop where
  replies : (placesOf token s.processed).Pairwise (· ≤ ·)
  goodbye : ∀ m ∈ s.processed, m.token = token → m.message = .goodbye token →
    ∀ place ∈ s.inFlight token, m.place ≤ place

end Pipeline

/-- The input is sent to the temple. -/
def Input.Routed : Input → Prop
  | .command request => GoesToTemple request.val request.property
  | .endOfInput => False

/-- The worker sends a decree of its own for the input. -/
def Input.Direct : Input → Prop
  | .command request => AnsweredByWorker request.val request.property
  | .endOfInput => True

instance (input : Input) : Decidable input.Routed := by
  cases input with
  | command request => exact inferInstanceAs (Decidable (GoesToTemple _ _))
  | endOfInput => exact inferInstanceAs (Decidable False)

instance (input : Input) : Decidable input.Direct := by
  cases input with
  | command request => exact inferInstanceAs (Decidable (AnsweredByWorker _ _))
  | endOfInput => exact inferInstanceAs (Decidable True)

/-- Nothing that the worker answers follows something that goes to the temple. -/
def RoutedLast (inputs : List Input) : Prop :=
  inputs.Pairwise fun earlier later => earlier.Routed → ¬ later.Direct

instance (inputs : List Input) : Decidable (RoutedLast inputs) :=
  inferInstanceAs (Decidable (List.Pairwise _ _))

theorem routed_of_mem {input : Input} {token : Token} {clock : SystemTime} {wish : Wish}
    (h : Emission.toTemple wish ∈ input.emissions token clock) : input.Routed := by
  cases input with
  | command request => exact (toTemple_iff _ _ clock token).mp ⟨wish, h⟩
  | endOfInput => cases List.mem_singleton.mp h

theorem direct_of_mem {input : Input} {token : Token} {clock : SystemTime} {decree : Decree}
    (h : Emission.toEgress decree ∈ input.emissions token clock) : input.Direct := by
  cases input with
  | command request => exact (toEgress_iff _ _ clock token).mp ⟨decree, h⟩
  | endOfInput => trivial

/-! ### Places -/

section Places

variable {α : Type} {token : Token}

theorem placesOf_append (messages messages' : List (Sent α)) :
    placesOf token (messages ++ messages') =
      placesOf token messages ++ placesOf token messages' := by
  rw [placesOf, List.filter_append, List.map_append]
  rfl

theorem placesOf_cons_self {m : Sent α} (h : m.token = token) (messages : List (Sent α)) :
    placesOf token (m :: messages) = m.place :: placesOf token messages := by
  rw [placesOf, List.filter_cons_of_pos (by simp [h])]
  rfl

theorem placesOf_cons_ne {m : Sent α} (h : m.token ≠ token) (messages : List (Sent α)) :
    placesOf token (m :: messages) = placesOf token messages := by
  rw [placesOf, List.filter_cons_of_neg (by simp [h])]
  rfl

theorem placesOf_singleton (m : Sent α) :
    placesOf token [m] = if m.token = token then [m.place] else [] := by
  by_cases h : m.token = token
  · rw [if_pos h, placesOf_cons_self h]
    rfl
  · rw [if_neg h, placesOf_cons_ne h]
    rfl

theorem mem_placesOf {place : ℕ} {messages : List (Sent α)} :
    place ∈ placesOf token messages ↔ ∃ m ∈ messages, m.token = token ∧ m.place = place := by
  simp [placesOf, and_assoc]

end Places

/-- Values that equal a later one can be moved behind it. -/
theorem append_cons_comm {k : ℕ} {xs ys : List ℕ} (h : ∀ x ∈ xs, x = k) :
    xs ++ k :: ys = k :: (xs ++ ys) := by
  induction xs with
  | nil => rfl
  | cons x xs ih =>
      rw [List.forall_mem_cons] at h
      rw [List.cons_append, ih h.2, h.1]
      rfl

namespace Pipeline

variable {s s' : Pipeline} {token : Token} {inputs : List Input}

@[simp] theorem setClient_self (s : Pipeline) (token : Token) (client : Client) :
    (s.setClient token client).clients token = client := Function.update_self ..

theorem setClient_ne (s : Pipeline) {token token' : Token} (h : token' ≠ token)
    (client : Client) : (s.setClient token client).clients token' = s.clients token' :=
  Function.update_of_ne h ..

@[simp] theorem post_clients (s : Pipeline) (token : Token) (emission : ℕ × Emission) :
    (s.post token emission).clients = s.clients := by
  obtain ⟨place, wish | decree⟩ := emission
  · rfl
  · rfl

/-- All messages of a client, in the order in which egress would take them. -/
def flow (s : Pipeline) (token : Token) : List ℕ := placesOf token s.processed ++ s.inFlight token

/-- The invariant, for one client: its messages are in the order of its input, and what the temple
has been sent belongs to routed inputs. -/
structure Orderly (inputs : List Input) (token : Token) (s : Pipeline) : Prop where
  rest : (s.clients token).inputs = inputs.drop (s.clients token).place
  outbox : ∀ m ∈ (s.clients token).outbox, ∃ clock input,
    inputs[m.1]? = some input ∧ m.2 ∈ input.emissions token clock
  wishes : ∀ m ∈ s.wishes, m.token = token →
    ∃ input, inputs[m.place]? = some input ∧ input.Routed
  bound : ∀ place ∈ s.flow token, place < (s.clients token).place
  sorted : (s.flow token).Pairwise (· ≤ ·)

theorem Orderly.inOrder (h : Orderly inputs token s) : InOrder token s := by
  obtain ⟨hprocessed, -, hcross⟩ := List.pairwise_append.mp h.sorted
  refine ⟨hprocessed, ?_⟩
  intro m hm htoken _ place hplace
  have hmem : m.place ∈ placesOf token s.processed := mem_placesOf.mpr ⟨m, hm, htoken, rfl⟩
  exact hcross m.place hmem place hplace

theorem orderly_start (temple : Temple) (scripts : Token → Script) (token : Token) :
    Orderly (scripts token).inputs token (start temple scripts) where
  rest := rfl
  outbox := fun _ hm => nomatch hm
  wishes := fun _ hm => nomatch hm
  bound := fun _ hm => nomatch hm
  sorted := .nil

/-- A step that leaves the input of the client alone, and moves or loses messages. -/
theorem Orderly.of_flow (h : Orderly inputs token s)
    (hinputs : (s'.clients token).inputs = (s.clients token).inputs)
    (hplace : (s'.clients token).place = (s.clients token).place)
    (houtbox : (s'.clients token).outbox ⊆ (s.clients token).outbox)
    (hwishes : ∀ m ∈ s'.wishes, m.token = token →
      ∃ input, inputs[m.place]? = some input ∧ input.Routed)
    (hflow : (s'.flow token).Sublist (s.flow token)) : Orderly inputs token s' where
  rest := by rw [hinputs, hplace, h.rest]
  outbox := fun m hm => h.outbox m (houtbox hm)
  wishes := hwishes
  bound := fun place hm => by
    rw [hplace]
    exact h.bound place (hflow.subset hm)
  sorted := h.sorted.sublist hflow

/-- A step that leaves the client alone altogether. -/
theorem Orderly.of_client (h : Orderly inputs token s)
    (hclient : s'.clients token = s.clients token)
    (hwishes : ∀ m ∈ s'.wishes, m.token = token →
      ∃ input, inputs[m.place]? = some input ∧ input.Routed)
    (hflow : (s'.flow token).Sublist (s.flow token)) : Orderly inputs token s' := by
  refine h.of_flow ?_ ?_ ?_ hwishes hflow
  · rw [hclient]
  · rw [hclient]
  · rw [hclient]
    exact List.Subset.refl _

/-- The client takes an input; its messages come last. -/
theorem Orderly.take (h : Orderly inputs token s) {input : Input} {rest : List Input}
    {place : ℕ} (clock : SystemTime) (hclient : s.clients token = ⟨input :: rest, place, []⟩) :
    Orderly inputs token (s.setClient token
      ⟨rest, place + 1, (input.emissions token clock).map (place, ·)⟩) := by
  have hrest := h.rest
  have hbound := h.bound
  rw [hclient] at hrest hbound
  have hinput : inputs[place]? = some input := by
    rw [← List.head?_drop, ← hrest]
    rfl
  have hflow : (s.setClient token
      ⟨rest, place + 1, (input.emissions token clock).map (place, ·)⟩).flow token =
        s.flow token ++ (input.emissions token clock).map fun _ => place := by
    simp only [flow, inFlight, setClient_self, hclient, List.map_map, List.map_nil,
      List.append_nil, List.append_assoc]
    rfl
  refine ⟨?_, ?_, h.wishes, ?_, ?_⟩
  · rw [setClient_self, ← List.drop_drop, ← hrest]
    rfl
  · rw [setClient_self]
    intro m hm
    obtain ⟨emission, hemission, rfl⟩ := List.mem_map.mp hm
    exact ⟨clock, input, hinput, hemission⟩
  · rw [setClient_self, hflow]
    intro k hk
    rcases List.mem_append.mp hk with hk | hk
    · exact Nat.lt_succ_of_lt (hbound k hk)
    · obtain ⟨-, -, rfl⟩ := List.mem_map.mp hk
      exact Nat.lt_succ_self _
  · rw [hflow, List.pairwise_append]
    refine ⟨h.sorted, ?_, ?_⟩
    · rw [List.pairwise_map]
      exact List.pairwise_of_forall fun _ _ => Nat.le_refl _
    · intro k hk k' hk'
      obtain ⟨-, -, rfl⟩ := List.mem_map.mp hk'
      exact Nat.le_of_lt (hbound k hk)

/-- The client sends a message.  A decree overtakes no wish of the client, since nothing before it
has gone to the temple. -/
theorem Orderly.send (h : Orderly inputs token s) (hlast : RoutedLast inputs)
    {rest : List Input} {place k : ℕ} {emission : Emission} {outbox : List (ℕ × Emission)}
    (hclient : s.clients token = ⟨rest, place, (k, emission) :: outbox⟩) :
    Orderly inputs token ((s.setClient token ⟨rest, place, outbox⟩).post token (k, emission)) := by
  have hfirst : (k, emission) ∈ (s.clients token).outbox := by
    rw [hclient]
    exact List.mem_cons_self
  obtain ⟨clock, input, hinput, hemission⟩ := h.outbox (k, emission) hfirst
  have hflow : s.flow token = placesOf token s.processed ++ (placesOf token s.decrees ++
      (placesOf token s.wishes ++ k :: outbox.map (·.1))) := by
    simp only [flow, inFlight, hclient, List.append_assoc, List.map_cons]
  apply h.of_flow
  · simp only [post_clients, setClient_self, hclient]
  · simp only [post_clients, setClient_self, hclient]
  · simp only [post_clients, setClient_self, hclient, List.subset_cons_self]
  · cases emission with
    | toTemple wish =>
        intro m hm htoken
        rcases List.mem_append.mp hm with hm | hm
        · exact h.wishes m hm htoken
        · cases List.mem_singleton.mp hm
          exact ⟨input, hinput, routed_of_mem hemission⟩
    | toEgress decree => exact h.wishes
  · cases emission with
    | toTemple wish =>
        rw [hflow]
        simp only [flow, inFlight, post, setClient_self, placesOf_append, List.append_assoc]
        simp only [setClient, placesOf_cons_self, List.cons_append]
        exact List.Sublist.refl _
    | toEgress decree =>
        have hsame : ∀ k' ∈ placesOf token s.wishes, k' = k := by
          intro k' hk'
          obtain ⟨m, hm, htoken, rfl⟩ := mem_placesOf.mp hk'
          obtain ⟨earlier, hearlier, hrouted⟩ := h.wishes m hm htoken
          have hle : m.place ≤ k := by
            have hsorted := h.sorted
            rw [hflow] at hsorted
            have hchannels := (List.pairwise_append.mp hsorted).2.1
            have hbehind := (List.pairwise_append.mp hchannels).2.1
            have hcross := (List.pairwise_append.mp hbehind).2.2
            exact hcross m.place hk' k List.mem_cons_self
          by_contra hne
          obtain ⟨hi, rfl⟩ := List.getElem?_eq_some_iff.mp hearlier
          obtain ⟨hj, rfl⟩ := List.getElem?_eq_some_iff.mp hinput
          have hlt : m.place < k := by omega
          have hindirect := List.pairwise_iff_getElem.mp hlast m.place k hi hj hlt hrouted
          exact hindirect (direct_of_mem hemission)
        rw [hflow, append_cons_comm hsame]
        simp only [flow, inFlight, post, setClient_self, placesOf_append, List.append_assoc]
        simp only [setClient, placesOf_cons_self, List.cons_append]
        exact List.Sublist.refl _

/-- The worker of another client sends a message. -/
theorem Orderly.post_ne (h : Orderly inputs token s) {token' : Token} (hne : token ≠ token')
    (emission : ℕ × Emission) (client : Client) :
    Orderly inputs token ((s.setClient token' client).post token' emission) := by
  have hclient : ((s.setClient token' client).post token' emission).clients token =
      s.clients token := by
    rw [post_clients]
    exact s.setClient_ne hne client
  apply h.of_client hclient
  · obtain ⟨k, decree | wish⟩ := emission
    · exact h.wishes
    · intro m hm htoken
      rcases List.mem_append.mp hm with hm | hm
      · exact h.wishes m hm htoken
      · cases List.mem_singleton.mp hm
        exact absurd htoken.symm hne
  · unfold flow inFlight
    rw [hclient]
    obtain ⟨k, decree | wish⟩ := emission
    all_goals
      simp only [post, setClient, placesOf_append, placesOf_singleton, if_neg hne.symm,
        List.append_nil]
      exact List.Sublist.refl _

/-- The temple has taken a wish: its decree is behind the others, or it has panicked. -/
theorem Orderly.turn (h : Orderly inputs token s) {wish : Sent Wish} {wishes : List (Sent Wish)}
    (hwishes : s.wishes = wish :: wishes) (temple : Temple) (decree : Decree) :
    Orderly inputs token { s with
        temple := some temple
        wishes
        decrees := s.decrees ++ [⟨wish.token, wish.place, decree⟩] } ∧
      Orderly inputs token { s with temple := none, wishes } := by
  have hrouted : ∀ m ∈ wishes, m.token = token →
      ∃ input, inputs[m.place]? = some input ∧ input.Routed := by
    intro m hm
    apply h.wishes m
    rw [hwishes]
    exact List.mem_cons_of_mem _ hm
  have hsplit : s.wishes = [wish] ++ wishes := hwishes
  have hflow : s.flow token = placesOf token s.processed ++ (placesOf token s.decrees ++
      (placesOf token [wish] ++
        (placesOf token wishes ++ (s.clients token).outbox.map (·.1)))) := by
    simp only [flow, inFlight, hsplit, placesOf_append, List.append_assoc]
  -- the decree has the place of the wish
  have hsame : placesOf token [(⟨wish.token, wish.place, decree⟩ : Sent Decree)] =
      placesOf token [wish] := by
    rw [placesOf_singleton, placesOf_singleton]
  constructor
  · refine h.of_client rfl hrouted ?_
    rw [hflow]
    simp only [flow, inFlight, placesOf_append, hsame, List.append_assoc]
    exact List.Sublist.refl _
  · refine h.of_client rfl hrouted ?_
    rw [hflow]
    simp only [flow, inFlight, List.append_assoc]
    have hdrop := List.sublist_append_right (placesOf token [wish])
      (placesOf token wishes ++ (s.clients token).outbox.map (·.1))
    exact (List.Sublist.refl _).append ((List.Sublist.refl _).append hdrop)

/-- Egress has processed a decree. -/
theorem Orderly.process (h : Orderly inputs token s) {decree : Sent Decree}
    {decrees : List (Sent Decree)} (hdecrees : s.decrees = decree :: decrees) :
    Orderly inputs token { s with decrees, processed := s.processed ++ [decree] } := by
  have hsplit : s.decrees = [decree] ++ decrees := hdecrees
  refine h.of_client rfl h.wishes ?_
  simp only [flow, inFlight, hsplit, placesOf_append, List.append_assoc]
  exact List.Sublist.refl _

/-- The step lemma: every step of every party keeps the messages of a client in order. -/
theorem Orderly.step (h : Orderly inputs token s) (hlast : RoutedLast inputs) {action : Action}
    (hstep : s.step action = .ok s') : Orderly inputs token s' := by
  unfold Pipeline.step at hstep
  cases action with
  | take actor clock =>
      dsimp only at hstep
      split at hstep
      · cases hstep
        by_cases hactor : actor = token
        · subst hactor
          exact h.take clock ‹_›
        · have hclient := s.setClient_ne (Ne.symm hactor)
          apply h.of_client (hclient _) h.wishes
          unfold flow inFlight
          rw [hclient]
          exact List.Sublist.refl _
      · cases hstep
  | send actor =>
      dsimp only at hstep
      split at hstep
      · cases hstep
        by_cases hactor : actor = token
        · subst hactor
          exact h.send hlast ‹_›
        · exact h.post_ne (Ne.symm hactor) _ _
      · cases hstep
  | turn =>
      dsimp only at hstep
      split at hstep
      · split at hstep
        · cases hstep
          exact (h.turn ‹_› _ _).1
        · cases hstep
          exact (h.turn ‹_› (Temple.worship ∅) (.goodbye token)).2
      · cases hstep
  | process =>
      dsimp only at hstep
      split at hstep
      · cases hstep
        exact h.process ‹_›
      · cases hstep

/-- The run lemma. -/
theorem Orderly.run {actions : List Action} (hrun : Run Pipeline.step s actions s')
    (hlast : RoutedLast inputs) (h : Orderly inputs token s) : Orderly inputs token s' := by
  apply hrun.invariant (P := fun _ => True) _ (fun _ _ => trivial) h
  intro s action s' _ hs hstep
  exact hs.step hlast hstep

end Pipeline

end Heaven
