import Heaven.Pipeline

/-! # Replies out of order

The converse of the invariant of the pipeline.  When a command that goes to the temple is followed
by a command that the worker answers, or by the end of the input, some run delivers the later
reply first: the worker sends everything while the temple is idle, then the temple takes its
first wish, and egress processes all its decrees.  `repliesInOrder_iff` puts the two directions
together. -/

namespace Heaven

open Decimal (ascii)
open Runs

/-! ### What the worker sends -/

/-- The messages for the inputs from a place on. -/
def emitted (token : Token) (clock : SystemTime) : ℕ → List Input → List (ℕ × Emission)
  | _, [] => []
  | place, input :: inputs =>
      (input.emissions token clock).map (place, ·) ++ emitted token clock (place + 1) inputs

def wishesOf (token : Token) (messages : List (ℕ × Emission)) : List (Sent Wish) :=
  messages.filterMap fun m =>
    match m.2 with
    | .toTemple wish => some ⟨token, m.1, wish⟩
    | .toEgress _ => none

def decreesOf (token : Token) (messages : List (ℕ × Emission)) : List (Sent Decree) :=
  messages.filterMap fun m =>
    match m.2 with
    | .toTemple _ => none
    | .toEgress decree => some ⟨token, m.1, decree⟩

variable {token : Token} {clock : SystemTime}

theorem emitted_append (place : ℕ) (inputs inputs' : List Input) :
    emitted token clock place (inputs ++ inputs') =
      emitted token clock place inputs ++ emitted token clock (place + inputs.length) inputs' := by
  induction inputs generalizing place with
  | nil => rfl
  | cons input inputs ih =>
      rw [List.cons_append, emitted, emitted, ih, List.append_assoc, List.length_cons]
      congr 3
      omega

theorem mem_emitted {k place : ℕ} {emission : Emission} {inputs : List Input} :
    (k, emission) ∈ emitted token clock place inputs ↔
      ∃ i input, inputs[i]? = some input ∧ k = place + i ∧
        emission ∈ input.emissions token clock := by
  induction inputs generalizing place with
  | nil => simp [emitted]
  | cons input inputs ih =>
      rw [emitted, List.mem_append, ih]
      constructor
      · rintro (h | ⟨i, input', hi, rfl, hmem⟩)
        · obtain ⟨e, he, heq⟩ := List.mem_map.mp h
          cases heq
          exact ⟨0, input, rfl, rfl, he⟩
        · exact ⟨i + 1, input', hi, by omega, hmem⟩
      · rintro ⟨i, input', hi, rfl, hmem⟩
        cases i with
        | zero =>
            cases hi
            exact .inl (List.mem_map.mpr ⟨emission, hmem, rfl⟩)
        | succ i => exact .inr ⟨i, input', hi, by omega, hmem⟩

theorem mem_wishesOf {m : Sent Wish} {messages : List (ℕ × Emission)} :
    m ∈ wishesOf token messages ↔
      m.token = token ∧ (m.place, Emission.toTemple m.message) ∈ messages := by
  rw [wishesOf, List.mem_filterMap]
  constructor
  · rintro ⟨⟨k, decree | wish⟩, hmem, h⟩
    · cases h
    · cases h
      exact ⟨rfl, hmem⟩
  · rintro ⟨rfl, hmem⟩
    exact ⟨_, hmem, rfl⟩

theorem mem_decreesOf {m : Sent Decree} {messages : List (ℕ × Emission)} :
    m ∈ decreesOf token messages ↔
      m.token = token ∧ (m.place, Emission.toEgress m.message) ∈ messages := by
  rw [decreesOf, List.mem_filterMap]
  constructor
  · rintro ⟨⟨k, decree | wish⟩, hmem, h⟩
    · cases h
      exact ⟨rfl, hmem⟩
    · cases h
  · rintro ⟨rfl, hmem⟩
    exact ⟨_, hmem, rfl⟩

/-! ### Runs of one party -/

namespace Pipeline

/-- The messages of a client are in the channels, and the client is as given. -/
def sent (s : Pipeline) (token : Token) (client : Client) (messages : List (ℕ × Emission)) :
    Pipeline :=
  { s.setClient token client with
    wishes := s.wishes ++ wishesOf token messages
    decrees := s.decrees ++ decreesOf token messages }

theorem setClient_setClient (s : Pipeline) (token : Token) (client client' : Client) :
    (s.setClient token client).setClient token client' = s.setClient token client' := by
  simp only [setClient, Function.update_idem]

theorem sent_nil (s : Pipeline) (token : Token) :
    s.sent token (s.clients token) [] = s := by
  simp only [sent, setClient, wishesOf, decreesOf, List.filterMap_nil, List.append_nil,
    Function.update_eq_self]

theorem sent_sent (s : Pipeline) (token : Token) (client client' : Client)
    (messages messages' : List (ℕ × Emission)) :
    (s.sent token client messages).sent token client' messages' =
      s.sent token client' (messages ++ messages') := by
  simp only [sent, setClient, wishesOf, decreesOf, Function.update_idem, List.filterMap_append,
    List.append_assoc]

theorem post_eq_sent (s : Pipeline) (token : Token) (client : Client) (m : ℕ × Emission) :
    (s.setClient token client).post token m = s.sent token client [m] := by
  obtain ⟨k, decree | wish⟩ := m <;>
    simp [post, sent, setClient, wishesOf, decreesOf]

/-- The worker sends all messages of its outbox. -/
theorem run_send (s : Pipeline) (token : Token) {inputs : List Input} {place : ℕ} :
    ∀ {outbox : List (ℕ × Emission)}, s.clients token = ⟨inputs, place, outbox⟩ →
      ∃ actions, Run step s actions (s.sent token ⟨inputs, place, []⟩ outbox)
  | [], h => by
      refine ⟨[], ?_⟩
      rw [← h, sent_nil]
      exact .nil s
  | m :: outbox, h => by
      have hstep : s.step (.send token) = .ok (s.sent token ⟨inputs, place, outbox⟩ [m]) := by
        rw [← post_eq_sent]
        simp only [step, h]
      have hclient : (s.sent token ⟨inputs, place, outbox⟩ [m]).clients token =
          ⟨inputs, place, outbox⟩ := s.setClient_self token _
      obtain ⟨actions, hrun⟩ := run_send (s.sent token ⟨inputs, place, outbox⟩ [m]) token hclient
      rw [sent_sent] at hrun
      exact ⟨.send token :: actions, .cons hstep hrun⟩

/-- The worker takes inputs and sends all their messages. -/
theorem run_take (clock : SystemTime) (token : Token) (later : List Input) :
    ∀ (inputs : List Input) (s : Pipeline) (place : ℕ),
      s.clients token = ⟨inputs ++ later, place, []⟩ →
      ∃ actions, Run step s actions
        (s.sent token ⟨later, place + inputs.length, []⟩ (emitted token clock place inputs))
  | [], s, place, h => by
      have hsame : (⟨later, place + ([] : List Input).length, []⟩ : Client) = s.clients token :=
        h.symm
      refine ⟨[], ?_⟩
      rw [hsame, emitted, sent_nil]
      exact .nil s
  | input :: inputs, s, place, h => by
      have hstep : s.step (.take token clock) = .ok (s.setClient token
          ⟨inputs ++ later, place + 1, (input.emissions token clock).map (place, ·)⟩) := by
        simp only [step, h, List.cons_append]
      obtain ⟨sends, hsends⟩ := run_send (s.setClient token
        ⟨inputs ++ later, place + 1, (input.emissions token clock).map (place, ·)⟩) token
          (s.setClient_self token _)
      have hsent : ∀ client messages (c : Client),
          (s.setClient token c).sent token client messages = s.sent token client messages := by
        intro client messages c
        simp only [sent, setClient_setClient]
        rfl
      rw [hsent] at hsends
      obtain ⟨takes, htakes⟩ := run_take clock token later inputs
        (s.sent token ⟨inputs ++ later, place + 1, []⟩
          ((input.emissions token clock).map (place, ·))) (place + 1) (s.setClient_self token _)
      rw [sent_sent] at htakes
      have hlength : place + (input :: inputs).length = place + 1 + inputs.length := by
        rw [List.length_cons]
        omega
      rw [hlength, emitted]
      exact ⟨.take token clock :: (sends ++ takes), .cons hstep (hsends.append htakes)⟩

/-- Egress processes all its decrees. -/
theorem run_process (decrees : List (Sent Decree)) (s : Pipeline) (h : s.decrees = decrees) :
    ∃ actions,
      Run step s actions { s with decrees := [], processed := s.processed ++ decrees } := by
  induction decrees generalizing s with
  | nil =>
      refine ⟨[], ?_⟩
      rw [List.append_nil, ← h]
      exact .nil s
  | cons decree decrees ih =>
      have hstep : s.step .process =
          .ok { s with decrees, processed := s.processed ++ [decree] } := by
        simp only [step, h]
      obtain ⟨actions, hrun⟩ := ih { s with decrees, processed := s.processed ++ [decree] } rfl
      simp only [List.append_assoc, List.singleton_append] at hrun
      exact ⟨.process :: actions, .cons hstep hrun⟩

end Pipeline

/-- A temple without keys answers every wish. -/
theorem turn_worship_ok (config : Config) {wish : Wish} (ha : Accepts clock wish.command) :
    ∃ temple decree, (Temple.worship config).turn wish = (temple, .ok decree) := by
  obtain ⟨token, cmd | broadcast⟩ := wish
  · have hfar : ¬ AsksFarDeadline Soul.new cmd := by
      rintro ⟨key, time, value, expiry, -, hs, -⟩
      cases hs
    obtain ⟨response, hresponse⟩ := (returns_iff config Soul.new ha.1).mpr hfar
    refine ⟨_, Temple.deliver token response, Prod.ext rfl ?_⟩
    have hnone : (Temple.worship config).subscribedClients.contains token = false := rfl
    simp only [Temple.turn, hnone, Bool.false_eq_true, if_false]
    have hanswer : (database (Temple.worship config).soul (Temple.worship config).config cmd).2 =
        .ok response := hresponse
    rw [hanswer]
    rfl
  · cases broadcast <;> exact ⟨_, _, rfl⟩

theorem exists_wish {input : Input} (h : input.Routed) (token : Token) (clock : SystemTime) :
    ∃ wish, Emission.toTemple wish ∈ input.emissions token clock := by
  cases input with
  | command request => exact (toTemple_iff _ _ clock token).mpr h
  | endOfInput => cases h

theorem exists_decree {input : Input} (h : input.Direct) (token : Token) (clock : SystemTime) :
    ∃ decree, Emission.toEgress decree ∈ input.emissions token clock := by
  cases input with
  | command request => exact (toEgress_iff _ _ clock token).mpr h
  | endOfInput => exact ⟨_, List.mem_cons_self⟩

theorem accepts_of_mem {input : Input} {wish : Wish}
    (h : Emission.toTemple wish ∈ input.emissions token clock) : Accepts clock wish.command := by
  cases input with
  | command request => exact (mem_grant h).2
  | endOfInput => cases List.mem_singleton.mp h

/-- Among the messages of the inputs up to a routed one, the first wish belongs to one of them. -/
theorem first_wish (token : Token) (clock : SystemTime) {inputs : List Input} {i : ℕ}
    (hi : i < inputs.length) (hrouted : inputs[i].Routed) :
    ∃ w ws, wishesOf token (emitted token clock 0 (inputs.take (i + 1))) = w :: ws ∧
      w.token = token ∧ w.place ≤ i ∧ Accepts clock w.message.command := by
  have hplaces : ∀ m ∈ wishesOf token (emitted token clock 0 (inputs.take (i + 1))),
      m.token = token ∧ m.place ≤ i ∧ Accepts clock m.message.command := by
    intro m hm
    obtain ⟨htoken, hmem⟩ := mem_wishesOf.mp hm
    obtain ⟨k, input, hk, hplace, hemission⟩ := mem_emitted.mp hmem
    obtain ⟨hlt, -⟩ := List.getElem?_eq_some_iff.mp hk
    rw [List.length_take] at hlt
    exact ⟨htoken, by omega, accepts_of_mem hemission⟩
  obtain ⟨wish, hwish⟩ := exists_wish hrouted token clock
  have hinput : (inputs.take (i + 1))[i]? = some inputs[i] := by
    rw [List.getElem?_take_of_lt (Nat.lt_succ_self i), List.getElem?_eq_getElem hi]
  have hmem : (⟨token, i, wish⟩ : Sent Wish) ∈
      wishesOf token (emitted token clock 0 (inputs.take (i + 1))) := by
    apply mem_wishesOf.mpr
    exact ⟨rfl, mem_emitted.mpr ⟨i, inputs[i], hinput, (Nat.zero_add i).symm, hwish⟩⟩
  obtain ⟨w, ws, hws⟩ := List.exists_cons_of_ne_nil (List.ne_nil_of_mem hmem)
  have hw : w ∈ wishesOf token (emitted token clock 0 (inputs.take (i + 1))) := by
    rw [hws]
    exact List.mem_cons_self
  obtain ⟨htoken, hplace, haccepts⟩ := hplaces w hw
  exact ⟨w, ws, hws, htoken, hplace, haccepts⟩

/-- The first wish stays the first when more inputs are taken. -/
theorem wishesOf_take {token : Token} {clock : SystemTime} {inputs : List Input} {i j : ℕ}
    (hij : i ≤ j) {w : Sent Wish} {ws : List (Sent Wish)}
    (h : wishesOf token (emitted token clock 0 (inputs.take i)) = w :: ws) :
    ∃ later, wishesOf token (emitted token clock 0 (inputs.take j)) = w :: later := by
  have hsplit : emitted token clock 0 (inputs.take j) =
      emitted token clock 0 (inputs.take i) ++
        emitted token clock (0 + (inputs.take i).length) ((inputs.take j).drop i) := by
    have htake : inputs.take i = (inputs.take j).take i := by
      rw [List.take_take, Nat.min_eq_left hij]
    rw [← emitted_append, htake, List.take_append_drop]
  refine ⟨ws ++ wishesOf token
    (emitted token clock (0 + (inputs.take i).length) ((inputs.take j).drop i)), ?_⟩
  rw [← List.cons_append, ← h, hsplit]
  simp only [wishesOf, List.filterMap_append]

/-- Among the messages of the inputs up to a direct one there is a decree of its own. -/
theorem own_decree (token : Token) (clock : SystemTime) {inputs : List Input} {j : ℕ}
    (hj : j < inputs.length) (hdirect : inputs[j].Direct) :
    ∃ decree, (⟨token, j, decree⟩ : Sent Decree) ∈
      decreesOf token (emitted token clock 0 (inputs.take (j + 1))) := by
  obtain ⟨decree, hdecree⟩ := exists_decree hdirect token clock
  have hinput : (inputs.take (j + 1))[j]? = some inputs[j] := by
    rw [List.getElem?_take_of_lt (Nat.lt_succ_self j), List.getElem?_eq_getElem hj]
  have hemitted : (j, Emission.toEgress decree) ∈ emitted token clock 0 (inputs.take (j + 1)) :=
    mem_emitted.mpr ⟨j, inputs[j], hinput, (Nat.zero_add j).symm, hdecree⟩
  exact ⟨decree, mem_decreesOf.mpr ⟨rfl, hemitted⟩⟩

/-- A decree behind one of a later place is out of order. -/
theorem not_sorted_behind {token : Token} {front : List (Sent Decree)} {first last : Sent Decree}
    (hfirst : first ∈ front) (htoken : first.token = token) (htoken' : last.token = token)
    (hlt : last.place < first.place) :
    ¬ (placesOf token (front ++ [last])).Pairwise (· ≤ ·) := by
  intro hsorted
  rw [placesOf_append] at hsorted
  have hfront : first.place ∈ placesOf token front := mem_placesOf.mpr ⟨_, hfirst, htoken, rfl⟩
  have hback : last.place ∈ placesOf token [last] :=
    mem_placesOf.mpr ⟨_, List.mem_singleton.mpr rfl, htoken', rfl⟩
  have hle := (List.pairwise_append.mp hsorted).2.2 _ hfront _ hback
  omega

/-- A later reply is processed first. -/
theorem exists_overtaking (scripts : Token → Script) (token : Token)
    (h : ¬ RoutedLast (scripts token).inputs) :
    ∃ actions s, Run Pipeline.step (.start (Temple.worship ∅) scripts) actions s ∧
      ¬ (placesOf token s.processed).Pairwise (· ≤ ·) := by
  unfold RoutedLast at h
  rw [List.pairwise_iff_getElem] at h
  push Not at h
  obtain ⟨i, j, hi, hj, hij, hrouted, hdirect⟩ := h
  generalize hinputs : (scripts token).inputs = inputs at hi hj hrouted hdirect
  -- the worker takes the inputs up to the later one, while the temple is idle
  have hclient : (Pipeline.start (Temple.worship ∅) scripts).clients token =
      ⟨inputs.take (j + 1) ++ inputs.drop (j + 1), 0, []⟩ := by
    rw [List.take_append_drop, ← hinputs]
    rfl
  obtain ⟨takes, htakes⟩ := Pipeline.run_take .unixEpoch token _ _ _ 0 hclient
  generalize hsent : Pipeline.sent _ token _ _ = sent at htakes
  obtain ⟨w, ws, hws, htoken, hplace, haccepts⟩ :=
    first_wish token .unixEpoch hi hrouted
  obtain ⟨temple, decree, hturn⟩ := turn_worship_ok ∅ haccepts
  obtain ⟨later, hlater⟩ := wishesOf_take (by omega : i + 1 ≤ j + 1) hws
  have hwishes : sent.wishes = w :: later := by
    rw [← hlater, ← hsent]
    rfl
  -- the temple takes its first wish, and egress processes all decrees
  have htemple : sent.temple = some (Temple.worship ∅) := by
    rw [← hsent]
    rfl
  have hstep : sent.step .turn = .ok { sent with
      temple := some temple
      wishes := later
      decrees := sent.decrees ++ [⟨w.token, w.place, decree⟩] } := by
    simp only [Pipeline.step, htemple, hwishes, hturn]
  obtain ⟨actions, hprocess⟩ := Pipeline.run_process _ { sent with
      temple := some temple
      wishes := later
      decrees := sent.decrees ++ [⟨w.token, w.place, decree⟩] } rfl
  refine ⟨_, _, htakes.append (.cons hstep hprocess), ?_⟩
  -- the later decree is among those in front of the temple's
  obtain ⟨direct, hmem⟩ := own_decree token .unixEpoch hj hdirect
  have hfront : (⟨token, j, direct⟩ : Sent Decree) ∈ sent.processed ++ sent.decrees := by
    apply List.mem_append_right
    rw [← hsent]
    exact List.mem_append_right _ hmem
  dsimp only
  rw [← List.append_assoc]
  exact not_sorted_behind hfront rfl htoken (by dsimp only; omega)

/-- **In every store and every interleaving the replies keep the order of the commands, precisely
if no client sends a command that its worker answers, or ends its input, behind a command that
goes to the temple.** -/
theorem repliesInOrder_iff (scripts : Token → Script) :
    (∀ temple actions s, Run Pipeline.step (.start temple scripts) actions s →
        ∀ token, s.InOrder token) ↔
      ∀ token, RoutedLast (scripts token).inputs := by
  constructor
  · intro h token
    by_contra hlast
    obtain ⟨actions, s, hrun, hover⟩ := exists_overtaking scripts token hlast
    exact hover (h _ actions s hrun token).replies
  · intro hlast temple actions s hrun token
    exact ((Pipeline.orderly_start temple scripts token).run hrun (hlast token)).inOrder

/-- GET and PING sent together: the answer to PING can be the first. -/
theorem ping_overtakes_get :
    ¬ ∀ (scripts : Token → Script) temple actions s,
      Run Pipeline.step (.start temple scripts) actions s → ∀ token, s.InOrder token := by
  intro h
  obtain ⟨actions, s, hrun, hover⟩ := exists_overtaking
    (fun _ => ⟨[⟨[ascii "GET", ascii "k"], List.cons_ne_nil _ _⟩,
      ⟨[ascii "PING"], List.cons_ne_nil _ _⟩], false⟩) 0 (by decide)
  exact hover (h _ _ actions s hrun 0).replies

end Heaven
