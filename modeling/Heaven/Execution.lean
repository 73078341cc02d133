import Heaven.Ownership

/-! # What the temple executes

Every client lives its own life, and its life is kept; so the temple executes for each client the
wishes of the first requests of its sequence, in order and once each (`Sound.executed_initial`).
When the input of a client has been read and no wish is queued, it has executed the wishes of all
of them (`Sound.executed_all`).

What the temple answers reaches egress in the order of execution (`answers_run`). -/

namespace Heaven

open Custody (found)
open Runs

/-- The connection is open, and its input are the requests, which the server can read. -/
structure Complete (requests : List Request) (stream : TcpStream) : Prop where
  fits : ∀ request ∈ requests, request.Fits
  stays : stream.Open
  bytes : stream.payload = encodeAll requests

instance (requests : List Request) (stream : TcpStream) : Decidable (Complete requests stream) :=
  decidable_of_iff ((∀ request ∈ requests, request.Fits) ∧ stream.Open ∧
    stream.payload = encodeAll requests)
    ⟨fun ⟨h, h', h''⟩ => ⟨h, h', h''⟩, fun ⟨h, h', h''⟩ => ⟨h, h', h''⟩⟩

theorem completeWithin_all (requests : List Request) :
    completeWithin requests (encodeAll requests).length = requests := by
  have h := completeWithin_append requests [] 0
  rwa [List.append_nil, completeWithin, List.append_nil, Nat.add_zero] at h

namespace Server

variable {build : Build} {streams : Token → TcpStream} {s s' : Server} {token : Token}
  {requests : List Request}

/-! ### One client -/

theorem Sound.card_holders_le (h : s.Sound build streams) (token : Token) :
    (s.holders token).card ≤ 1 := by
  obtain ⟨life, -, hlife⟩ := h.lives token
  rw [hlife.spot, Multiset.coe_card]
  cases life.spot with
  | none => exact Nat.zero_le 1
  | some spot => exact le_rfl

theorem Shows.mapped {life : Life} {pilgrim : Pilgrim} (h : s.Shows token life)
    (hget : s.ingressMap.get? token = some pilgrim) : life.spot = some (.mapped pilgrim) := by
  have hspot : {.mapped pilgrim} + (found (queuedAt .queued token) s.songs +
      found (sungAt token) s.angels + found (queuedAt .returned token) s.returned) =
        (life.spot.toList : Multiset Spot) := by
    rw [← h.spot]
    simp only [holders, hget, Option.map_some, Option.toList_some, Multiset.coe_singleton]
    abel
  exact (Custody.eq_of_add_eq_toList hspot).1

theorem executedBy_initial (s : Server) (token : Token) :
    s.executedBy token <+: s.sentBy token :=
  List.prefix_append _ _

/-- The wishes sent for a client are those of its first requests. -/
theorem Sound.account (h : s.Sound build streams)
    (hbytes : (streams token).payload <+: encodeAll requests) :
    ∃ done, done <+: requests ∧ Prayed token done (s.sentBy token) := by
  obtain ⟨tail, htail⟩ := hbytes
  obtain ⟨life, hreached, hlife⟩ := h.lives token
  have hnew : (Discipline.within build requests tail).rest
      (Pilgrim.new (streams token)).worker := ⟨requests, within_new htail.symm⟩
  rw [hlife.sent]
  exact (hreached.kept hnew).account

/-- **The temple executes the wishes of a client's first requests, in order and once each.** -/
theorem Sound.executed_initial (h : s.Sound build streams)
    (hbytes : (streams token).payload <+: encodeAll requests) :
    ∃ done, done <+: requests ∧ Prayed token done (s.executedBy token) := by
  obtain ⟨sent, hsent, hprayed⟩ := h.account hbytes
  obtain ⟨done, hdone, hexecuted⟩ := hprayed.initial (s.executedBy_initial token)
  exact ⟨done, hdone.trans hsent, hexecuted⟩

/-- **When all input has been read and no wish is queued, it has executed the wishes of all.** -/
theorem Sound.executed_all (h : s.Sound build streams)
    (hcomplete : Complete requests (streams token)) {pilgrim : Pilgrim}
    (hget : s.ingressMap.get? token = some pilgrim) (hread : pilgrim.stream.payload = [])
    (hwishes : ∀ wish ∈ s.wishes, wish.token ≠ token) :
    Prayed token requests (s.executedBy token) := by
  obtain ⟨life, hreached, hlife⟩ := h.lives token
  have hbytes : encodeAll requests = (streams token).payload ++ [] := by
    rw [List.append_nil, hcomplete.bytes]
  have hnew : (Discipline.fits build requests [] hcomplete.fits).rest
      (Pilgrim.new (streams token)).worker := ⟨requests, rests_new hcomplete.stays hbytes⟩
  have hmapped :
      AtRest (Discipline.fits build requests [] hcomplete.fits) token life.sent pilgrim :=
    (hreached.kept hnew).fits _ (hlife.mapped hget)
  obtain ⟨todo, hrests⟩ := hmapped.rest
  have hgranted : pilgrim.granted = requests := by
    have hworker : pilgrim.worker.stream.payload = [] := hread
    have heq := hrests.granted_eq hbytes
    rw [hworker, List.length_nil, Nat.sub_zero, hcomplete.bytes, completeWithin_all] at heq
    exact heq
  have hsent : s.executedBy token = life.sent := by
    have hnone : (s.wishes.filter fun wish => decide (wish.token = token)) = [] := by
      rw [List.filter_eq_nil_iff]
      intro wish hwish
      rw [decide_eq_true_eq]
      exact hwishes wish hwish
    rw [← hlife.sent, sentBy, hnone, List.append_nil]
  rw [hsent, ← hgranted]
  exact hmapped.prayed

theorem mem_sentBy_of_queued {wish : Wish} (h : wish ∈ s.wishes) : wish ∈ s.sentBy wish.token := by
  apply List.mem_append_right
  rw [List.mem_filter]
  exact ⟨h, decide_eq_true rfl⟩

/-- A queued wish comes from a request of its client. -/
theorem Sound.wish_of_mem (h : s.Sound build streams) {wish : Wish} (hmem : wish ∈ s.wishes)
    (hbytes : (streams wish.token).payload <+: encodeAll requests) :
    ∃ request ∈ requests, ∃ clock,
      Emission.toTemple wish ∈ grant request.val request.property clock wish.token := by
  obtain ⟨done, hdone, hprayed⟩ := h.account hbytes
  obtain ⟨request, hrequest, hgrant⟩ := hprayed.mem (mem_sentBy_of_queued hmem)
  exact ⟨request, hdone.subset hrequest, hgrant⟩

/-- A client for which a wish has been sent is known. -/
theorem Sound.known_of_sent (h : s.Sound build streams) {wish : Wish}
    (hmem : wish ∈ s.sentBy token) : s.Known token := by
  by_contra hnew
  rw [(h.unborn token hnew).sent] at hmem
  cases hmem

theorem Sound.known_of_executed (h : s.Sound build streams) {e : Wish × Except Panic Decree}
    (hmem : e ∈ s.executed) : s.Known e.1.token := by
  have hsent : e.1 ∈ s.sentBy e.1.token := by
    apply List.mem_append_left
    rw [executedBy, List.mem_filter]
    exact ⟨List.mem_map_of_mem hmem, decide_eq_true rfl⟩
  exact h.known_of_sent hsent

theorem Sound.known_of_queued (h : s.Sound build streams) {wish : Wish}
    (hmem : wish ∈ s.wishes) : s.Known wish.token :=
  h.known_of_sent (mem_sentBy_of_queued hmem)

/-! ### Answers -/

/-- What the temple has sent to egress. -/
def answers (s : Server) : List Decree := s.executed.filterMap fun e => e.2.toOption

theorem serve_answers (s : Server) (temple : Temple) (wish : Wish) (wishes : List Wish)
    (h : s.answers.Sublist s.decrees) :
    (s.serve temple wish wishes).answers.Sublist (s.serve temple wish wishes).decrees := by
  unfold serve
  split
  case h_1 temple' decree _ =>
    have hanswers : answers { s with executed := s.executed ++ [(wish, .ok decree)] } =
        s.answers ++ [decree] := List.filterMap_append
    show (answers { s with executed := s.executed ++ [(wish, .ok decree)] }).Sublist _
    rw [hanswers]
    exact h.append (List.Sublist.refl _)
  case h_2 temple' panic _ =>
    have hanswers : answers { s with executed := s.executed ++ [(wish, .error panic)] } =
        s.answers ++ [] := List.filterMap_append
    show (answers { s with executed := s.executed ++ [(wish, .error panic)] }).Sublist _
    rw [hanswers, List.append_nil]
    exact h

theorem Transition.answers (hstep : Transition build streams s s')
    (h : s.answers.Sublist s.decrees) : s'.answers.Sublist s'.decrees := by
  cases hstep with
  | accept => exact h.trans (List.sublist_append_left _ _)
  | @send _ _ _ _ emission _ _ =>
      cases emission with
      | toTemple wish => exact h
      | toEgress decree => exact h.trans (List.sublist_append_left _ _)
  | goodbye _ => exact h.trans (List.sublist_append_left _ _)
  | turn _ _ => exact s.serve_answers _ _ _ h
  | _ => exact h

/-- The answers of the temple reach the channel in the order of execution. -/
theorem answers_run {ioThreads : ℕ} {soul : Soul} {config : Config} {actions : List Action}
    (hrun : Run (step build streams) (start ioThreads soul config) actions s) :
    s.answers.Sublist s.decrees := by
  apply hrun.invariant (P := fun _ => True) _ (fun _ _ => trivial) (List.nil_sublist _)
  intro s action s' _ hs hstep
  exact (step_transition hstep).answers hs

end Server
end Heaven
