import Mathlib.Data.List.TakeWhile
import Heaven.Channels
import Heaven.PubSub
import Heaven.Revival

/-! # From Welcome to Goodbye

The life of a connection, across the server loop, the angels, the temple and egress.  Clients are
welcomed in the order of their tokens, so client `n + 1` has stream `n`; nothing concerns a client
before its Welcome, and goodbye is said to it at most once (`Proper`).  So what egress ever tries to
write on a connection are the packets for its client between the two, all of them and in order
(`connection_history`); how much of each its socket takes is another matter.

Goodbye is said only by an angel whose song has failed, and then the pilgrim is nowhere.  But a
pilgrim is also lost when its angel panics, and when the server loop drops it after a failed write;
then no goodbye is ever said, and egress keeps the stream for ever (`lost_stays_open`). -/

namespace Heaven

open Decimal (ascii)
open Runs

namespace Egress

variable {room : ℕ → ℕ} {decrees : List Decree} {decree : Decree} {token : Token} {n : ℕ}

/-! ### Proper histories -/

/-- Clients are welcomed one after the other, nothing concerns a client before, and goodbye is said
once. -/
structure Proper (before : List Decree) (decree : Decree) : Prop where
  greets : Greets before decree
  next : ∀ token, decree = .welcome token → token = before.countP Decree.isWelcome + 1
  once : ∀ token, decree = .goodbye token → .goodbye token ∉ before

theorem Proper.successive_greets (h : Successive Proper decrees) : Successive Greets decrees :=
  fun pre decree post hsplit => (h pre decree post hsplit).greets

/-- What comes before the client's Goodbye. -/
def beforeGoodbye (token : Token) (decrees : List Decree) : List Decree :=
  decrees.takeWhile fun decree => decide (decree ≠ .goodbye token)

theorem beforeGoodbye_eq (h : .goodbye token ∉ decrees) :
    beforeGoodbye token decrees = decrees := by
  apply List.takeWhile_eq_self_iff.mpr
  intro decree hmem
  apply decide_eq_true
  rintro rfl
  exact h hmem

theorem beforeGoodbye_concat_of_mem (h : .goodbye token ∈ decrees) (decree : Decree) :
    beforeGoodbye token (decrees ++ [decree]) = beforeGoodbye token decrees := by
  unfold beforeGoodbye
  rw [List.takeWhile_append, if_neg]
  intro hlength
  have hall := (List.takeWhile_prefix _).eq_of_length hlength
  have hnot := List.takeWhile_eq_self_iff.mp hall _ h
  rw [decide_eq_true_eq] at hnot
  exact hnot rfl

theorem beforeGoodbye_concat (h : .goodbye token ∉ decrees) (decree : Decree) :
    beforeGoodbye token (decrees ++ [decree]) =
      if decree = .goodbye token then decrees else decrees ++ [decree] := by
  split_ifs with hdecree
  · have hall : ∀ d ∈ decrees, decide (d ≠ .goodbye token) = true := by
      intro d hd
      apply decide_eq_true
      rintro rfl
      exact h hd
    unfold beforeGoodbye
    rw [List.takeWhile_append_of_pos hall, hdecree]
    simp
  · apply beforeGoodbye_eq
    rw [List.mem_append, List.mem_singleton, not_or]
    exact ⟨h, Ne.symm hdecree⟩

theorem count_le_one_of_successive {decree : Decree}
    (h : Successive (fun before d => d = decree → decree ∉ before) decrees) :
    decrees.count decree ≤ 1 := by
  refine h.induction (M := fun l => l.count decree ≤ 1) (Nat.zero_le 1) ?_
  intro l d _ hd ih
  rw [List.count_append, List.count_singleton]
  split_ifs with heq
  · rw [List.count_eq_zero_of_not_mem (hd (eq_of_beq heq))]
  · exact ih

/-! ### What is written on a connection -/

/-- The `n`-th stream is that of client `n + 1`, and has been sent the packets for this client. -/
structure Belongs (room : ℕ → ℕ) (decrees : List Decree) : Prop where
  accepted : (received room decrees).accepted = decrees.countP Decree.isWelcome
  number : ∀ token stream, (received room decrees).egressMap.get? token = some stream →
    token = stream + 1
  packets : ∀ n, ((received room decrees).on n).map Write.packet =
    packetsFor (n + 1) (beforeGoodbye (n + 1) decrees)

/-- One more decree puts the packets for client `n + 1` on stream `n`, if it has not gone. -/
theorem Belongs.on_concat (h : Belongs room decrees) (hproper : Successive Proper decrees)
    (hdecree : Proper decrees decree) (n : ℕ) :
    ((received room (decrees ++ [decree])).on n).map Write.packet =
      packetsFor (n + 1) (beforeGoodbye (n + 1) (decrees ++ [decree])) := by
  have htracks := tracks room (n + 1) (Proper.successive_greets hproper)
  rw [received_concat, on_process, h.packets n]
  by_cases hgone : .goodbye (n + 1) ∈ decrees
  · -- nobody has the stream
    have hnone : ∀ token, (received room decrees).egressMap.get? token ≠ some n := by
      intro token hget
      have htoken := h.number token n hget
      subst htoken
      have hopen := htracks.isSome.mp (by rw [hget]; rfl)
      exact hopen.2 hgone
    rw [beforeGoodbye_concat_of_mem hgone]
    simp [hnone]
  · rw [beforeGoodbye_eq hgone, beforeGoodbye_concat hgone]
    split_ifs with hgoodbye
    · subst hgoodbye
      exact List.append_nil _
    · have hone : packetsFor (n + 1) [decree] =
          decree.packets.filterMap fun p => if p.1 = n + 1 then some p.2 else none := by
        rw [packetsFor, List.flatMap_singleton]
      rw [packetsFor_append, hone]
      congr 1
      apply List.filterMap_congr
      intro p hp
      have hwelcome := hdecree.greets.packets p hp
      have hiff : (received room decrees).egressMap.get? p.1 = some n ↔ p.1 = n + 1 := by
        constructor
        · exact h.number p.1 n
        · intro htoken
          rw [htoken] at hwelcome ⊢
          obtain ⟨stream, hstream⟩ := Option.isSome_iff_exists.mp (htracks.isSome.mpr
            ⟨hwelcome, hgone⟩)
          have hnumber := h.number _ stream hstream
          rw [hstream, Nat.succ.inj hnumber]
      simp only [hiff]

/-- **A connection carries the packets for its client, from its Welcome to its Goodbye.** -/
theorem belongs (room : ℕ → ℕ) {decrees : List Decree} (h : Successive Proper decrees) :
    Belongs room decrees := by
  refine h.induction ?_ ?_
  · refine ⟨rfl, ?_, fun n => rfl⟩
    intro token stream hget
    rw [received, List.foldl_nil, start, Dict.get?_empty] at hget
    cases hget
  · intro decrees decree hproper hdecree ih
    refine ⟨received_accepted room _, ?_, ih.on_concat hproper hdecree⟩
    intro token stream hget
    rw [received_concat] at hget
    obtain ⟨rfl, rfl⟩ | hold := get?_process hget
    · rw [ih.accepted]
      exact hdecree.next token rfl
    · exact ih.number token stream hold

end Egress

/-! ### The decrees of the server -/

/-- The temple answers the client, or publishes to the clients that its map holds. -/
theorem turn_decree {t : Temple} {wish : Wish} {decree : Decree}
    (h : (t.turn wish).2 = .ok decree) :
    (∃ response, decree = .deliver ⟨wish.token, response⟩) ∨
      ∃ event message, decree =
        .broadcast wish.token event message (ClientMap.publish t.clientMap event) := by
  obtain ⟨token, _ | cmd⟩ := wish
  case database cmd =>
    simp only [Temple.turn] at h
    split_ifs at h
    · cases h
      exact .inl ⟨_, rfl⟩
    · cases hr : (database t.soul t.config cmd).2 with
      | error panic => simp [hr, Except.map] at h
      | ok response =>
          simp only [hr, Except.map, Except.ok.injEq] at h
          exact .inl ⟨response, h.symm⟩
  case broadcast =>
    obtain ⟨decree', hdecree', hkind⟩ := PubSub.turn_broadcast t token cmd
    obtain rfl : decree = decree' := Except.ok.inj (h.symm.trans hdecree')
    obtain hone | ⟨event, message, -, heq⟩ := hkind
    · exact .inl hone
    · exact .inr ⟨event, message, heq⟩

/-- A client that is subscribed has asked for it. -/
theorem exists_wish_of_subscribed {wishes : List Wish} {token : Token} {event : Bytes}
    (h : (token, event) ∈ Subscriptions.afterAll ∅ wishes) :
    ∃ wish ∈ wishes, wish.token = token := by
  induction wishes using List.reverseRecOn with
  | nil => cases h
  | append_singleton wishes wish ih =>
      rw [Subscriptions.afterAll, List.foldl_concat] at h
      obtain hold | rfl := PubSub.mem_subscriptions_after h
      · obtain ⟨wish', hmem, htoken⟩ := ih hold
        exact ⟨wish', List.mem_append_left _ hmem, htoken⟩
      · exact ⟨wish, List.mem_append_right _ (List.mem_singleton.mpr rfl), rfl⟩

namespace Server

variable {build : Build} {streams : Token → TcpStream} {s s' : Server} {token : Token}

/-- What holds of the decrees of every state that a run reaches. -/
structure History (s : Server) : Prop where
  counter : s.pilgrimCounter = s.decrees.countP Decree.isWelcome + 1
  welcomed : ∀ token, .welcome token ∈ s.decrees ↔ s.Known token
  proper : Successive Egress.Proper s.decrees
  refines : ∀ temple, s.temple = some temple →
    temple.Refines (Subscriptions.afterAll ∅ (s.executed.map Prod.fst))
  parted : ∀ token, .goodbye token ∈ s.decrees → s.holders token = 0

theorem History.known_of_goodbye (h : s.History) (hgoodbye : .goodbye token ∈ s.decrees) :
    s.Known token :=
  (h.welcomed token).mp
    (Egress.welcome_of_goodbye (Egress.Proper.successive_greets h.proper) hgoodbye)

theorem proper_deliver {before : List Decree} {gift : Gift}
    (h : .welcome gift.token ∈ before) : Egress.Proper before (.deliver gift) where
  greets := h
  next := fun _ heq => by cases heq
  once := fun _ heq => by cases heq

/-- The decree of a turn concerns clients that have been welcomed. -/
theorem History.proper_turn (h : s.History) (hs : s.Sound build streams) {temple : Temple}
    (htemple : s.temple = some temple) {wish : Wish} (hknown : s.Known wish.token)
    {decree : Decree} (hdecree : (temple.turn wish).2 = .ok decree) :
    Egress.Proper s.decrees decree := by
  have hwelcome : .welcome wish.token ∈ s.decrees := (h.welcomed wish.token).mpr hknown
  obtain ⟨response, rfl⟩ | ⟨event, message, rfl⟩ := turn_decree hdecree
  · exact proper_deliver hwelcome
  · refine ⟨⟨hwelcome, ?_⟩, (fun _ heq => by cases heq), (fun _ heq => by cases heq)⟩
    intro client hclient
    have hindexes := (h.refines temple htemple).clientMap
    have hsubscribed := ((ClientMap.publish_indexes event hindexes).2 client).mp hclient
    obtain ⟨asked, hmem, rfl⟩ := exists_wish_of_subscribed hsubscribed
    obtain ⟨e, he, rfl⟩ := List.mem_map.mp hmem
    exact (h.welcomed _).mpr (hs.known_of_executed he)

/-- A decree that welcomes nobody is added, and nothing else changes for the history. -/
theorem History.concat (h : s.History) {decree : Decree} (hproper : Egress.Proper s.decrees decree)
    (hwelcome : decree.isWelcome = false) (hcounter : s'.pilgrimCounter = s.pilgrimCounter)
    (hdecrees : s'.decrees = s.decrees ++ [decree])
    (hrefines : ∀ temple, s'.temple = some temple →
      temple.Refines (Subscriptions.afterAll ∅ (s'.executed.map Prod.fst)))
    (hparted : ∀ token, .goodbye token ∈ s'.decrees → s'.holders token = 0) : s'.History where
  counter := by
    rw [hcounter, hdecrees, List.countP_append, List.countP_singleton, hwelcome, h.counter]
    rfl
  welcomed := by
    intro token
    have hne : Decree.welcome token ≠ decree := by
      rintro rfl
      cases hwelcome
    rw [hdecrees, List.mem_append, List.mem_singleton, Known, hcounter]
    exact (or_iff_left hne).trans (h.welcomed token)
  proper := by
    rw [hdecrees, successive_concat]
    exact ⟨h.proper, hproper⟩
  refines := hrefines
  parted := hparted

/-- Nothing that the history is about changes, but for where the pilgrims are. -/
theorem History.quietly (h : s.History) (hcounter : s'.pilgrimCounter = s.pilgrimCounter)
    (hdecrees : s'.decrees = s.decrees) (htemple : s'.temple = s.temple)
    (hexecuted : s'.executed = s.executed)
    (hlost : ∀ token, .goodbye token ∈ s.decrees → s'.holders token = 0) : s'.History where
  counter := by
    rw [hcounter, hdecrees]
    exact h.counter
  welcomed := by
    intro token
    rw [hdecrees, Known, hcounter]
    exact h.welcomed token
  proper := by
    rw [hdecrees]
    exact h.proper
  refines := by
    rw [htemple, hexecuted]
    exact h.refines
  parted := by
    rw [hdecrees]
    exact hlost

/-- A decree that is no goodbye loses nobody. -/
theorem parted_concat {decree : Decree}
    (hlost : ∀ token, .goodbye token ∈ s.decrees → s'.holders token = 0)
    (hdecrees : s'.decrees = s.decrees ++ [decree]) (hne : ∀ token, decree ≠ .goodbye token) :
    ∀ token, .goodbye token ∈ s'.decrees → s'.holders token = 0 := by
  intro token hgoodbye
  rw [hdecrees, List.mem_append, List.mem_singleton] at hgoodbye
  obtain hgoodbye | heq := hgoodbye
  · exact hlost token hgoodbye
  · exact absurd heq.symm (hne token)

/-- The next client is welcomed. -/
theorem History.welcome (h : s.History) (hcounted : 0 < s.pilgrimCounter)
    (hcounter : s'.pilgrimCounter = s.pilgrimCounter + 1)
    (hdecrees : s'.decrees = s.decrees ++ [.welcome s.pilgrimCounter])
    (htemple : s'.temple = s.temple) (hexecuted : s'.executed = s.executed)
    (hlost : ∀ token, .goodbye token ∈ s.decrees → s'.holders token = 0) : s'.History where
  counter := by
    rw [hcounter, hdecrees, List.countP_append, h.counter]
    rfl
  welcomed := by
    intro token
    rw [hdecrees, List.mem_append, List.mem_singleton, Decree.welcome.injEq, h.welcomed, Known,
      Known, hcounter, Nat.lt_succ_iff_lt_or_eq, and_or_left]
    apply or_congr_right
    exact (and_iff_right_of_imp fun heq => heq ▸ hcounted).symm
  proper := by
    have hnew : .welcome s.pilgrimCounter ∉ s.decrees := by
      rw [h.welcomed]
      exact fun hknown => lt_irrefl _ hknown.2
    rw [hdecrees, successive_concat]
    refine ⟨h.proper, hnew, ?_, fun _ heq => by cases heq⟩
    rintro _ ⟨⟩
    exact h.counter
  refines := by
    rw [htemple, hexecuted]
    exact h.refines
  parted := parted_concat hlost hdecrees fun _ heq => by cases heq

/-- The temple has its turn. -/
theorem History.serve (h : s.History) (hs : s.Sound build streams) (hg : s.Genuine)
    {temple : Temple} {wish : Wish} {wishes : List Wish} (htemple : s.temple = some temple)
    (hwishes : s.wishes = wish :: wishes)
    (hlost : ∀ token, .goodbye token ∈ s.decrees →
      (s.serve temple wish wishes).holders token = 0) : (s.serve temple wish wishes).History := by
  have hmem : wish ∈ s.wishes := by
    rw [hwishes]
    exact List.mem_cons_self
  have hnames := (hg.sent wish (List.mem_append_right _ hmem)).namesEvents
  have hturn := (h.refines temple htemple).turn hnames
  unfold Server.serve at hlost ⊢
  split
  case h_1 temple' decree hserved =>
    rw [hserved] at hturn hlost
    have hanswer := congrArg Prod.snd hserved
    have hproper := h.proper_turn hs htemple (hs.known_of_queued hmem) hanswer
    obtain ⟨hne, hnot⟩ : decree.isWelcome = false ∧ ∀ token, decree ≠ .goodbye token := by
      obtain ⟨response, rfl⟩ | ⟨event, message, rfl⟩ := turn_decree hanswer
      · exact ⟨rfl, fun _ heq => by cases heq⟩
      · exact ⟨rfl, fun _ heq => by cases heq⟩
    refine h.concat hproper hne rfl rfl ?_ (parted_concat hlost rfl hnot)
    rintro _ ⟨⟩
    rw [List.map_append, Subscriptions.afterAll, List.foldl_append]
    exact hturn
  case h_2 temple' panic hserved =>
    rw [hserved] at hlost
    exact ⟨h.counter, h.welcomed, h.proper, (fun _ heq => by cases heq), hlost⟩

/-- **The step lemma.** -/
theorem History.step (h : s.History) (hs : s.Sound build streams) (hg : s.Genuine)
    (hstep : Transition build streams s s') : s'.History := by
  have hlost : ∀ token, .goodbye token ∈ s.decrees → s'.holders token = 0 := by
    intro token hgoodbye
    exact hstep.stays_lost hs (h.known_of_goodbye hgoodbye) (h.parted token hgoodbye)
  cases hstep.talks hs hg with
  | silent same =>
      exact h.quietly same.counter same.decrees same.temple same.executed hlost
  | asks said same =>
      exact h.quietly same.counter same.decrees same.temple same.executed hlost
  | @answers token response known same =>
      have hproper : Egress.Proper s.decrees (.deliver ⟨token, response⟩) :=
        proper_deliver ((h.welcomed token).mpr known)
      refine h.concat hproper rfl same.counter same.decrees ?_ ?_
      · rw [same.temple, same.executed]
        exact h.refines
      · exact parted_concat hlost same.decrees fun _ heq => by cases heq
  | welcomes same =>
      exact h.welcome hs.counter same.counter same.decrees same.temple same.executed hlost
  | @parts token known lost had same =>
      have hproper : Egress.Proper s.decrees (.goodbye token) := by
        refine ⟨(h.welcomed token).mpr known, (fun _ heq => by cases heq), ?_⟩
        rintro _ ⟨⟩ hgoodbye
        exact had (h.parted token hgoodbye)
      refine h.concat hproper rfl same.counter same.decrees ?_ ?_
      · rw [same.temple, same.executed]
        exact h.refines
      · intro token' hgoodbye
        rw [same.decrees, List.mem_append, List.mem_singleton, Decree.goodbye.injEq] at hgoodbye
        obtain hgoodbye | rfl := hgoodbye
        · exact hlost token' hgoodbye
        · exact lost
  | serves htemple hwishes heq =>
      subst heq
      exact h.serve hs hg htemple hwishes hlost

theorem history_start (ioThreads : ℕ) (soul : Soul) (config : Config) :
    (start ioThreads soul config).History where
  counter := rfl
  welcomed := by
    intro token
    apply iff_of_false
    · exact fun hmem => by cases hmem
    · rintro ⟨hle, hlt⟩
      exact absurd hlt (Nat.not_lt_of_le hle)
  proper := successive_nil
  refines := by
    rintro _ ⟨⟩
    exact Temple.refines_worship soul config
  parted := fun _ hmem => by cases hmem

/-- A decree that has been sent stays sent. -/
theorem Talks.decrees (h : Talks s s') : s.decrees <+: s'.decrees := by
  cases h with
  | silent h => rw [h.decrees]
  | asks said h => exact h.decrees ▸ List.prefix_rfl
  | answers known h => exact h.decrees ▸ List.prefix_append _ _
  | welcomes h => exact h.decrees ▸ List.prefix_append _ _
  | parts known lost had h => exact h.decrees ▸ List.prefix_append _ _
  | @serves temple wish wishes htemple hwishes h =>
      subst h
      unfold serve
      split
      · exact List.prefix_append _ _
      · exact List.prefix_rfl

/-- No goodbye is said to a client that is lost. -/
theorem Talks.no_goodbye (h : Talks s s') (hlost : s.holders token = 0)
    (hnever : .goodbye token ∉ s.decrees) : .goodbye token ∉ s'.decrees := by
  have hconcat : ∀ decree, decree ≠ .goodbye token → .goodbye token ∉ s.decrees ++ [decree] := by
    intro decree hne hmem
    rw [List.mem_append, List.mem_singleton] at hmem
    exact hmem.elim hnever fun heq => hne heq.symm
  cases h with
  | silent h =>
      rw [h.decrees]
      exact hnever
  | asks said h =>
      rw [h.decrees]
      exact hnever
  | answers known h =>
      rw [h.decrees]
      exact hconcat _ fun heq => by cases heq
  | welcomes h =>
      rw [h.decrees]
      exact hconcat _ fun heq => by cases heq
  | parts known lost had h =>
      rw [h.decrees]
      apply hconcat
      rintro ⟨⟩
      exact had hlost
  | @serves temple wish wishes htemple hwishes h =>
      subst h
      unfold serve
      split
      case h_1 temple' decree hturn =>
        apply hconcat
        rintro rfl
        obtain ⟨response, heq⟩ | ⟨event, message, heq⟩ := turn_decree (congrArg Prod.snd hturn)
        · cases heq
        · cases heq
      case h_2 => exact hnever

end Server

/-! ### Egress follows the server -/

namespace Realm

variable {build : Build} {streams : Token → TcpStream} {room : ℕ → ℕ} {r r' : Realm}

variable (build streams room) in
/-- A step of the server, or of egress, or the server loop takes a notice. -/
inductive Takes (r : Realm) : Action → Realm → Prop
  | server {action : Server.Action} {hnotice : ∀ token, action ≠ .notice token} {server : Server}
      (h : r.server.step build streams action = .ok server) :
      Takes r (.server action hnotice) { r with server }
  | process {decree : Decree} (h : r.server.decrees[r.processed]? = some decree) :
      Takes r .process { r with
        egress := r.egress.process room decree
        processed := r.processed + 1 }
  | notice {token : Token} {server : Server} (htoken : r.egress.notices[r.noticed]? = some token)
      (h : r.server.step build streams (.notice token) = .ok server) :
      Takes r .notice { r with server, noticed := r.noticed + 1 }

/-- **What a step can do.** -/
theorem step_takes {action : Action} (h : r.step build streams room action = .ok r') :
    Takes build streams room r action r' := by
  cases action with
  | server action hnotice =>
      cases hserver : r.server.step build streams action with
      | error e =>
          simp only [step, hserver] at h
          cases h
      | ok server =>
          simp only [step, hserver] at h
          cases h
          exact .server hserver
  | process =>
      cases hdecree : r.server.decrees[r.processed]? with
      | none =>
          simp only [step, hdecree] at h
          cases h
      | some decree =>
          simp only [step, hdecree] at h
          cases h
          exact .process hdecree
  | notice =>
      cases htoken : r.egress.notices[r.noticed]? with
      | none =>
          simp only [step, htoken] at h
          cases h
      | some token =>
          cases hserver : r.server.step build streams (.notice token) with
          | error e =>
              simp only [step, htoken, hserver] at h
              cases h
          | ok server =>
              simp only [step, htoken, hserver] at h
              cases h
              exact .notice htoken hserver

/-- The server of a realm runs as it does alone. -/
theorem exists_serverRun {actions : List Action}
    (h : Run (step build streams room) r actions r') :
    ∃ actions', Run (Server.step build streams) r.server actions' r'.server := by
  induction h with
  | nil r => exact ⟨[], .nil _⟩
  | cons hstep _ ih =>
      obtain ⟨actions', hrest⟩ := ih
      cases step_takes hstep with
      | server hserver => exact ⟨_ :: actions', .cons hserver hrest⟩
      | process hdecree => exact ⟨actions', hrest⟩
      | notice htoken hserver => exact ⟨_ :: actions', .cons hserver hrest⟩

/-- The decrees that egress has taken. -/
def taken (r : Realm) : List Decree := r.server.decrees.take r.processed

/-- What holds of every state that a run reaches. -/
structure Chronicle (build : Build) (streams : Token → TcpStream) (room : ℕ → ℕ) (r : Realm) :
    Prop where
  sound : r.server.Sound build streams
  genuine : r.server.Genuine
  history : r.server.History
  processed : r.processed ≤ r.server.decrees.length
  egress : r.egress = Egress.received room r.taken

theorem Chronicle.serverStep (h : r.Chronicle build streams room) {server : Server} (noticed : ℕ)
    (hstep : Server.Transition build streams r.server server) :
    ({ r with server, noticed } : Realm).Chronicle build streams room := by
  obtain ⟨more, hmore⟩ := (hstep.talks h.sound h.genuine).decrees
  refine ⟨h.sound.step hstep, h.genuine.step hstep, h.history.step h.sound h.genuine hstep, ?_, ?_⟩
  · show r.processed ≤ server.decrees.length
    rw [← hmore, List.length_append]
    exact h.processed.trans (Nat.le_add_right _ _)
  · show r.egress = Egress.received room (server.decrees.take r.processed)
    rw [← hmore, List.take_append_of_le_length h.processed]
    exact h.egress

/-- The step lemma. -/
theorem Chronicle.step (h : r.Chronicle build streams room) {action : Action}
    (hstep : r.step build streams room action = .ok r') : r'.Chronicle build streams room := by
  cases step_takes hstep with
  | server hserver => exact h.serverStep r.noticed (Server.step_transition hserver)
  | notice htoken hserver => exact h.serverStep _ (Server.step_transition hserver)
  | @process decree hdecree =>
      obtain ⟨hlt, hget⟩ := List.getElem?_eq_some_iff.mp hdecree
      refine ⟨h.sound, h.genuine, h.history, hlt, ?_⟩
      have htaken : r.server.decrees.take (r.processed + 1) = r.taken ++ [decree] := by
        rw [List.take_add_one, hdecree]
        rfl
      show r.egress.process room decree =
        Egress.received room (r.server.decrees.take (r.processed + 1))
      rw [htaken, Egress.received_concat, h.egress]

theorem chronicle_start (build : Build) (streams : Token → TcpStream) (room : ℕ → ℕ)
    (ioThreads : ℕ) (soul : Soul) (config : Config) :
    (start ioThreads soul config).Chronicle build streams room where
  sound := Server.sound_start build streams ioThreads soul config
  genuine := Server.genuine_start ioThreads soul config
  history := Server.history_start ioThreads soul config
  processed := Nat.le_refl 0
  egress := rfl

theorem chronicle_run {ioThreads : ℕ} {soul : Soul} {config : Config} {actions : List Action}
    (hrun : Run (step build streams room) (start ioThreads soul config) actions r) :
    r.Chronicle build streams room := by
  apply hrun.invariant (P := fun _ => True) _ (fun _ _ => trivial)
    (chronicle_start build streams room ioThreads soul config)
  intro r action r' _ hr hstep
  exact hr.step hstep

theorem Chronicle.proper_taken (h : r.Chronicle build streams room) :
    Successive Egress.Proper r.taken := by
  have hall := h.history.proper
  rw [← List.take_append_drop r.processed r.server.decrees] at hall
  exact hall.of_append

theorem Chronicle.get?_iff (h : r.Chronicle build streams room) (n : Stream) (stream : Stream) :
    r.egress.egressMap.get? (n + 1) = some stream ↔
      stream = n ∧ .welcome (n + 1) ∈ r.taken ∧ .goodbye (n + 1) ∉ r.taken := by
  have hproper := h.proper_taken
  have hisSome := (Egress.tracks room (n + 1) (Egress.Proper.successive_greets hproper)).isSome
  have hnumber := (Egress.belongs room hproper).number (n + 1)
  rw [h.egress]
  constructor
  · intro hget
    refine ⟨(Nat.succ.inj (hnumber stream hget)).symm, ?_⟩
    rw [← hisSome, hget]
    rfl
  · rintro ⟨rfl, hopen⟩
    obtain ⟨stream, hget⟩ := Option.isSome_iff_exists.mp (hisSome.mpr hopen)
    rw [hget, Nat.succ.inj (hnumber stream hget)]

end Realm

open Realm in
/-- **From Welcome to Goodbye.**  At any time of any run, stream `n` is that of client `n + 1` from
the Welcome to the Goodbye that egress has taken; the writes to it, failed ones among them, are
those of the packets for the client between the two.  Both are sent at most once, nothing that
concerns the client is sent before its Welcome, and when goodbye is said its pilgrim is gone. -/
theorem connection_history {build : Build} {streams : Token → TcpStream} {room : ℕ → ℕ}
    {ioThreads : ℕ} {soul : Soul} {config : Config} {actions : List Realm.Action} {r : Realm}
    (hrun : Run (Realm.step build streams room) (.start ioThreads soul config) actions r)
    (n : Stream) :
    (∀ stream, r.egress.egressMap.get? (n + 1) = some stream ↔
      stream = n ∧ .welcome (n + 1) ∈ r.taken ∧ .goodbye (n + 1) ∉ r.taken) ∧
    (r.egress.on n).map Write.packet =
      Egress.packetsFor (n + 1) (Egress.beforeGoodbye (n + 1) r.taken) ∧
    r.server.decrees.count (.welcome (n + 1)) ≤ 1 ∧
    r.server.decrees.count (.goodbye (n + 1)) ≤ 1 ∧
    (∀ pre decree post, r.server.decrees = pre ++ decree :: post →
      (decree = .goodbye (n + 1) ∨ ∃ p ∈ decree.packets, p.1 = n + 1) →
        .welcome (n + 1) ∈ pre) ∧
    (.goodbye (n + 1) ∈ r.server.decrees → r.server.holders (n + 1) = 0) := by
  have h := chronicle_run hrun
  have hproper := h.history.proper
  refine ⟨h.get?_iff n, ?_, ?_, ?_, ?_, h.history.parted (n + 1)⟩
  · rw [h.egress]
    exact (Egress.belongs room h.proper_taken).packets n
  · apply Egress.count_le_one_of_successive
    rintro pre _ post hsplit rfl
    exact (hproper pre _ post hsplit).greets
  · apply Egress.count_le_one_of_successive
    rintro pre _ post hsplit rfl
    exact (hproper pre _ post hsplit).once (n + 1) rfl
  · rintro pre decree post hsplit (rfl | ⟨p, hp, htoken⟩)
    · exact (hproper pre _ post hsplit).greets
    · rw [← htoken]
      exact (hproper pre _ post hsplit).greets.packets p hp

/-- The client has hung up, and goodbye is said to it. -/
theorem connection_history_hungUp :
    ∃ r, Run (Realm.step .release (fun _ => [.closed]) fun _ => 100) (.start 1 Soul.new ∅)
        (firstSong ++ singing 2 ++ [.process]) r ∧
      .goodbye 1 ∈ r.taken ∧ r.egress.egressMap.get? 1 = none ∧ r.server.holders 1 = 0 := by
  obtain ⟨r, hrun, hseen⟩ := exists_run
    (Realm.start 1 Soul.new ∅) (firstSong ++ singing 2 ++ [.process])
    (fun r : Realm => decide (.goodbye 1 ∈ r.taken))
    (by decide +kernel : (runAll (Realm.step .release (fun _ => [.closed]) fun _ => 100)
      _ _).map _ = .ok true)
  rw [decide_eq_true_eq] at hseen
  obtain ⟨hstream, -, -, -, -, hlost⟩ := connection_history hrun 0
  refine ⟨r, hrun, hseen, ?_, hlost (List.mem_of_mem_take hseen)⟩
  cases hget : r.egress.egressMap.get? 1 with
  | none => rfl
  | some stream => exact absurd hseen ((hstream stream).mp hget).2.2

open Realm in
/-- **A connection whose pilgrim is lost is never closed.**  When the pilgrim of a client is nowhere
and no goodbye has been said, none is ever said, and egress keeps the stream for ever. -/
theorem lost_stays_open {build : Build} {streams : Token → TcpStream} {room : ℕ → ℕ}
    {ioThreads : ℕ} {soul : Soul} {config : Config} {actions actions' : List Realm.Action}
    {r r' : Realm} {n : Stream}
    (hrun : Run (Realm.step build streams room) (.start ioThreads soul config) actions r)
    (hlater : Run (Realm.step build streams room) r actions' r')
    (hknown : r.server.Known (n + 1)) (hlost : r.server.holders (n + 1) = 0)
    (hnever : .goodbye (n + 1) ∉ r.server.decrees) :
    r'.server.holders (n + 1) = 0 ∧ .goodbye (n + 1) ∉ r'.server.decrees ∧
      (.welcome (n + 1) ∈ r'.taken → r'.egress.egressMap.get? (n + 1) = some n) := by
  have hall := chronicle_run (hrun.append hlater)
  have hkeeps : r'.server.Known (n + 1) ∧ r'.server.holders (n + 1) = 0 ∧
      .goodbye (n + 1) ∉ r'.server.decrees := by
    have hstep : ∀ server server', server.Sound build streams → server.Genuine →
        Server.Transition build streams server server' →
        (server.Known (n + 1) ∧ server.holders (n + 1) = 0 ∧
          .goodbye (n + 1) ∉ server.decrees) →
        server'.Known (n + 1) ∧ server'.holders (n + 1) = 0 ∧
          .goodbye (n + 1) ∉ server'.decrees := by
      rintro server server' hs hg htransition ⟨hknown, hlost, hnever⟩
      exact ⟨hknown.transition htransition, htransition.stays_lost hs hknown hlost,
        (htransition.talks hs hg).no_goodbye hlost hnever⟩
    have hinvariant := hlater.invariant (I := fun r => r.Chronicle build streams room ∧
      r.server.Known (n + 1) ∧ r.server.holders (n + 1) = 0 ∧
        .goodbye (n + 1) ∉ r.server.decrees) (P := fun _ => True) ?_ (fun _ _ => trivial)
      ⟨chronicle_run hrun, hknown, hlost, hnever⟩
    · exact hinvariant.2
    · rintro r action r' - ⟨hr, hkept⟩ haction
      refine ⟨hr.step haction, ?_⟩
      cases step_takes haction with
      | server hserver =>
          exact hstep _ _ hr.sound hr.genuine (Server.step_transition hserver) hkept
      | process hdecree => exact hkept
      | notice htoken hserver =>
          exact hstep _ _ hr.sound hr.genuine (Server.step_transition hserver) hkept
  obtain ⟨-, hlost', hnever'⟩ := hkeeps
  refine ⟨hlost', hnever', ?_⟩
  intro hwelcome
  apply (hall.get?_iff n n).mpr
  exact ⟨rfl, hwelcome, fun hgoodbye => hnever' (List.mem_of_mem_take hgoodbye)⟩

theorem collect_ne_notice (token : Token) : Server.Action.collect ≠ .notice token := by
  intro heq
  cases heq

theorem accept_ne_notice (token : Token) : Server.Action.accept ≠ .notice token := by
  intro heq
  cases heq

/-- Client 1 sends PING, gets its pilgrim back into the map, and its reply cannot be written. -/
def droppedAfterFailure : List Realm.Action :=
  firstSong ++ singing 9 ++ [.server .collect collect_ne_notice, .process, .notice]

theorem holders_eq_zero {s : Server} {token : Token} (hmapped : s.ingressMap.get? token = none)
    (hsongs : s.songs = []) (hreturned : s.returned = [])
    (hangels : s.angels.filterMap (Server.sungAt token) = []) : s.holders token = 0 := by
  simp [Server.holders, Custody.found, hmapped, hsongs, hreturned, hangels]

/-- Its connection stays open when the next client comes. -/
theorem lost_stays_open_dropped :
    ∃ r r', Run (Realm.step .release (fun _ => [.data 42 (ascii "1\r\n$4\r\nPING\r\n")])
        fun _ => 0) (.start 1 Soul.new ∅) droppedAfterFailure r ∧
      Run (Realm.step .release (fun _ => [.data 42 (ascii "1\r\n$4\r\nPING\r\n")]) fun _ => 0) r
        [.server .accept accept_ne_notice] r' ∧
      r'.server.holders 1 = 0 ∧ .goodbye 1 ∉ r'.server.decrees ∧
      r'.egress.egressMap.get? 1 = some 0 := by
  let streams : Token → TcpStream := fun _ => [.data 42 (ascii "1\r\n$4\r\nPING\r\n")]
  obtain ⟨r, r', hrun, hlater, hseen⟩ := exists_runs (Realm.start 1 Soul.new ∅)
    droppedAfterFailure [.server .accept accept_ne_notice]
    (fun r r' : Realm => decide (1 < r.server.pilgrimCounter) &&
      (r.server.ingressMap.get? 1).isNone && r.server.songs.isEmpty && r.server.returned.isEmpty &&
      (r.server.angels.filterMap (Server.sungAt 1)).isEmpty &&
      decide (.goodbye 1 ∉ r.server.decrees) && decide (.welcome 1 ∈ r'.taken))
    (by decide +kernel : ((runAll (Realm.step .release streams fun _ => 0) _ _).bind fun r =>
      (runAll (Realm.step .release streams fun _ => 0) r _).map _) = .ok true)
  simp only [Bool.and_eq_true, decide_eq_true_eq, Option.isNone_iff_eq_none,
    List.isEmpty_iff] at hseen
  obtain ⟨⟨⟨⟨⟨⟨hknown, hmapped⟩, hsongs⟩, hreturned⟩, hangels⟩, hnever⟩, hwelcome⟩ := hseen
  obtain ⟨hlost, hnever', hopen⟩ := lost_stays_open hrun hlater ⟨le_rfl, hknown⟩
    (holders_eq_zero hmapped hsongs hreturned hangels) hnever
  exact ⟨r, r', hrun, hlater, hlost, hnever', hopen hwelcome⟩

end Heaven
