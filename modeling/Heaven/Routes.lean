import Heaven.Accepted

/-! # Which commands go to the temple

A command reaches egress on one of two routes: the worker answers it, or it becomes a wish and the
temple answers it.  `passes` says for every word of the dispatch which terms get through the
checks of its handler, in terms of their number and their parsable arguments.  `toTemple_iff` and
`toEgress_iff` say that these are exactly the commands that are sent to the temple; only LINDEX
with a wrong number of terms can take both routes. -/

namespace Heaven

open Decimal (ascii)

namespace Grant

def parses {α : Type} (result : Except Sin α) : Bool :=
  match result with
  | .ok _ => true
  | .error _ => false

/-! ### The terms that get through the checks -/

def passesLength (n : ℕ) (terms : List Bytes) : Bool := decide (terms.length = n)

def passesAtLeast (n : ℕ) (terms : List Bytes) : Bool := decide (n ≤ terms.length)

def passesIndex : List Bytes → Bool
  | [_, _, index, _] => parses (bytesToI32 index)
  | _ => false

def passesPop : List Bytes → Bool
  | [_, _] => true
  | [_, _, count] => parses (bytesToUsize count)
  | _ => false

def passesSet : List Bytes → Bool
  | [_, _, _] => true
  | [_, _, _, cmd, expiry] => eqIgnoreAsciiCase cmd (ascii "EX") && parses (bytesToU64 expiry)
  | _ => false

def passesIncrby : List Bytes → Bool
  | [_, _, number] => parses (bytesToI64 number)
  | _ => false

def passesExpire : List Bytes → Bool
  | [_, _, expiry] => parses (bytesToU64 expiry)
  | _ => false

def passesLrange : List Bytes → Bool
  | [_, _, startingIndex, endingIndex] =>
      parses (bytesToI32 startingIndex) && parses (bytesToI32 endingIndex)
  | _ => false

/-- More terms do not keep LINDEX from the temple. -/
def passesLindex : List Bytes → Bool
  | _ :: _ :: index :: _ => parses (bytesToI32 index)
  | _ => false

def passesConfig : List Bytes → Bool
  | _ :: cmd :: _ :: _ => eqIgnoreAsciiCase cmd (ascii "GET")
  | _ => false

def passesMset (terms : List Bytes) : Bool :=
  decide (3 ≤ terms.length) && decide (terms.length % 2 = 1)

def passesHset (terms : List Bytes) : Bool :=
  decide (4 ≤ terms.length) && decide (terms.length % 2 = 0)

/-- The handler sends a wish precisely if the terms pass. -/
def Sends (handler : Handler) (pass : List Bytes → Bool) : Prop :=
  ∀ clock token terms, (∃ wish, Emission.toTemple wish ∈ handler clock token terms) ↔
    pass terms = true

/-! ### Shapes of handlers -/

@[simp] theorem exists_wish_reply (token : Token) (response : Response) :
    (∃ wish, Emission.toTemple wish ∈ reply token response) ↔ False := by
  simp [reply]

@[simp] theorem exists_wish_pray (token : Token) (command : ClientCommandType) :
    (∃ wish, Emission.toTemple wish ∈ pray token command) ↔ True := by
  simp [pray]

theorem sends_keyHandler (cmd : Command) (make : SystemTime → Bytes → DatabaseCommand) :
    Sends (keyHandler cmd make) (passesLength 2) := by
  intro clock token terms
  rcases terms with _ | ⟨word, _ | ⟨key, _ | ⟨a, rest⟩⟩⟩ <;>
    simp [keyHandler, passesLength, incorrectNumberOfArguments]

theorem sends_keyArgumentHandler (cmd : Command)
    (make : SystemTime → Bytes → Bytes → ClientCommandType) :
    Sends (keyArgumentHandler cmd make) (passesLength 3) := by
  intro clock token terms
  rcases terms with _ | ⟨word, _ | ⟨key, _ | ⟨a, _ | ⟨b, rest⟩⟩⟩⟩ <;>
    simp [keyArgumentHandler, passesLength, incorrectNumberOfArguments]

theorem sends_keyListHandler (cmd : Command)
    (make : SystemTime → Bytes → List Bytes → DatabaseCommand) :
    Sends (keyListHandler cmd make) (passesAtLeast 3) := by
  intro clock token terms
  unfold keyListHandler passesAtLeast incorrectNumberOfArguments
  rw [decide_eq_true_iff]
  split_ifs with hlen
  · rw [exists_wish_reply, false_iff]
    omega
  · rcases terms with _ | ⟨word, _ | ⟨key, rest⟩⟩
    · simp at hlen
    · simp at hlen
    · exact iff_of_true ⟨_, List.mem_cons_self⟩ (not_lt.mp hlen)

theorem sends_keysHandler (cmd : Command) (make : SystemTime → List Bytes → ClientCommandType) :
    Sends (keysHandler cmd make) (passesAtLeast 2) := by
  intro clock token terms
  unfold keysHandler passesAtLeast incorrectNumberOfArguments
  rw [decide_eq_true_iff]
  split_ifs with hlen
  · rw [exists_wish_reply, false_iff]
    omega
  · exact iff_of_true ⟨_, List.mem_cons_self⟩ (not_lt.mp hlen)

theorem sends_indexHandler (cmd : Command)
    (make : SystemTime → Bytes → ℤ → Bytes → DatabaseCommand) :
    Sends (indexHandler cmd make) passesIndex := by
  intro clock token terms
  rcases terms with _ | ⟨word, _ | ⟨key, _ | ⟨index, _ | ⟨a, _ | ⟨b, rest⟩⟩⟩⟩⟩
  case cons.cons.cons.cons.nil =>
    cases h : bytesToI32 index <;> simp [indexHandler, passesIndex, h, parses, incorrectUsage]
  all_goals simp [indexHandler, passesIndex, incorrectNumberOfArguments]

theorem sends_popHandler (cmd : Command) (one : SystemTime → Bytes → DatabaseCommand)
    (many : SystemTime → Bytes → ℕ → DatabaseCommand) :
    Sends (popHandler cmd one many) passesPop := by
  intro clock token terms
  rcases terms with _ | ⟨word, _ | ⟨key, _ | ⟨count, _ | ⟨a, rest⟩⟩⟩⟩
  case cons.cons.cons.nil =>
    cases h : bytesToUsize count <;> simp [popHandler, passesPop, h, parses, incorrectUsage]
  all_goals simp [popHandler, passesPop, incorrectNumberOfArguments]

theorem sends_constantHandler (cmd : Command) (info : InfoType) :
    Sends (constantHandler cmd info) fun _ => false := by
  intro clock token terms
  unfold constantHandler incorrectNumberOfArguments
  split_ifs <;> simp

theorem sends_set : Sends set passesSet := by
  intro clock token terms
  rcases terms with _ | ⟨word, _ | ⟨key, _ | ⟨value, _ | ⟨cmd, _ | ⟨expiry, _ | ⟨a, rest⟩⟩⟩⟩⟩⟩
  case cons.cons.cons.cons.cons.nil =>
    cases hcmd : eqIgnoreAsciiCase cmd (ascii "EX") <;>
      cases hexpiry : bytesToU64 expiry <;>
      simp [set, passesSet, hcmd, hexpiry, parses, incorrectUsage, incorrectNumberOfArguments]
  case cons.cons.cons.cons.nil =>
    cases hcmd : eqIgnoreAsciiCase cmd (ascii "EX") <;>
      simp [set, passesSet, hcmd, incorrectUsage, incorrectNumberOfArguments]
  all_goals simp [set, passesSet, incorrectNumberOfArguments]

theorem sends_incrby : Sends incrby passesIncrby := by
  intro clock token terms
  rcases terms with _ | ⟨word, _ | ⟨key, _ | ⟨number, _ | ⟨a, rest⟩⟩⟩⟩
  case cons.cons.cons.nil =>
    cases h : bytesToI64 number <;> simp [incrby, passesIncrby, h, parses, incorrectUsage]
  all_goals simp [incrby, passesIncrby, incorrectNumberOfArguments]

theorem sends_expire : Sends expire passesExpire := by
  intro clock token terms
  rcases terms with _ | ⟨word, _ | ⟨key, _ | ⟨expiry, _ | ⟨a, rest⟩⟩⟩⟩
  case cons.cons.cons.nil =>
    cases h : bytesToU64 expiry <;> simp [expire, passesExpire, h, parses, incorrectUsage]
  all_goals simp [expire, passesExpire, incorrectNumberOfArguments]

theorem sends_lrange : Sends lrange passesLrange := by
  intro clock token terms
  rcases terms with _ | ⟨word, _ | ⟨key, _ | ⟨startingIndex, _ | ⟨endingIndex, _ | ⟨a, rest⟩⟩⟩⟩⟩
  case cons.cons.cons.cons.nil =>
    cases hs : bytesToI32 startingIndex <;> cases he : bytesToI32 endingIndex <;>
      simp [lrange, passesLrange, hs, he, parses, incorrectUsage]
  all_goals simp [lrange, passesLrange, incorrectNumberOfArguments]

theorem sends_lindex : Sends lindex passesLindex := by
  intro clock token terms
  rcases terms with _ | ⟨word, _ | ⟨key, _ | ⟨index, rest⟩⟩⟩
  case cons.cons.cons =>
    cases h : bytesToI32 index <;> cases rest <;>
      simp [lindex, passesLindex, h, parses, incorrectUsage, incorrectNumberOfArguments, reply,
        pray]
  all_goals simp [lindex, passesLindex, incorrectNumberOfArguments, reply]

theorem sends_config : Sends config passesConfig := by
  intro clock token terms
  rcases terms with _ | ⟨word, _ | ⟨cmd, _ | ⟨a, rest⟩⟩⟩
  case cons.cons.cons =>
    have hlen : ¬ (word :: cmd :: a :: rest).length < 3 := by simp
    unfold config passesConfig incorrectUsage
    rw [if_neg hlen]
    cases h : eqIgnoreAsciiCase cmd (ascii "GET") <;> simp [h]
  all_goals simp [config, passesConfig, incorrectNumberOfArguments]

theorem sends_mset : Sends mset passesMset := by
  intro clock token terms
  unfold mset passesMset incorrectNumberOfArguments
  split_ifs with h
  · rw [exists_wish_reply, false_iff, Bool.and_eq_true, decide_eq_true_iff, decide_eq_true_iff]
    omega
  · rw [exists_wish_pray, true_iff, Bool.and_eq_true, decide_eq_true_iff, decide_eq_true_iff]
    omega

theorem sends_hset : Sends hset passesHset := by
  intro clock token terms
  unfold hset passesHset incorrectNumberOfArguments
  split_ifs with h
  · rw [exists_wish_reply, false_iff, Bool.and_eq_true, decide_eq_true_iff, decide_eq_true_iff]
    omega
  · rcases terms with _ | ⟨word, _ | ⟨key, rest⟩⟩
    · simp at h
    · simp at h
    · apply iff_of_true ⟨_, List.mem_cons_self⟩
      rw [Bool.and_eq_true, decide_eq_true_iff, decide_eq_true_iff]
      omega

theorem sends_unsubscribe : Sends unsubscribe fun _ => true := by
  intro clock token terms
  simp [unsubscribe]

theorem sends_quit : Sends quit fun _ => false := by
  intro clock token terms
  simp [quit]

/-! ### The dispatch -/

/-- For every word of the dispatch, the terms that get through. -/
def passes : List (Bytes × (List Bytes → Bool)) :=
  [(ascii "SET", passesSet), (ascii "GET", passesLength 2), (ascii "PING", fun _ => false),
    (ascii "DEL", passesAtLeast 2), (ascii "EXISTS", passesAtLeast 2),
    (ascii "INCRBY", passesIncrby), (ascii "INCR", passesLength 2),
    (ascii "DECR", passesLength 2), (ascii "APPEND", passesLength 3), (ascii "HSET", passesHset),
    (ascii "HGET", passesLength 3), (ascii "HMGET", passesAtLeast 3),
    (ascii "STRLEN", passesLength 2), (ascii "HDEL", passesAtLeast 3),
    (ascii "HEXISTS", passesLength 3), (ascii "HLEN", passesLength 2),
    (ascii "LPUSH", passesAtLeast 3), (ascii "LPOP", passesPop), (ascii "RPUSH", passesAtLeast 3),
    (ascii "RPOP", passesPop), (ascii "LLEN", passesLength 2), (ascii "LRANGE", passesLrange),
    (ascii "LINDEX", passesLindex), (ascii "LSET", passesIndex), (ascii "LREM", passesIndex),
    (ascii "EXPIRE", passesExpire), (ascii "TTL", passesLength 2),
    (ascii "SUBSCRIBE", passesAtLeast 2), (ascii "PUBLISH", passesLength 3),
    (ascii "MSET", passesMset), (ascii "MGET", passesAtLeast 2), (ascii "SADD", passesAtLeast 3),
    (ascii "SREM", passesAtLeast 3), (ascii "SISMEMBER", passesLength 3),
    (ascii "HGETALL", passesLength 2), (ascii "SMEMBERS", passesLength 2),
    (ascii "UNSUBSCRIBE", fun _ => true), (ascii "CONFIG", passesConfig),
    (ascii "QUIT", fun _ => false), (ascii "COMMAND", fun _ => false)]

theorem handlers_passes : List.Forall₂ (fun entry entry' => entry.1 = entry'.1 ∧
    Sends entry.2 entry'.2) handlers passes := by
  unfold handlers passes
  simp only [List.forall₂_cons, List.forall₂_nil_left_iff, true_and, and_true]
  exact ⟨sends_set, sends_keyHandler _ _, sends_constantHandler _ _, sends_keysHandler _ _,
    sends_keysHandler _ _, sends_incrby, sends_keyHandler _ _, sends_keyHandler _ _,
    sends_keyArgumentHandler _ _, sends_hset, sends_keyArgumentHandler _ _,
    sends_keyListHandler _ _, sends_keyHandler _ _, sends_keyListHandler _ _,
    sends_keyArgumentHandler _ _, sends_keyHandler _ _, sends_keyListHandler _ _,
    sends_popHandler _ _ _, sends_keyListHandler _ _, sends_popHandler _ _ _,
    sends_keyHandler _ _, sends_lrange, sends_lindex, sends_indexHandler _ _,
    sends_indexHandler _ _, sends_expire, sends_keyHandler _ _, sends_keysHandler _ _,
    sends_keyArgumentHandler _ _, sends_mset, sends_keysHandler _ _, sends_keyListHandler _ _,
    sends_keyListHandler _ _, sends_keyArgumentHandler _ _, sends_keyHandler _ _,
    sends_keyHandler _ _, sends_unsubscribe, sends_config, sends_quit,
    sends_constantHandler _ _⟩

/-- Two tables with the same keys are looked up alike. -/
theorem find?_forall₂ {α β κ : Type} {R : α → β → Prop} {q : κ → Bool} :
    ∀ {l : List (κ × α)} {l' : List (κ × β)},
      List.Forall₂ (fun e e' => e.1 = e'.1 ∧ R e.2 e'.2) l l' →
      (l.find? (fun e => q e.1) = none ∧ l'.find? (fun e => q e.1) = none) ∨
        ∃ k a b, l.find? (fun e => q e.1) = some (k, a) ∧
          l'.find? (fun e => q e.1) = some (k, b) ∧ R a b
  | _, _, .nil => .inl ⟨rfl, rfl⟩
  | (k, a) :: l, (k', b) :: l', .cons h rest => by
      obtain ⟨rfl, hR⟩ := h
      by_cases hk : q k = true
      · exact .inr ⟨k, a, b, List.find?_cons_of_pos hk, List.find?_cons_of_pos hk, hR⟩
      · have hskip : ((k, a) :: l).find? (fun e => q e.1) = l.find? (fun e => q e.1) :=
          List.find?_cons_of_neg hk
        have hskip' : ((k, b) :: l').find? (fun e => q e.1) = l'.find? (fun e => q e.1) :=
          List.find?_cons_of_neg hk
        rw [hskip, hskip']
        exact find?_forall₂ rest

end Grant

open Grant

/-- The command gets through the checks of its handler and is sent to the temple. -/
def GoesToTemple (terms : List Bytes) (h : terms ≠ []) : Prop :=
  match passes.find? fun entry => eqIgnoreAsciiCase (terms.head h) entry.1 with
  | some (_, pass) => pass terms = true
  | none => False

instance (terms : List Bytes) (h : terms ≠ []) : Decidable (GoesToTemple terms h) := by
  unfold GoesToTemple
  cases passes.find? fun entry => eqIgnoreAsciiCase (terms.head h) entry.1 with
  | none => exact inferInstanceAs (Decidable False)
  | some entry => exact inferInstanceAs (Decidable (entry.2 terms = true))

/-- The worker answers the command: it does not get through, or it is LINDEX with a wrong number of
terms. -/
def AnsweredByWorker (terms : List Bytes) (h : terms ≠ []) : Prop :=
  ¬ GoesToTemple terms h ∨ MisusesLindex terms h

instance (terms : List Bytes) (h : terms ≠ []) : Decidable (AnsweredByWorker terms h) :=
  inferInstanceAs (Decidable (_ ∨ _))

theorem toTemple_iff (terms : List Bytes) (h : terms ≠ []) (clock : SystemTime) (token : Token) :
    (∃ wish, Emission.toTemple wish ∈ grant terms h clock token) ↔ GoesToTemple terms h := by
  unfold grant GoesToTemple handlerOf
  obtain ⟨hnone, hnone'⟩ | ⟨word, handler, pass, hsome, hsome', hsends⟩ :=
    find?_forall₂ (q := eqIgnoreAsciiCase (terms.head h)) handlers_passes
  · rw [hnone, hnone']
    exact exists_wish_reply _ _
  · rw [hsome, hsome']
    exact hsends clock token terms

theorem toEgress_iff (terms : List Bytes) (h : terms ≠ []) (clock : SystemTime) (token : Token) :
    (∃ decree, Emission.toEgress decree ∈ grant terms h clock token) ↔
      AnsweredByWorker terms h := by
  unfold AnsweredByWorker
  rw [← toTemple_iff terms h clock token]
  by_cases hmisuse : MisusesLindex terms h
  · obtain ⟨rest, -, hgrant⟩ := grant_misused hmisuse clock token
    rw [hgrant]
    exact iff_of_true ⟨_, List.mem_append_left _ List.mem_cons_self⟩ (.inr hmisuse)
  · obtain ⟨response, hreply⟩ | ⟨command, -, hpray⟩ := grant_used hmisuse clock token
    · rw [hreply, exists_wish_reply]
      exact iff_of_true ⟨_, List.mem_cons_self⟩ (.inl not_false)
    · rw [hpray, exists_wish_pray]
      simp [pray, hmisuse]

end Heaven
