import Heaven.Grant

/-! # What the handlers send

A handler sends one message: an answer of its own or a wish (`Answers`).  LINDEX alone may put an
answer in front (`grant_answers`).  `Accepts` collects what the checks of the handlers promise
about a wish: 32-bit indices, nonempty argument lists, strings under SET, and times that come
from the clock.  The deadlines that SET and EXPIRE give are the clock and `expiryOf`
(`set_deadline`, `expire_deadline`). -/

namespace Heaven

open Decimal (ascii)
open Grant

/-! ### The promises of the handlers -/

namespace DatabaseCommand

/-- What the argument checks leave of the arguments. -/
def WellFormed : DatabaseCommand → Prop
  | .set _ value => ∃ text, value.1 = .string text
  | .hset _ fieldValuePairs _ => fieldValuePairs ≠ []
  | .hdel _ fields _ | .hmget _ fields _ => fields ≠ []
  | .lpush _ elements _ | .rpush _ elements _ => elements ≠ []
  | .sadd _ values _ | .srem _ values _ => values ≠ []
  | .lrange _ startingIndex endingIndex _ => InI32 startingIndex ∧ InI32 endingIndex
  | .lindex _ index _ | .lset _ index _ _ => InI32 index
  | .lrem _ count _ _ => InI32 count
  | _ => True

/-- The second a command carries. -/
def time? : DatabaseCommand → Option ℕ
  | .get _ time | .append _ _ time | .incr _ time | .incrby _ _ time | .decr _ time
  | .strlen _ time | .del _ time | .exists _ time | .hset _ _ time | .hget _ _ time
  | .hmget _ _ time | .hdel _ _ time | .hexists _ _ time | .hlen _ time | .lpush _ _ time
  | .lpop _ time | .lpopM _ _ time | .rpush _ _ time | .rpop _ time | .rpopM _ _ time
  | .llen _ time | .lrange _ _ _ time | .lindex _ _ time | .lset _ _ _ time | .lrem _ _ _ time
  | .expire _ _ time | .mget _ time | .sadd _ _ time | .srem _ _ time | .sismember _ _ time
  | .hgetall _ time | .smembers _ time => some time
  | .set _ _ | .ttl _ _ | .mset _ | .configGet _ => none

end DatabaseCommand

/-- The wish fits what a handler checks and reads from the clock. -/
def Accepts (clock : SystemTime) : ClientCommandType → Prop
  | .database cmd =>
      cmd.WellFormed ∧ (∀ time, cmd.time? = some time → time = clock.unixSecs) ∧
        ∀ key time, cmd = .ttl key time → time = clock
  | .broadcast (.subscribe events) => events ≠ []
  | .broadcast _ => True

/-- One message: an answer, or a wish the handler accepts. -/
def Answers (clock : SystemTime) (token : Token) (emissions : List Emission) : Prop :=
  (∃ response, emissions = reply token response) ∨
    ∃ command, Accepts clock command ∧ emissions = pray token command

variable {clock : SystemTime} {token : Token}

theorem answers_reply (response : Response) : Answers clock token (reply token response) :=
  Or.inl ⟨response, rfl⟩

theorem answers_pray {command : ClientCommandType} (h : Accepts clock command) :
    Answers clock token (pray token command) :=
  Or.inr ⟨command, h, rfl⟩

theorem inI32_of_bytesToI32 {bytes : Bytes} {i : ℤ} (h : bytesToI32 bytes = .ok i) : InI32 i := by
  have hbounds := parseSigned_bounds h
  unfold InI32
  omega

/-! ### Shapes of handlers -/

/-- A handler that sends one message, whatever it is given. -/
def Single (handler : Handler) : Prop :=
  ∀ clock token terms, Answers clock token (handler clock token terms)

theorem single_keyHandler {cmd : Command} {make : SystemTime → Bytes → DatabaseCommand}
    (h : ∀ clock key, Accepts clock (.database (make clock key))) :
    Single (keyHandler cmd make) := by
  intro clock token terms
  unfold keyHandler
  split_ifs
  · exact answers_reply _
  · split
    · exact answers_pray (h clock _)
    · exact answers_reply _

theorem single_keyArgumentHandler {cmd : Command}
    {make : SystemTime → Bytes → Bytes → ClientCommandType}
    (h : ∀ clock key argument, Accepts clock (make clock key argument)) :
    Single (keyArgumentHandler cmd make) := by
  intro clock token terms
  unfold keyArgumentHandler
  split_ifs
  · exact answers_reply _
  · split
    · exact answers_pray (h clock _ _)
    · exact answers_reply _

theorem single_keyListHandler {cmd : Command}
    {make : SystemTime → Bytes → List Bytes → DatabaseCommand}
    (h : ∀ clock key rest, rest ≠ [] → Accepts clock (.database (make clock key rest))) :
    Single (keyListHandler cmd make) := by
  intro clock token terms
  unfold keyListHandler
  split_ifs with hlen
  · exact answers_reply _
  · -- three terms or more leave a key and a nonempty list
    rcases terms with _ | ⟨_, _ | ⟨key, _ | ⟨argument, rest⟩⟩⟩
    · simp at hlen
    · simp at hlen
    · simp at hlen
    · exact answers_pray (h clock key _ (List.cons_ne_nil argument rest))

theorem single_keysHandler {cmd : Command} {make : SystemTime → List Bytes → ClientCommandType}
    (h : ∀ clock keys, keys ≠ [] → Accepts clock (make clock keys)) :
    Single (keysHandler cmd make) := by
  intro clock token terms
  unfold keysHandler
  split_ifs with hlen
  · exact answers_reply _
  · have hne : terms.drop 1 ≠ [] := by
      intro hnil
      have hlength := congrArg List.length hnil
      simp only [List.length_drop, List.length_nil] at hlength
      omega
    exact answers_pray (h clock _ hne)

theorem single_indexHandler {cmd : Command}
    {make : SystemTime → Bytes → ℤ → Bytes → DatabaseCommand}
    (h : ∀ clock key index element, InI32 index →
      Accepts clock (.database (make clock key index element))) :
    Single (indexHandler cmd make) := by
  intro clock token terms
  unfold indexHandler
  split_ifs
  · exact answers_reply _
  · split
    · split
      · exact answers_pray (h clock _ _ _ (inI32_of_bytesToI32 ‹_›))
      · exact answers_reply _
    · exact answers_reply _

theorem single_popHandler {cmd : Command} {one : SystemTime → Bytes → DatabaseCommand}
    {many : SystemTime → Bytes → ℕ → DatabaseCommand}
    (hone : ∀ clock key, Accepts clock (.database (one clock key)))
    (hmany : ∀ clock key count, Accepts clock (.database (many clock key count))) :
    Single (popHandler cmd one many) := by
  intro clock token terms
  unfold popHandler
  split_ifs
  · exact answers_reply _
  · split
    · split
      · exact answers_pray (hmany clock _ _)
      · exact answers_reply _
    · exact answers_pray (hone clock _)
    · exact answers_reply _

theorem single_constantHandler (cmd : Command) (info : InfoType) :
    Single (constantHandler cmd info) := by
  intro clock token terms
  unfold constantHandler
  split_ifs <;> exact answers_reply _

/-! ### Every handler -/

/-- A wish that carries the second of the handler's clock. -/
theorem accepts_timed {cmd : DatabaseCommand} (hw : cmd.WellFormed)
    (ht : cmd.time? = some clock.unixSecs) : Accepts clock (.database cmd) := by
  refine ⟨hw, ?_, ?_⟩
  · intro time h
    rw [ht] at h
    exact (Option.some.inj h).symm
  · intro key time h
    subst h
    cases ht

/-- A wish without a time. -/
theorem accepts_untimed {cmd : DatabaseCommand} (hw : cmd.WellFormed) (ht : cmd.time? = none)
    (hc : ∀ key time, cmd = .ttl key time → time = clock) : Accepts clock (.database cmd) := by
  refine ⟨hw, ?_, hc⟩
  intro time h
  rw [ht] at h
  cases h

theorem single_set : Single Grant.set := by
  intro clock token terms
  unfold Grant.set
  have haccepts : ∀ key text expiry, Accepts clock (.database (.set key (.string text, expiry))) :=
    fun key text expiry => accepts_untimed ⟨_, rfl⟩ rfl fun _ _ h => nomatch h
  split_ifs
  · exact answers_reply _
  · split
    · exact answers_pray (haccepts _ _ _)
    · split_ifs
      · split
        · exact answers_reply _
        · split
          · exact answers_reply _
          · exact answers_pray (haccepts _ _ _)
      · exact answers_reply _
    · exact answers_reply _

theorem single_incrby : Single incrby := by
  intro clock token terms
  unfold incrby
  split_ifs with hlen
  · exact answers_reply _
  · split
    · split
      · exact answers_reply _
      · exact answers_pray (accepts_timed trivial rfl)
    · -- the silent exit needs fewer than three terms
      rename_i hshort
      rcases terms with _ | ⟨_, _ | ⟨key, _ | ⟨number, rest⟩⟩⟩
      · simp at hlen
      · simp at hlen
      · simp at hlen
      · exact absurd rfl (hshort key number rest)

theorem single_expire : Single expire := by
  intro clock token terms
  unfold expire
  split_ifs
  · exact answers_reply _
  · split
    · split
      · exact answers_reply _
      · exact answers_pray (accepts_timed trivial rfl)
    · exact answers_reply _

theorem single_mset : Single mset := by
  intro clock token terms
  unfold mset
  have haccepts : Accepts clock (.database (.mset (terms.drop 1))) :=
    accepts_untimed trivial rfl fun _ _ h => nomatch h
  split_ifs
  · exact answers_reply _
  · exact answers_pray haccepts

theorem single_hset : Single hset := by
  intro clock token terms
  unfold hset
  split_ifs with hlen
  · exact answers_reply _
  · -- four terms or more leave a key and at least one pair
    rcases terms with _ | ⟨_, _ | ⟨key, _ | ⟨field, _ | ⟨value, rest⟩⟩⟩⟩
    · simp at hlen
    · simp at hlen
    · simp at hlen
    · simp at hlen
    · exact answers_pray (accepts_timed (List.cons_ne_nil _ _) rfl)

theorem single_lrange : Single lrange := by
  intro clock token terms
  unfold lrange
  split_ifs
  · exact answers_reply _
  · split
    · split
      · exact answers_pray
          (accepts_timed ⟨inI32_of_bytesToI32 ‹_›, inI32_of_bytesToI32 ‹_›⟩ rfl)
      · exact answers_reply _
    · exact answers_reply _

theorem single_unsubscribe : Single unsubscribe := fun _ _ _ => answers_pray trivial

theorem single_config : Single config := by
  intro clock token terms
  unfold config
  split_ifs
  · exact answers_reply _
  · split
    · split_ifs
      · exact answers_reply _
      · rename_i properties _ _
        have haccepts : Accepts clock (.database (.configGet properties)) :=
          accepts_untimed trivial rfl fun _ _ h => nomatch h
        exact answers_pray haccepts
    · exact answers_reply _

theorem single_quit : Single quit := fun _ _ _ => answers_reply _

theorem single_ttl : Single ttl :=
  single_keyHandler fun _ _ => accepts_untimed trivial rfl (by rintro _ _ ⟨⟩; rfl)

/-- **Every handler but LINDEX sends one message.** -/
theorem single_of_mem : ∀ e ∈ handlers, e.1 ≠ ascii "LINDEX" → Single e.2 := by
  simp only [handlers, List.forall_mem_cons, List.not_mem_nil, false_implies, implies_true,
    and_true]
  -- in the order of the table
  exact ⟨fun _ => single_set,
    fun _ => single_keyHandler fun _ _ => accepts_timed trivial rfl,
    fun _ => single_constantHandler _ _,
    fun _ => single_keysHandler fun _ _ _ => accepts_timed trivial rfl,
    fun _ => single_keysHandler fun _ _ _ => accepts_timed trivial rfl,
    fun _ => single_incrby,
    fun _ => single_keyHandler fun _ _ => accepts_timed trivial rfl,
    fun _ => single_keyHandler fun _ _ => accepts_timed trivial rfl,
    fun _ => single_keyArgumentHandler fun _ _ _ => accepts_timed trivial rfl,
    fun _ => single_hset,
    fun _ => single_keyArgumentHandler fun _ _ _ => accepts_timed trivial rfl,
    fun _ => single_keyListHandler fun _ _ _ h => accepts_timed h rfl,
    fun _ => single_keyHandler fun _ _ => accepts_timed trivial rfl,
    fun _ => single_keyListHandler fun _ _ _ h => accepts_timed h rfl,
    fun _ => single_keyArgumentHandler fun _ _ _ => accepts_timed trivial rfl,
    fun _ => single_keyHandler fun _ _ => accepts_timed trivial rfl,
    fun _ => single_keyListHandler fun _ _ _ h => accepts_timed h rfl,
    fun _ => single_popHandler (fun _ _ => accepts_timed trivial rfl)
      fun _ _ _ => accepts_timed trivial rfl,
    fun _ => single_keyListHandler fun _ _ _ h => accepts_timed h rfl,
    fun _ => single_popHandler (fun _ _ => accepts_timed trivial rfl)
      fun _ _ _ => accepts_timed trivial rfl,
    fun _ => single_keyHandler fun _ _ => accepts_timed trivial rfl,
    fun _ => single_lrange,
    fun h => absurd rfl h,
    fun _ => single_indexHandler fun _ _ _ _ h => accepts_timed h rfl,
    fun _ => single_indexHandler fun _ _ _ _ h => accepts_timed h rfl,
    fun _ => single_expire,
    fun _ => single_ttl,
    fun _ => single_keysHandler fun _ _ h => h,
    fun _ => single_keyArgumentHandler fun _ _ _ => trivial,
    fun _ => single_mset,
    fun _ => single_keysHandler fun _ _ _ => accepts_timed trivial rfl,
    fun _ => single_keyListHandler fun _ _ _ h => accepts_timed h rfl,
    fun _ => single_keyListHandler fun _ _ _ h => accepts_timed h rfl,
    fun _ => single_keyArgumentHandler fun _ _ _ => accepts_timed trivial rfl,
    fun _ => single_keyHandler fun _ _ => accepts_timed trivial rfl,
    fun _ => single_keyHandler fun _ _ => accepts_timed trivial rfl,
    fun _ => single_unsubscribe,
    fun _ => single_config,
    fun _ => single_quit,
    fun _ => single_constantHandler _ _⟩

/-- What LINDEX sends after its arity check: an answer, or a wish to read an element. -/
def AsksElement (clock : SystemTime) (token : Token) (emissions : List Emission) : Prop :=
  (∃ response, emissions = reply token response) ∨
    ∃ key index, InI32 index ∧
      emissions = pray token (.database (.lindex key index clock.unixSecs))

theorem AsksElement.answers {emissions : List Emission} (h : AsksElement clock token emissions) :
    Answers clock token emissions := by
  obtain ⟨response, rfl⟩ | ⟨key, index, hindex, rfl⟩ := h
  · exact answers_reply _
  · exact answers_pray (accepts_timed hindex rfl)

/-- LINDEX goes on after its arity error. -/
theorem lindex_asks (clock : SystemTime) (token : Token) (terms : List Bytes) :
    ∃ rest, AsksElement clock token rest ∧ lindex clock token terms =
      (if terms.length ≠ 3 then incorrectNumberOfArguments token .lindex else []) ++ rest := by
  refine ⟨_, ?_, rfl⟩
  split
  · split
    · exact Or.inr ⟨_, _, inI32_of_bytesToI32 ‹_›, rfl⟩
    · exact Or.inl ⟨_, rfl⟩
  · exact Or.inl ⟨_, rfl⟩

/-! ### Dispatch -/

/-- The word is LINDEX, in any case, and the number of terms is not three. -/
def MisusesLindex (terms : List Bytes) (h : terms ≠ []) : Prop :=
  eqIgnoreAsciiCase (terms.head h) (ascii "LINDEX") = true ∧ terms.length ≠ 3

instance (terms : List Bytes) (h : terms ≠ []) : Decidable (MisusesLindex terms h) :=
  inferInstanceAs (Decidable (_ ∧ _))

theorem handlerOf_lindex {word : Bytes} (h : eqIgnoreAsciiCase word (ascii "LINDEX") = true) :
    handlerOf word = some (ascii "LINDEX", lindex) := by
  have hlower : word.map toAsciiLower = ascii "lindex" := by
    exact of_decide_eq_true h
  unfold handlerOf
  simp only [eqIgnoreAsciiCase, hlower]
  rfl

theorem grant_misused {terms : List Bytes} {h : terms ≠ []} (hmisuse : MisusesLindex terms h)
    (clock : SystemTime) (token : Token) : ∃ rest, AsksElement clock token rest ∧
      grant terms h clock token = incorrectNumberOfArguments token .lindex ++ rest := by
  obtain ⟨rest, hrest, hgrant⟩ := lindex_asks clock token terms
  rw [if_pos hmisuse.2] at hgrant
  refine ⟨rest, hrest, ?_⟩
  simp only [grant, handlerOf_lindex hmisuse.1, hgrant]

theorem grant_used {terms : List Bytes} {h : terms ≠ []} (huse : ¬ MisusesLindex terms h)
    (clock : SystemTime) (token : Token) : Answers clock token (grant terms h clock token) := by
  unfold grant
  cases hfind : handlerOf (terms.head h) with
  | none => exact answers_reply _
  | some entry =>
      have hmem : entry ∈ handlers := List.mem_of_find?_eq_some hfind
      have hmatch := List.find?_some hfind
      by_cases hword : entry.1 = ascii "LINDEX"
      · rw [hword] at hmatch
        obtain rfl := Option.some.inj (hfind.symm.trans (handlerOf_lindex hmatch))
        obtain ⟨rest, hrest, hlindex⟩ := lindex_asks clock token terms
        have hlength : ¬ terms.length ≠ 3 := by
          intro hlength
          exact huse ⟨hmatch, hlength⟩
        rw [if_neg hlength, List.nil_append] at hlindex
        dsimp only
        rw [hlindex]
        exact hrest.answers
      · exact single_of_mem entry hmem hword clock token terms

/-- **A command sends one message, and LINDEX with a wrong number of terms an arity error in front
of it.** -/
theorem grant_answers (terms : List Bytes) (h : terms ≠ []) (clock : SystemTime) (token : Token) :
    ∃ rest, Answers clock token rest ∧ grant terms h clock token =
      (if MisusesLindex terms h then incorrectNumberOfArguments token .lindex else []) ++ rest := by
  by_cases hmisuse : MisusesLindex terms h
  · obtain ⟨rest, hrest, hgrant⟩ := grant_misused hmisuse clock token
    refine ⟨rest, hrest.answers, ?_⟩
    rw [if_pos hmisuse, hgrant]
  · refine ⟨_, grant_used hmisuse clock token, ?_⟩
    rw [if_neg hmisuse, List.nil_append]

/-- The messages of a command that its handler answers alone: a wish among them is the wish. -/
theorem mem_answers {emissions : List Emission} (h : Answers clock token emissions) {wish : Wish}
    (hmem : Emission.toTemple wish ∈ emissions) :
    wish.token = token ∧ Accepts clock wish.command := by
  obtain ⟨response, rfl⟩ | ⟨command, haccepts, rfl⟩ := h
  · cases List.mem_singleton.mp hmem
  · cases List.mem_singleton.mp hmem
    exact ⟨rfl, haccepts⟩

/-- A message of a command is an arity error, or one of those that its handler answers alone. -/
theorem arity_or_answers {terms : List Bytes} {h : terms ≠ []} {emission : Emission}
    (hmem : emission ∈ grant terms h clock token) :
    emission ∈ incorrectNumberOfArguments token .lindex ∨
      ∃ rest, Answers clock token rest ∧ emission ∈ rest := by
  obtain ⟨rest, hrest, hgrant⟩ := grant_answers terms h clock token
  rw [hgrant, List.mem_append] at hmem
  obtain hmem | hmem := hmem
  · split_ifs at hmem
    · exact .inl hmem
    · cases hmem
  · exact .inr ⟨rest, hrest, hmem⟩

theorem mem_grant {terms : List Bytes} {h : terms ≠ []} {wish : Wish}
    (hmem : Emission.toTemple wish ∈ grant terms h clock token) :
    wish.token = token ∧ Accepts clock wish.command := by
  obtain harity | ⟨rest, hrest, hmem⟩ := arity_or_answers hmem
  · cases List.mem_singleton.mp harity
  · exact mem_answers hrest hmem

/-! ### Deadlines -/

/-- The deadline that a command gives a key. -/
def ClientCommandType.deadline? : ClientCommandType → Option ℕ
  | .database (.set _ value) => value.2
  | .database (.expire _ expiry _) => some expiry
  | _ => none

theorem expiry_lt {digits : Bytes} {expiry : ℕ} (h : (bytesToU64 digits).toOption = some expiry) :
    expiry < 2 ^ 64 := by
  cases hdigits : bytesToU64 digits with
  | error sin =>
      rw [hdigits] at h
      cases h
  | ok n =>
      rw [hdigits] at h
      cases h
      have hle : expiry ≤ 2 ^ 64 - 1 := parseUnsigned_le hdigits
      omega

theorem expiryOf_lt {terms : List Bytes} {h : terms ≠ []} {expiry : ℕ}
    (hexpiry : expiryOf terms h = some expiry) : expiry < 2 ^ 64 := by
  unfold expiryOf at hexpiry
  split at hexpiry
  case h_2 => cases hexpiry
  case h_1 =>
    split_ifs at hexpiry
    · unfold setExpiry at hexpiry
      split at hexpiry
      · split_ifs at hexpiry
        exact expiry_lt hexpiry
      · cases hexpiry
    · unfold expireExpiry at hexpiry
      split at hexpiry
      · exact expiry_lt hexpiry
      · cases hexpiry

/-- The deadline that SET gives is the sum. -/
theorem set_deadline {wish : Wish} {terms : List Bytes}
    (h : Emission.toTemple wish ∈ Grant.set clock token terms) :
    wish.command.deadline? =
      (setExpiry terms).map fun expiry => wrapU64 (clock.unixSecs + expiry) := by
  unfold Grant.set at h
  rcases terms with _ | ⟨word, _ | ⟨key, _ | ⟨value, _ | ⟨ex, _ | ⟨digits, _ | ⟨more, rest⟩⟩⟩⟩⟩⟩
  case cons.cons.cons.nil =>
    cases List.mem_singleton.mp h
    rfl
  case cons.cons.cons.cons.cons.nil =>
    cases hex : eqIgnoreAsciiCase ex (ascii "EX") with
    | false => simp [hex, incorrectNumberOfArguments, reply] at h
    | true =>
        cases hdigits : bytesToU64 digits with
        | error sin => simp [hex, hdigits, incorrectUsage, reply] at h
        | ok expiry =>
            simp only [List.drop_succ_cons, List.drop_zero, hex, hdigits] at h
            cases List.mem_singleton.mp h
            simp [setExpiry, hex, hdigits, ClientCommandType.deadline?, Except.toOption]
  case cons.cons.cons.cons.nil =>
    cases hex : eqIgnoreAsciiCase ex (ascii "EX") <;>
      simp [hex, incorrectNumberOfArguments, incorrectUsage, reply] at h
  all_goals simp [incorrectNumberOfArguments, reply] at h

/-- And so is the one that EXPIRE gives. -/
theorem expire_deadline {wish : Wish} {terms : List Bytes}
    (h : Emission.toTemple wish ∈ Grant.expire clock token terms) :
    wish.command.deadline? =
      (expireExpiry terms).map fun expiry => wrapU64 (clock.unixSecs + expiry) := by
  unfold Grant.expire at h
  rcases terms with _ | ⟨word, _ | ⟨key, _ | ⟨digits, _ | ⟨more, rest⟩⟩⟩⟩
  case cons.cons.cons.nil =>
    cases hdigits : bytesToU64 digits with
    | error sin => simp [hdigits, incorrectUsage, reply] at h
    | ok expiry =>
        simp only [List.drop_succ_cons, List.drop_zero, hdigits] at h
        cases List.mem_singleton.mp h
        simp [expireExpiry, hdigits, ClientCommandType.deadline?, Except.toOption]
  all_goals simp [incorrectNumberOfArguments, reply] at h

/-! ### Runs of store commands -/

/-- Some handler sends the command, whatever the terms, the clock and the client. -/
def Accepted (cmd : DatabaseCommand) : Prop :=
  ∃ (terms : List Bytes) (h : terms ≠ []) (clock : SystemTime) (token : Token),
    Emission.toTemple ⟨token, .database cmd⟩ ∈ grant terms h clock token

theorem Accepted.wellFormed {cmd : DatabaseCommand} (h : Accepted cmd) : cmd.WellFormed := by
  obtain ⟨terms, hne, clock, token, hmem⟩ := h
  exact (mem_grant hmem).2.1

/-- One store command, as a step that fails when the method panics. -/
def execute (config : Config) (s : Soul) (cmd : DatabaseCommand) : Except Panic Soul :=
  (database s config cmd).2.map fun _ => (database s config cmd).1

theorem execute_eq_ok {config : Config} {s s' : Soul} {cmd : DatabaseCommand} :
    execute config s cmd = .ok s' ↔
      s' = (database s config cmd).1 ∧ ∃ response, (database s config cmd).2 = .ok response := by
  unfold execute
  cases (database s config cmd).2 with
  | error panic => simp [Except.map]
  | ok response => simp [Except.map, eq_comm]

end Heaven
