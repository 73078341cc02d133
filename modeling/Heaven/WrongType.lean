import Heaven.Expiry
import Heaven.Replies
import Heaven.Routes
import Heaven.Send
import Heaven.SubscriberMode

/-! # The WRONGTYPE error

A store command should answer WRONGTYPE if and only if its arguments are in order and the key it
works on is live and holds a value of another kind.  The stores and the handlers raise one error,
`Sacrilege.incorrectUsage`, for values of another kind and for arguments that do not parse, and only
`send` turns it into a text, by the name of the command.

`rules` says for every word of the dispatch when its terms are in order and on which kind of value
it works; `handlers_obey` is what the handlers and the store make of that.  `wrongType_iff` says
exactly when the answer is the one it should be. -/

namespace Heaven

open Decimal (ascii)
open Grant

/-! ### Kinds of values -/

inductive Kind where
  | string
  | list
  | hash
  | set
deriving DecidableEq

def Value.kind : Value → Kind
  | .string _ => .string
  | .list _ => .list
  | .hash _ => .hash
  | .set _ => .set

theorem Value.string?_eq_none {value : Value} : value.string? = none ↔ value.kind ≠ .string := by
  cases value <;> simp [string?, kind]

theorem Value.list?_eq_none {value : Value} : value.list? = none ↔ value.kind ≠ .list := by
  cases value <;> simp [list?, kind]

theorem Value.hash?_eq_none {value : Value} : value.hash? = none ↔ value.kind ≠ .hash := by
  cases value <;> simp [hash?, kind]

theorem Value.set?_eq_none {value : Value} : value.set? = none ↔ value.kind ≠ .set := by
  cases value <;> simp [set?, kind]

/-! ### The line -/

/-- The commands whose errors have a text of their own. -/
def Command.hasOwnText : Command → Bool
  | .incr | .decr | .incrby | .lset | .lindex | .config => true
  | _ => false

/-- The error that is written as WRONGTYPE. -/
def Response.isWrongType : Response → Bool
  | .error (.incorrectUsage cmd) => !cmd.hasOwnText
  | _ => false

theorem isPrefixOf_of_head? {a : UInt8} {as bs : Bytes} (h : bs.head? ≠ some a) :
    (a :: as).isPrefixOf bs = false := by
  cases bs with
  | nil => rfl
  | cons b bs =>
      have hne : ¬ a = b := by
        rintro rfl
        exact h rfl
      rw [List.isPrefixOf_cons_cons, beq_eq_false_iff_ne.mpr hne, Bool.false_and]

/-- Only an error starts with a minus sign. -/
theorem head?_send {response : Response} (h : response.isError = false) :
    (send response).head? ≠ some 45 := by
  cases response with
  | error sacrilege => cases h
  | info info => cases info <;> decide
  | bulkString value => cases value <;> exact ne_of_beq_false rfl
  | bulkStringArray values => cases values <;> exact ne_of_beq_false rfl
  | amount n | number i | length n => exact ne_of_beq_false rfl
  | subscribedChannels channels => cases channels <;> exact ne_of_beq_false rfl
  | unsubscribedChannels channels =>
      rcases channels with _ | _ | ⟨channel, channels⟩ <;> exact ne_of_beq_false rfl

theorem isPrefixOf_send (response : Response) :
    (ascii "-WRONGTYPE").isPrefixOf (send response) = response.isWrongType := by
  cases herror : response.isError with
  | false =>
      have hnot : response.isWrongType = false := by
        cases response with
        | error sacrilege => cases herror
        | _ => rfl
      rw [hnot]
      exact isPrefixOf_of_head? (head?_send herror)
  | true =>
      cases response with
      | error sacrilege =>
          cases sacrilege with
          | incorrectUsage cmd => cases cmd <;> decide
          | incorrectNumberOfArguments cmd => rfl
          | unknownCommand | subscriberOnlyMode => decide
      | _ => cases herror

namespace Soul

variable {α β ρ : Type}

/-! ### The store -/

/-- The key is live and holds a value of another kind. -/
def LiveOther (s : Soul) (key : Bytes) (kind : Kind) (now : ℕ) : Prop :=
  ∃ value expiry, (s.purge now).get? key = some (value, expiry) ∧ value.kind ≠ kind

/-- The reply of the store is written as WRONGTYPE; a panic leaves no reply. -/
def wrongReply : Except Panic Response → Bool
  | .ok response => response.isWrongType
  | .error _ => false

/-- A command refuses a live value it cannot view, and nothing else. -/
theorem wrong_queryCell (answer : ρ → Except Panic Response) {view : Value → Option α}
    {wrongType absent : ρ} {found : α → ρ} {kind : Kind} {own : Bool}
    (hview : ∀ value, view value = none ↔ value.kind ≠ kind)
    (hwrong : wrongReply (answer wrongType) = !own) (habsent : wrongReply (answer absent) = false)
    (hfound : ∀ x, wrongReply (answer (found x)) = false) (s : Soul) (key : Bytes) (now : ℕ) :
    wrongReply (answer (queryCell view wrongType absent found ((s.purge now).get? key)).2) = true ↔
      own = false ∧ LiveOther s key kind now := by
  unfold LiveOther
  rcases (s.purge now).get? key with _ | ⟨value, expiry⟩
  · simp [queryCell, habsent]
  · cases hvalue : view value with
    | none => simp [queryCell, hvalue, hwrong, (hview value).mp hvalue]
    | some x =>
        have hkind : value.kind = kind := by
          by_contra hne
          rw [(hview value).mpr hne] at hvalue
          cases hvalue
        simp [queryCell, hvalue, hfound, hkind]

/-- A command without a text of its own. -/
theorem wrong_queryCell_shared (answer : ρ → Except Panic Response) {view : Value → Option α}
    {wrongType absent : ρ} {found : α → ρ} {kind : Kind}
    (hview : ∀ value, view value = none ↔ value.kind ≠ kind)
    (hwrong : wrongReply (answer wrongType) = true) (habsent : wrongReply (answer absent) = false)
    (hfound : ∀ x, wrongReply (answer (found x)) = false) (s : Soul) (key : Bytes) (now : ℕ) :
    wrongReply (answer (queryCell view wrongType absent found ((s.purge now).get? key)).2) = true ↔
      LiveOther s key kind now := by
  have h := wrong_queryCell answer hview (hwrong.trans Bool.not_false.symm) habsent hfound s key now
  rwa [eq_self, true_and] at h

/-- The commands that only read. -/
theorem wrong_query {answer : α → Response} {view : Value → Option β} {kind : Kind} {cmd : Command}
    {absent : Except Sacrilege α} {found : β → Except Sacrilege α}
    (hview : ∀ value, view value = none ↔ value.kind ≠ kind)
    (habsent : (replyTo answer absent).isWrongType = false)
    (hfound : ∀ x, (replyTo answer (found x)).isWrongType = false)
    (s : Soul) (key : Bytes) (now : ℕ) :
    wrongReply (respond answer (s.query key now view (misuse cmd) absent found)).2 = true ↔
      cmd.hasOwnText = false ∧ LiveOther s key kind now := by
  rw [respond, query_snd]
  exact wrong_queryCell (fun result => .ok (replyTo answer result)) hview rfl habsent hfound s key
    now

/-- The commands that write. -/
theorem wrong_update {answer : α → Response} {view : Value → Option β} {wrap : β → Value}
    {kind : Kind} {cmd : Command} {absent : Option Entry × Except Sacrilege α}
    {found : β → β × Except Sacrilege α}
    (hview : ∀ value, view value = none ↔ value.kind ≠ kind)
    (habsent : (replyTo answer absent.2).isWrongType = false)
    (hfound : ∀ x, (replyTo answer (found x).2).isWrongType = false)
    (s : Soul) (key : Bytes) (now : ℕ) :
    wrongReply (respond answer
        (s.onLive key now (updateCell view wrap (misuse cmd) absent found))).2 = true ↔
      cmd.hasOwnText = false ∧ LiveOther s key kind now := by
  rw [respond, onLive_snd, updateCell_snd]
  exact wrong_queryCell (fun result => .ok (replyTo answer result)) hview rfl habsent hfound s key
    now

/-- A pop refuses every value that is no list, expired or not. -/
theorem wrong_pop {answer : α → Response} (hanswer : ∀ x, (answer x).isWrongType = false)
    {cmd : Command} (hcmd : cmd.hasOwnText = false) (absent : α)
    (pop : List Bytes → List Bytes × α) (s : Soul) (key : Bytes) (now : ℕ) :
    wrongReply (respond answer (s.popWith key now cmd absent pop)).2 = true ↔
      LiveOther s key .list now ∨ ExpiredOther s key now := by
  have hmisuse : (replyTo answer (misuse cmd)).isWrongType = true := by
    show (!cmd.hasOwnText) = true
    rw [hcmd]
    rfl
  rw [popWith_eq_onCell]
  unfold LiveOther ExpiredOther
  rw [get?_purge]
  simp only [respond, wrongReply, Dict.onCell]
  rcases s.get? key with _ | ⟨value, expiry⟩
  · simp [popCell, replyTo, hanswer]
  · rw [filter_live_some]
    cases hexpired : isExpired expiry now <;> cases value with
    | list list => simp [popCell, replyTo, hanswer, hexpired, Value.kind, Value.list?]
    | string _ | hash _ | set _ => simp [popCell, hmisuse, hexpired, Value.kind, Value.list?]

/-! ### Commands with a body of their own -/

variable (s : Soul) (config : Config) (key : Bytes) (now : ℕ)

/-- Adding to a text answers with the command's own error. -/
theorem wrong_addCell {cmd : Command} (hcmd : cmd.hasOwnText = true) (delta : ℤ) :
    wrongReply (respond .number (s.onLive key now (addCell cmd delta))).2 = true ↔
      cmd.hasOwnText = false ∧ LiveOther s key .string now := by
  apply wrong_update (fun _ => Value.string?_eq_none) rfl
  intro text
  unfold addToText
  cases bytesToI64 text with
  | error sin =>
      show (!cmd.hasOwnText) = false
      rw [hcmd, Bool.not_true]
  | ok number =>
      cases hsum : checkedAddI64 number delta with
      | none =>
          simp only [hsum]
          show (!cmd.hasOwnText) = false
          rw [hcmd, Bool.not_true]
      | some sum =>
          simp only [hsum]
          rfl

theorem wrong_srem (values : List Bytes) :
    wrongReply (database s config (.srem key values now)).2 = true ↔ LiveOther s key .set now := by
  have hcell : ∀ o, (sremCell values o).2 = (queryCell Value.set? (misuse .srem) (.ok 0)
      (fun set => .ok (sremLoop set 0 values).2) o).2 := by
    rintro (_ | ⟨_ | _ | _ | _, _⟩) <;> rfl
  simp only [database, srem_eq_onLive, respond, onLive_snd, hcell]
  exact wrong_queryCell_shared (fun result => .ok (replyTo .length result))
    (fun _ => Value.set?_eq_none) rfl rfl (fun _ => rfl) s key now

theorem wrong_lrange (startingIndex endingIndex : ℤ) :
    wrongReply (database s config (.lrange key startingIndex endingIndex now)).2 = true ↔
      LiveOther s key .list now := by
  simp only [database, lrange, respondOrPanic, query_snd]
  apply wrong_queryCell_shared (Except.map (replyTo .bulkStringArray))
    (fun _ => Value.list?_eq_none) rfl rfl
  intro list
  cases rangeOf list startingIndex endingIndex <;> rfl

theorem wrong_lrem (count : ℤ) (element : Bytes) :
    wrongReply (database s config (.lrem key count element now)).2 = true ↔
      LiveOther s key .list now := by
  simp only [database, lrem_eq_onLive, respondOrPanic, onLive_snd, updateCell_snd]
  apply wrong_queryCell_shared (Except.map (replyTo .length)) (fun _ => Value.list?_eq_none) rfl rfl
  intro list
  unfold lremList
  cases removeOccurrences list count element <;> rfl

theorem wrong_lset (index : ℤ) (element : Bytes) :
    wrongReply (database s config (.lset key index element now)).2 = false := by
  simp only [database, lset_eq_onLive, respondOrPanic, onLive_snd, updateCell_snd]
  have hbody : ∀ list, wrongReply (((lsetList index element list).2).map
      (replyTo fun _ => .info .ok)) = false := by
    intro list
    unfold lsetList
    dsimp only
    split_ifs <;> rfl
  have hown : wrongReply (Except.map (replyTo fun _ : Unit => .info .ok)
      (.ok (misuse .lset))) = !true := rfl
  rw [← Bool.not_eq_true, wrong_queryCell (Except.map (replyTo fun _ => .info .ok))
    (fun _ => Value.list?_eq_none) hown hown hbody s key now]
  intro h
  cases h.1

/-- The key is live and holds a value of another kind than the command works on. -/
def OtherKind (s : Soul) (key : Bytes) (now : ℕ) : Option Kind → Prop
  | some kind => LiveOther s key kind now
  | none => False

end Soul

/-! ### Rules -/

/-- What is in order for a command: the number of its terms, and the terms that are parsed.  A pop
looks at the kind of a value before it looks at its deadline. -/
structure Rule where
  kind : Option Kind := none
  counted : List Bytes → Bool
  parses : List Bytes → Bool := fun _ => true
  hasOwnText : Bool := false
  isPop : Bool := false

/-- The key is found to hold a value of another kind. -/
def Rule.Meets (rule : Rule) (s : Soul) (key : Bytes) (now : ℕ) : Prop :=
  s.OtherKind key now rule.kind ∨ rule.isPop = true ∧ s.ExpiredOther key now

/-- The bytes that are sent start with the text of the error. -/
def Decree.isWrongType : Decree → Bool
  | .deliver gift => (ascii "-WRONGTYPE").isPrefixOf (send gift.response)
  | _ => false

/-- A reply to the messages of a command is a WRONGTYPE error. -/
def Temple.answersWrongType (t : Temple) (emissions : List Emission) : Bool :=
  match (t.handle emissions).2 with
  | .ok decrees => decrees.any Decree.isWrongType
  | .error _ => false

/-- The replies to the commands of the handler are WRONGTYPE errors as the rule says. -/
def Obeys (handler : Handler) (rule : Rule) : Prop :=
  ∀ (t : Temple) (clock : SystemTime) (token : Token) (terms : List Bytes),
    token ∉ t.subscribedClients →
    (t.answersWrongType (handler clock token terms) = true ↔
      rule.hasOwnText = false ∧ rule.counted terms = true ∧
        (rule.parses terms = false ∨
          ∃ key, terms[1]? = some key ∧ rule.Meets t.soul key clock.unixSecs))

namespace Temple

variable {t : Temple} {token : Token}

@[simp] theorem answersWrongType_reply (response : Response) :
    t.answersWrongType (reply token response) = response.isWrongType := by
  show ([deliver token response].any Decree.isWrongType) = _
  rw [List.any_cons, List.any_nil, Bool.or_false]
  exact isPrefixOf_send response

@[simp] theorem answersWrongType_incorrectNumberOfArguments (cmd : Command) :
    t.answersWrongType (incorrectNumberOfArguments token cmd) = false :=
  answersWrongType_reply _

@[simp] theorem answersWrongType_incorrectUsage (cmd : Command) :
    t.answersWrongType (incorrectUsage token cmd) = !cmd.hasOwnText :=
  answersWrongType_reply _

theorem answersWrongType_database (h : token ∉ t.subscribedClients) (cmd : DatabaseCommand) :
    t.answersWrongType (pray token (.database cmd)) =
      Soul.wrongReply (database t.soul t.config cmd).2 := by
  unfold answersWrongType
  rw [handle_pray, turn_executes h]
  cases (database t.soul t.config cmd).2 with
  | error panic => rfl
  | ok response =>
      show ([deliver token response].any Decree.isWrongType) = _
      rw [List.any_cons, List.any_nil, Bool.or_false]
      exact isPrefixOf_send response

@[simp] theorem answersWrongType_broadcast (cmd : BroadcastCommand) :
    t.answersWrongType (pray token (.broadcast cmd)) = false := by
  unfold answersWrongType
  rw [handle_pray]
  cases cmd with
  | publish event message => rfl
  | subscribe events | unsubscribe terms =>
      simp only [turn, Except.map, List.any_cons, List.any_nil, Bool.or_false]
      exact isPrefixOf_send _

/-- An answer of the handler's own in front. -/
theorem answersWrongType_append {response : Response} {rest : List Emission}
    (hresponse : response.isWrongType = false) (hrest : t.answersWrongType rest = false) :
    t.answersWrongType (reply token response ++ rest) = false := by
  unfold answersWrongType at hrest ⊢
  simp only [reply, List.singleton_append, handle]
  cases hdecrees : (t.handle rest).2 with
  | error panic => rfl
  | ok decrees =>
      rw [hdecrees] at hrest
      have hnone : decrees.any Decree.isWrongType = false := hrest
      show ((Decree.deliver ⟨token, response⟩ :: decrees).any Decree.isWrongType) = false
      rw [List.any_cons, hnone, Bool.or_false]
      exact (isPrefixOf_send response).trans hresponse

end Temple

/-! ### Shapes of handlers -/

namespace Grant

/-- The third term of a command, if it has one, is parsed. -/
def parsesThird {α : Type} (parse : Bytes → Except Sin α) : List Bytes → Bool
  | _ :: _ :: third :: _ => parses (parse third)
  | _ => true

variable {own : Bool} {kind : Option Kind}

/-- A command that is never answered with WRONGTYPE. -/
theorem obeys_never {handler : Handler} {rule : Rule}
    (hrule : rule.hasOwnText = true ∨
      rule.kind = none ∧ rule.isPop = false ∧ ∀ terms, rule.parses terms = true)
    (h : ∀ (t : Temple) clock token terms, token ∉ t.subscribedClients →
      t.answersWrongType (handler clock token terms) = false) : Obeys handler rule := by
  intro t clock token terms htoken
  rw [h t clock token terms htoken]
  apply iff_of_false Bool.false_ne_true
  rintro ⟨hown, -, hreason⟩
  obtain hown' | ⟨hkind, hpop, hparses⟩ := hrule
  · exact Bool.false_ne_true (hown.symm.trans hown')
  · obtain hbad | ⟨key, -, hmeets⟩ := hreason
    · exact Bool.false_ne_true (hbad.symm.trans (hparses terms))
    · simp [Rule.Meets, Soul.OtherKind, hkind, hpop] at hmeets

theorem obeys_keyHandler (cmd : Command) {make : SystemTime → Bytes → DatabaseCommand}
    (h : ∀ s config clock key, Soul.wrongReply (database s config (make clock key)).2 = true ↔
      own = false ∧ s.OtherKind key clock.unixSecs kind) :
    Obeys (keyHandler cmd make) { kind, counted := passesLength 2, hasOwnText := own } := by
  intro t clock token terms htoken
  rcases terms with _ | ⟨word, _ | ⟨key, _ | ⟨a, rest⟩⟩⟩ <;>
    simp [keyHandler, passesLength, Rule.Meets, Temple.answersWrongType_database htoken, h]

theorem obeys_keyArgumentHandler (cmd : Command)
    {make : SystemTime → Bytes → Bytes → ClientCommandType}
    (h : ∀ (t : Temple) clock token key argument, token ∉ t.subscribedClients →
      (t.answersWrongType (pray token (make clock key argument)) = true ↔
        own = false ∧ t.soul.OtherKind key clock.unixSecs kind)) :
    Obeys (keyArgumentHandler cmd make) { kind, counted := passesLength 3, hasOwnText := own } := by
  intro t clock token terms htoken
  rcases terms with _ | ⟨word, _ | ⟨key, _ | ⟨a, _ | ⟨b, rest⟩⟩⟩⟩ <;>
    simp [keyArgumentHandler, passesLength, Rule.Meets, h t clock token _ _ htoken]

theorem obeys_keyListHandler (cmd : Command)
    {make : SystemTime → Bytes → List Bytes → DatabaseCommand}
    (h : ∀ s config clock key rest,
      Soul.wrongReply (database s config (make clock key rest)).2 = true ↔
        own = false ∧ s.OtherKind key clock.unixSecs kind) :
    Obeys (keyListHandler cmd make) { kind, counted := passesAtLeast 3, hasOwnText := own } := by
  intro t clock token terms htoken
  rcases terms with _ | ⟨word, _ | ⟨key, _ | ⟨a, rest⟩⟩⟩
  case cons.cons.cons =>
    have hlen : ¬ (word :: key :: a :: rest).length < 3 := by simp
    rw [keyListHandler, if_neg hlen]
    simp [passesAtLeast, Rule.Meets, Temple.answersWrongType_database htoken, h]
  all_goals simp [keyListHandler, passesAtLeast]

theorem obeys_keysHandler (cmd : Command) {make : SystemTime → List Bytes → ClientCommandType}
    (h : ∀ (t : Temple) clock token keys, token ∉ t.subscribedClients →
      t.answersWrongType (pray token (make clock keys)) = false) :
    Obeys (keysHandler cmd make) { counted := passesAtLeast 2 } := by
  apply obeys_never (Or.inr ⟨rfl, rfl, fun _ => rfl⟩)
  intro t clock token terms htoken
  unfold keysHandler
  split_ifs
  · exact Temple.answersWrongType_incorrectNumberOfArguments _
  · exact h t clock token _ htoken

theorem obeys_indexHandler (cmd : Command)
    {make : SystemTime → Bytes → ℤ → Bytes → DatabaseCommand}
    (h : ∀ s config clock key index element,
      Soul.wrongReply (database s config (make clock key index element)).2 = true ↔
        cmd.hasOwnText = false ∧ s.OtherKind key clock.unixSecs kind) :
    Obeys (indexHandler cmd make)
      { kind, counted := passesLength 4, parses := parsesThird bytesToI32,
        hasOwnText := cmd.hasOwnText } := by
  intro t clock token terms htoken
  rcases terms with _ | ⟨word, _ | ⟨key, _ | ⟨index, _ | ⟨a, _ | ⟨b, rest⟩⟩⟩⟩⟩
  case cons.cons.cons.cons.nil =>
    cases hindex : bytesToI32 index <;>
      simp [indexHandler, passesLength, parsesThird, parses, hindex, Rule.Meets,
        Temple.answersWrongType_database htoken, h]
  all_goals simp [indexHandler, passesLength]

/-- The terms of a pop are counted before they are parsed. -/
def countedPop (terms : List Bytes) : Bool := decide (terms.length = 2 ∨ terms.length = 3)

theorem obeys_popHandler (cmd : Command) {one : SystemTime → Bytes → DatabaseCommand}
    {many : SystemTime → Bytes → ℕ → DatabaseCommand} (hcmd : cmd.hasOwnText = false)
    (hone : ∀ s config clock key, Soul.wrongReply (database s config (one clock key)).2 = true ↔
      s.LiveOther key .list clock.unixSecs ∨ s.ExpiredOther key clock.unixSecs)
    (hmany : ∀ s config clock key count,
      Soul.wrongReply (database s config (many clock key count)).2 = true ↔
        s.LiveOther key .list clock.unixSecs ∨ s.ExpiredOther key clock.unixSecs) :
    Obeys (popHandler cmd one many)
      { kind := some .list, counted := countedPop, parses := parsesThird bytesToUsize,
        isPop := true } := by
  intro t clock token terms htoken
  rcases terms with _ | ⟨word, _ | ⟨key, _ | ⟨count, _ | ⟨a, rest⟩⟩⟩⟩
  case cons.cons.cons.nil =>
    cases hcount : bytesToUsize count <;>
      simp [popHandler, countedPop, parsesThird, parses, hcount, hcmd, Rule.Meets, Soul.OtherKind,
        Temple.answersWrongType_database htoken, hmany]
  case cons.cons.nil =>
    simp [popHandler, countedPop, parsesThird, Rule.Meets, Soul.OtherKind,
      Temple.answersWrongType_database htoken, hone]
  all_goals simp [popHandler, countedPop]

/-! ### Handlers of their own -/

/-- SET takes a key and a value, and EX with its number. -/
def countedSet : List Bytes → Bool
  | [_, _, _] => true
  | [_, _, _, cmd] | [_, _, _, cmd, _] => eqIgnoreAsciiCase cmd (ascii "EX")
  | _ => false

def parsesSet : List Bytes → Bool
  | [_, _, _, _] => false
  | [_, _, _, _, expiry] => parses (bytesToU64 expiry)
  | _ => true

theorem obeys_set : Obeys set { counted := countedSet, parses := parsesSet } := by
  intro t clock token terms htoken
  have hset : ∀ key entry, t.answersWrongType (pray token (.database (.set key entry))) = false :=
    fun key entry => Temple.answersWrongType_database htoken _
  rcases terms with _ | ⟨word, _ | ⟨key, _ | ⟨value, _ | ⟨cmd, _ | ⟨expiry, _ | ⟨a, rest⟩⟩⟩⟩⟩⟩
  case cons.cons.cons.cons.cons.nil =>
    cases hcmd : eqIgnoreAsciiCase cmd (ascii "EX") <;>
      cases hexpiry : bytesToU64 expiry <;>
      simp [set, countedSet, parsesSet, parses, hcmd, hexpiry, hset, Rule.Meets, Soul.OtherKind,
        Command.hasOwnText]
  case cons.cons.cons.cons.nil =>
    cases hcmd : eqIgnoreAsciiCase cmd (ascii "EX") <;>
      simp [set, countedSet, parsesSet, hcmd, Command.hasOwnText]
  all_goals simp [set, countedSet, parsesSet, hset, Rule.Meets, Soul.OtherKind]

theorem obeys_expire :
    Obeys expire { counted := passesLength 3, parses := parsesThird bytesToU64 } := by
  intro t clock token terms htoken
  have hexpire : ∀ key expiry,
      t.answersWrongType (pray token (.database (.expire key expiry clock.unixSecs))) = false :=
    fun key expiry => Temple.answersWrongType_database htoken _
  rcases terms with _ | ⟨word, _ | ⟨key, _ | ⟨expiry, _ | ⟨a, rest⟩⟩⟩⟩
  case cons.cons.cons.nil =>
    cases hexpiry : bytesToU64 expiry <;>
      simp [expire, passesLength, parsesThird, parses, hexpiry, hexpire, Rule.Meets,
        Soul.OtherKind, Command.hasOwnText]
  all_goals simp [expire, passesLength]

def parsesLrange : List Bytes → Bool
  | _ :: _ :: startingIndex :: endingIndex :: _ =>
      parses (bytesToI32 startingIndex) && parses (bytesToI32 endingIndex)
  | _ => true

theorem obeys_lrange :
    Obeys lrange { kind := some .list, counted := passesLength 4, parses := parsesLrange } := by
  intro t clock token terms htoken
  rcases terms with _ | ⟨word, _ | ⟨key, _ | ⟨startingIndex, _ | ⟨endingIndex, _ | ⟨a, rest⟩⟩⟩⟩⟩
  case cons.cons.cons.cons.nil =>
    cases hs : bytesToI32 startingIndex <;> cases he : bytesToI32 endingIndex <;>
      simp [lrange, passesLength, parsesLrange, parses, hs, he, Rule.Meets, Soul.OtherKind,
        Command.hasOwnText, Temple.answersWrongType_database htoken, Soul.wrong_lrange]
  all_goals simp [lrange, passesLength]

theorem obeys_hset : Obeys hset { kind := some .hash, counted := passesHset } := by
  intro t clock token terms htoken
  have hhset : ∀ key pairs,
      t.answersWrongType (pray token (.database (.hset key pairs clock.unixSecs))) = true ↔
        t.soul.LiveOther key .hash clock.unixSecs := by
    intro key pairs
    rw [Temple.answersWrongType_database htoken]
    simp only [database, Soul.hset_eq_onLive]
    refine (Soul.wrong_update (fun _ => Value.hash?_eq_none) rfl (fun _ => rfl) _ _ _).trans ?_
    simp [Command.hasOwnText]
  unfold hset passesHset
  split_ifs with h
  · -- too few terms, or a field without a value
    rw [Temple.answersWrongType_incorrectNumberOfArguments, Bool.and_eq_true, decide_eq_true_iff,
      decide_eq_true_iff]
    apply iff_of_false Bool.false_ne_true
    rintro ⟨-, hcounted, -⟩
    omega
  · rcases terms with _ | ⟨word, _ | ⟨key, rest⟩⟩
    · simp at h
    · simp at h
    · have hcounted : 4 ≤ (word :: key :: rest).length ∧ (word :: key :: rest).length % 2 = 0 := by
        omega
      simp only [List.drop_succ_cons, List.drop_zero, hhset, Bool.and_eq_true, decide_eq_true_eq,
        hcounted]
      simp [Rule.Meets, Soul.OtherKind]

theorem obeys_incrby :
    Obeys incrby
      { kind := some .string, counted := passesLength 3, parses := parsesThird bytesToI64,
        hasOwnText := true } := by
  apply obeys_never (Or.inl rfl)
  intro t clock token terms htoken
  have hincrby : ∀ key number,
      t.answersWrongType (pray token (.database (.incrby key number clock.unixSecs))) = false := by
    intro key number
    rw [Temple.answersWrongType_database htoken, ← Bool.not_eq_true]
    simp only [database, Soul.incrby_eq_onLive]
    rw [Soul.wrong_addCell _ _ _ rfl]
    simp [Command.hasOwnText]
  unfold incrby
  split_ifs
  · simp
  · split
    · split
      · simp [Command.hasOwnText]
      · exact hincrby _ _
    · rfl

/-- Of the two messages LINDEX may send, neither is answered with WRONGTYPE. -/
theorem obeys_lindex :
    Obeys lindex
      { kind := some .list, counted := passesLength 3, parses := parsesThird bytesToI32,
        hasOwnText := true } := by
  apply obeys_never (Or.inl rfl)
  intro t clock token terms htoken
  have hlindex : ∀ key index,
      t.answersWrongType (pray token (.database (.lindex key index clock.unixSecs))) = false := by
    intro key index
    rw [Temple.answersWrongType_database htoken, ← Bool.not_eq_true]
    have h : Soul.wrongReply (database t.soul t.config (.lindex key index clock.unixSecs)).2 =
        true ↔ Command.lindex.hasOwnText = false ∧
          t.soul.LiveOther key .list clock.unixSecs := by
      apply Soul.wrong_query (fun _ => Value.list?_eq_none) rfl
      intro list
      dsimp only
      split_ifs <;> rfl
    rw [h]
    simp [Command.hasOwnText]
  have hfront : ∀ rest, t.answersWrongType rest = false →
      t.answersWrongType
        ((if terms.length ≠ 3 then incorrectNumberOfArguments token .lindex else []) ++ rest) =
          false := by
    intro rest hrest
    split_ifs
    · exact Temple.answersWrongType_append rfl hrest
    · exact hrest
  apply hfront
  split
  · split
    · exact hlindex _ _
    · simp [Command.hasOwnText]
  · simp

theorem obeys_mset : Obeys mset { counted := passesMset } := by
  apply obeys_never (Or.inr ⟨rfl, rfl, fun _ => rfl⟩)
  intro t clock token terms htoken
  unfold mset
  split_ifs
  · simp
  · exact Temple.answersWrongType_database htoken _

theorem obeys_config :
    Obeys config { counted := passesAtLeast 3, parses := passesConfig, hasOwnText := true } := by
  apply obeys_never (Or.inl rfl)
  intro t clock token terms htoken
  unfold config
  split_ifs
  · simp
  · split
    · split_ifs
      · simp [Command.hasOwnText]
      · exact Temple.answersWrongType_database htoken _
    · simp

theorem obeys_constantHandler (cmd : Command) (info : InfoType) :
    Obeys (constantHandler cmd info) { counted := passesLength 1 } := by
  apply obeys_never (Or.inr ⟨rfl, rfl, fun _ => rfl⟩)
  intro t clock token terms htoken
  unfold constantHandler
  split_ifs <;> simp [Response.isWrongType]

theorem obeys_unsubscribe : Obeys unsubscribe { counted := fun _ => true } := by
  apply obeys_never (Or.inr ⟨rfl, rfl, fun _ => rfl⟩)
  intro t clock token terms htoken
  exact Temple.answersWrongType_broadcast _

theorem obeys_quit : Obeys quit { counted := fun _ => true } := by
  apply obeys_never (Or.inr ⟨rfl, rfl, fun _ => rfl⟩)
  intro t clock token terms htoken
  exact Temple.answersWrongType_reply _

/-! ### The dispatch -/

/-- For every word of the dispatch, its rule. -/
def rules : List (Bytes × Rule) :=
  [(ascii "SET", { counted := countedSet, parses := parsesSet }),
    (ascii "GET", { kind := some .string, counted := passesLength 2 }),
    (ascii "PING", { counted := passesLength 1 }), (ascii "DEL", { counted := passesAtLeast 2 }),
    (ascii "EXISTS", { counted := passesAtLeast 2 }),
    (ascii "INCRBY",
      { kind := some .string, counted := passesLength 3, parses := parsesThird bytesToI64,
        hasOwnText := true }),
    (ascii "INCR", { kind := some .string, counted := passesLength 2, hasOwnText := true }),
    (ascii "DECR", { kind := some .string, counted := passesLength 2, hasOwnText := true }),
    (ascii "APPEND", { kind := some .string, counted := passesLength 3 }),
    (ascii "HSET", { kind := some .hash, counted := passesHset }),
    (ascii "HGET", { kind := some .hash, counted := passesLength 3 }),
    (ascii "HMGET", { kind := some .hash, counted := passesAtLeast 3 }),
    (ascii "STRLEN", { kind := some .string, counted := passesLength 2 }),
    (ascii "HDEL", { kind := some .hash, counted := passesAtLeast 3 }),
    (ascii "HEXISTS", { kind := some .hash, counted := passesLength 3 }),
    (ascii "HLEN", { kind := some .hash, counted := passesLength 2 }),
    (ascii "LPUSH", { kind := some .list, counted := passesAtLeast 3 }),
    (ascii "LPOP",
      { kind := some .list, counted := countedPop, parses := parsesThird bytesToUsize,
        isPop := true }),
    (ascii "RPUSH", { kind := some .list, counted := passesAtLeast 3 }),
    (ascii "RPOP",
      { kind := some .list, counted := countedPop, parses := parsesThird bytesToUsize,
        isPop := true }),
    (ascii "LLEN", { kind := some .list, counted := passesLength 2 }),
    (ascii "LRANGE", { kind := some .list, counted := passesLength 4, parses := parsesLrange }),
    (ascii "LINDEX",
      { kind := some .list, counted := passesLength 3, parses := parsesThird bytesToI32,
        hasOwnText := true }),
    (ascii "LSET",
      { kind := some .list, counted := passesLength 4, parses := parsesThird bytesToI32,
        hasOwnText := true }),
    (ascii "LREM",
      { kind := some .list, counted := passesLength 4, parses := parsesThird bytesToI32 }),
    (ascii "EXPIRE", { counted := passesLength 3, parses := parsesThird bytesToU64 }),
    (ascii "TTL", { counted := passesLength 2 }),
    (ascii "SUBSCRIBE", { counted := passesAtLeast 2 }),
    (ascii "PUBLISH", { counted := passesLength 3 }), (ascii "MSET", { counted := passesMset }),
    (ascii "MGET", { counted := passesAtLeast 2 }),
    (ascii "SADD", { kind := some .set, counted := passesAtLeast 3 }),
    (ascii "SREM", { kind := some .set, counted := passesAtLeast 3 }),
    (ascii "SISMEMBER", { kind := some .set, counted := passesLength 3 }),
    (ascii "HGETALL", { kind := some .hash, counted := passesLength 2 }),
    (ascii "SMEMBERS", { kind := some .set, counted := passesLength 2 }),
    (ascii "UNSUBSCRIBE", { counted := fun _ => true }),
    (ascii "CONFIG", { counted := passesAtLeast 3, parses := passesConfig, hasOwnText := true }),
    (ascii "QUIT", { counted := fun _ => true }), (ascii "COMMAND", { counted := passesLength 1 })]

/-- A command with an argument that reads a value. -/
theorem wrong_pray {t : Temple} {token : Token} {cmd : DatabaseCommand} {P : Prop}
    (htoken : token ∉ t.subscribedClients)
    (h : Soul.wrongReply (database t.soul t.config cmd).2 = true ↔ P) :
    t.answersWrongType (pray token (.database cmd)) = true ↔ P := by
  rwa [Temple.answersWrongType_database htoken]

theorem handlers_obey : List.Forall₂ (fun entry entry' => entry.1 = entry'.1 ∧
    Obeys entry.2 entry'.2) handlers rules := by
  unfold handlers rules
  simp only [List.forall₂_cons, List.forall₂_nil_left_iff, true_and, and_true]
  refine ⟨obeys_set, ?get, obeys_constantHandler _ _, ?del, ?existing, obeys_incrby, ?incr, ?decr,
    ?append, obeys_hset, ?hget, ?hmget, ?strlen, ?hdel, ?hexists, ?hlen, ?lpush, ?lpop, ?rpush,
    ?rpop, ?llen, obeys_lrange, obeys_lindex, ?lset, ?lrem, obeys_expire, ?ttl, ?subscribe,
    ?publish, obeys_mset, ?mget, ?sadd, ?srem, ?sismember, ?hgetall, ?smembers,
    obeys_unsubscribe, obeys_config, obeys_quit, obeys_constantHandler _ _⟩
  case get | strlen =>
    apply obeys_keyHandler
    intro s config clock key
    exact Soul.wrong_query (fun _ => Value.string?_eq_none) rfl (fun _ => rfl) s key _
  case hlen | hgetall =>
    apply obeys_keyHandler
    intro s config clock key
    exact Soul.wrong_query (fun _ => Value.hash?_eq_none) rfl (fun _ => rfl) s key _
  case llen =>
    apply obeys_keyHandler
    intro s config clock key
    exact Soul.wrong_query (fun _ => Value.list?_eq_none) rfl (fun _ => rfl) s key _
  case smembers =>
    apply obeys_keyHandler
    intro s config clock key
    exact Soul.wrong_query (fun _ => Value.set?_eq_none) rfl (fun _ => rfl) s key _
  case del | existing | mget =>
    apply obeys_keysHandler
    intro t clock token keys htoken
    exact Temple.answersWrongType_database htoken _
  case subscribe =>
    apply obeys_keysHandler
    intro t clock token events _
    exact Temple.answersWrongType_broadcast _
  case publish =>
    apply obeys_never (Or.inr ⟨rfl, rfl, fun _ => rfl⟩)
    intro t clock token terms _
    unfold publish keyArgumentHandler
    split_ifs
    · exact Temple.answersWrongType_incorrectNumberOfArguments _
    · split
      · exact Temple.answersWrongType_broadcast _
      · exact Temple.answersWrongType_incorrectNumberOfArguments _
  case ttl =>
    apply obeys_keyHandler
    intro s config clock key
    simp only [database]
    cases (s.ttl key clock).2 with
    | error panic | ok n => simp [Except.map, Soul.wrongReply, Response.isWrongType, Soul.OtherKind]
  case incr | decr =>
    apply obeys_keyHandler
    intro s config clock key
    simp only [database, Soul.incr_eq_onLive, Soul.decr_eq_onLive]
    exact Soul.wrong_addCell s key _ rfl _
  case append =>
    apply obeys_keyArgumentHandler
    intro t clock token key value htoken
    apply wrong_pray htoken
    rw [database, Soul.append_eq_onLive]
    exact Soul.wrong_update (fun _ => Value.string?_eq_none) rfl (fun _ => rfl) _ key _
  case hget | hexists =>
    apply obeys_keyArgumentHandler
    intro t clock token key field htoken
    apply wrong_pray htoken
    exact Soul.wrong_query (fun _ => Value.hash?_eq_none) rfl (fun _ => rfl) _ key _
  case sismember =>
    apply obeys_keyArgumentHandler
    intro t clock token key value htoken
    apply wrong_pray htoken
    exact Soul.wrong_query (fun _ => Value.set?_eq_none) rfl (fun _ => rfl) _ key _
  case hmget =>
    apply obeys_keyListHandler
    intro s config clock key fields
    exact Soul.wrong_query (fun _ => Value.hash?_eq_none) rfl (fun _ => rfl) s key _
  case hdel =>
    apply obeys_keyListHandler
    intro s config clock key fields
    rw [database, Soul.hdel_eq_onLive]
    exact Soul.wrong_update (fun _ => Value.hash?_eq_none) rfl (fun _ => rfl) s key _
  case lpush =>
    apply obeys_keyListHandler
    intro s config clock key elements
    rw [database, Soul.lpush_eq_onLive]
    exact Soul.wrong_update (fun _ => Value.list?_eq_none) rfl (fun _ => rfl) s key _
  case rpush =>
    apply obeys_keyListHandler
    intro s config clock key elements
    rw [database, Soul.rpush_eq_onLive]
    exact Soul.wrong_update (fun _ => Value.list?_eq_none) rfl (fun _ => rfl) s key _
  case sadd =>
    apply obeys_keyListHandler
    intro s config clock key values
    rw [database, Soul.sadd_eq_onLive]
    exact Soul.wrong_update (fun _ => Value.set?_eq_none) rfl (fun _ => rfl) s key _
  case srem =>
    apply obeys_keyListHandler
    intro s config clock key values
    rw [Soul.wrong_srem, eq_self, true_and]
    rfl
  case lpop | rpop =>
    apply obeys_popHandler _ rfl
    · intro s config clock key
      exact Soul.wrong_pop (fun _ => rfl) rfl none _ s key _
    · intro s config clock key count
      exact Soul.wrong_pop (fun _ => rfl) rfl none _ s key _
  case lset =>
    apply obeys_indexHandler
    intro s config clock key index element
    rw [Soul.wrong_lset]
    simp [Command.hasOwnText]
  case lrem =>
    apply obeys_indexHandler
    intro s config clock key count element
    rw [Soul.wrong_lrem]
    simp [Command.hasOwnText, Soul.OtherKind]

/-- The rule of a command. -/
def ruleOf (terms : List Bytes) (h : terms ≠ []) : Option Rule :=
  (rules.find? fun entry => eqIgnoreAsciiCase (terms.head h) entry.1).map Prod.snd

end Grant

/-! ### Commands -/

section commands

variable (s : Soul) (now : ℕ) (terms : List Bytes) (h : terms ≠ [])

/-- The arguments of the command are in order, and its key is live and holds a value of another
kind. -/
def DeservesWrongType : Prop :=
  ∃ rule, ruleOf terms h = some rule ∧ rule.counted terms = true ∧ rule.parses terms = true ∧
    ∃ key, terms[1]? = some key ∧ s.OtherKind key now rule.kind

/-- If the terms of the command have the right number: a command with an error text of its own does
not find another kind of value, any other command has terms that parse, and a pop finds no expired
value of another kind. -/
def FitsError : Prop :=
  ∀ rule, ruleOf terms h = some rule → rule.counted terms = true →
    if rule.hasOwnText = true then
      ¬ (rule.parses terms = true ∧ ∃ key, terms[1]? = some key ∧ s.OtherKind key now rule.kind)
    else
      rule.parses terms = true ∧
        ∀ key, terms[1]? = some key → rule.isPop = true → ¬ s.ExpiredOther key now

end commands

/-- A value is not live and expired at once. -/
theorem Soul.OtherKind.not_expired {s : Soul} {key : Bytes} {now : ℕ} {kind : Option Kind}
    (h : s.OtherKind key now kind) : ¬ s.ExpiredOther key now := by
  cases kind with
  | none => exact h.elim
  | some kind =>
      obtain ⟨value, expiry, hlive, -⟩ := h
      rintro ⟨value', expiry', hkey, hexpired, -⟩
      rw [get?_purge, hkey, filter_live_some, if_pos hexpired] at hlive
      cases hlive

/-- **A command is answered with WRONGTYPE as it should be if and only if** it has no error text of
its own to use instead, no terms that do not parse, and pops no expired value of another kind. -/
theorem wrongType_iff (t : Temple) (terms : List Bytes) (h : terms ≠ []) (clock : SystemTime)
    {token : Token} (htoken : token ∉ t.subscribedClients) :
    (t.answersWrongType (grant terms h clock token) = true ↔
        DeservesWrongType t.soul clock.unixSecs terms h) ↔
      FitsError t.soul clock.unixSecs terms h := by
  unfold grant DeservesWrongType FitsError ruleOf handlerOf
  obtain ⟨hnone, hnone'⟩ | ⟨word, handler, rule, hsome, hsome', hobeys⟩ :=
    find?_forall₂ (q := eqIgnoreAsciiCase (terms.head h)) handlers_obey
  · rw [hnone, hnone']
    simp [Response.isWrongType]
  · rw [hsome, hsome']
    simp only [hobeys t clock token terms htoken, Option.map_some, Option.some.injEq,
      exists_eq_left', forall_eq', Rule.Meets]
    cases rule.counted terms with
    | false => simp
    | true =>
        cases rule.hasOwnText with
        | true => simp
        | false =>
            cases rule.parses terms with
            | false => simp
            | true =>
                cases terms[1]? with
                | none => simp
                | some key =>
                    have hexclusive : t.soul.OtherKind key clock.unixSecs rule.kind →
                        ¬ t.soul.ExpiredOther key clock.unixSecs := Soul.OtherKind.not_expired
                    simp only [Bool.true_eq_false, Option.some.injEq, exists_eq_left', false_or,
                      true_and, or_iff_left_iff_imp, and_imp, Bool.false_eq_true, if_false,
                      forall_eq', forall_const]
                    tauto

/-- APPEND to a list. -/
theorem wrongType_iff_append :
    let t : Temple := { Temple.worship ∅ with soul := Soul.new.set (ascii "k") (.list [], none) }
    let terms := [ascii "APPEND", ascii "k", ascii "x"]
    (t.answersWrongType (grant terms (List.cons_ne_nil _ _) .unixEpoch 1) = true ↔
        DeservesWrongType t.soul SystemTime.unixEpoch.unixSecs terms (List.cons_ne_nil _ _)) ↔
      FitsError t.soul SystemTime.unixEpoch.unixSecs terms (List.cons_ne_nil _ _) :=
  wrongType_iff _ _ _ _ (HashSet.not_mem_empty 1)

/-- LRANGE k a b on an empty store is answered with WRONGTYPE. -/
theorem lrange_answers_wrongType :
    ¬ ∀ (t : Temple) (terms : List Bytes) (h : terms ≠ []) (clock : SystemTime) (token : Token),
      token ∉ t.subscribedClients →
      (t.answersWrongType (grant terms h clock token) = true ↔
        DeservesWrongType t.soul clock.unixSecs terms h) := by
  intro hall
  have h := (hall (Temple.worship ∅) [ascii "LRANGE", ascii "k", ascii "a", ascii "b"]
    (List.cons_ne_nil _ _) .unixEpoch 1 (HashSet.not_mem_empty 1)).mp
    (by decide)
  obtain ⟨rule, hrule, -, hparses, -⟩ := h
  have hrule' : rule = { kind := some .list, counted := passesLength 4, parses := parsesLrange } :=
    (Option.some.inj hrule).symm
  rw [hrule'] at hparses
  exact absurd hparses (by decide)

end Heaven
