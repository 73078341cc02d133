import Heaven.Safety

/-! # Empty aggregates

A key whose last element is gone should be gone.  The pops and SREM see to that, and the commands
that create a list, a hash or a set are given at least one element.  HDEL and LREM leave the empty
hash or list in the store.  `noEmpty_database` says that these are the only steps that break the
invariant `NoEmpty`, and `run_tidy_iff` carries this over to runs. -/

namespace Heaven

open Decimal (ascii printInt)
open Runs

/-- An aggregate without elements; a string is none. -/
def Value.isEmpty : Value → Bool
  | .string _ => false
  | .list elements => elements.isEmpty
  | .hash fields => fields.entries.isEmpty
  | .set members => members.isEmpty

namespace Soul

variable {α ρ : Type} {s : Soul} {key : Bytes} {now : ℕ}

/-- The cell holds no empty aggregate. -/
def Filled (o : Option Entry) : Prop :=
  ∀ value expiry, o = some (value, expiry) → value.isEmpty = false

/-- No entry of the store is an empty aggregate. -/
def NoEmpty (s : Soul) : Prop := ∀ key, Filled (s.get? key)

theorem filled_none : Filled none := by
  intro _ _ h
  cases h

theorem filled_some {value : Value} {expiry : Option ℕ} :
    Filled (some (value, expiry)) ↔ value.isEmpty = false := by
  constructor
  · intro h
    exact h value expiry rfl
  · rintro h _ _ ⟨⟩
    exact h

theorem Filled.filter {o : Option Entry} (h : Filled o) (p : Entry → Bool) :
    Filled (o.filter p) := by
  intro value expiry ho
  apply h value expiry
  exact (Option.filter_eq_some_iff.mp ho).1

theorem noEmpty_new : NoEmpty Soul.new := by
  intro key
  rw [Soul.new, Dict.get?_empty]
  exact filled_none

theorem noEmpty_put (hs : NoEmpty s) {o : Option Entry} : NoEmpty (s.put key o) ↔ Filled o := by
  constructor
  · intro h
    simpa using h key
  · intro ho key'
    rw [Dict.get?_put]
    split_ifs
    · exact ho
    · exact hs key'

theorem noEmpty_onLive (hs : NoEmpty s) {g : Option Entry → Option Entry × ρ} :
    NoEmpty (s.onLive key now g).1 ↔ Filled (g ((s.get? key).filter (live now))).1 :=
  noEmpty_put hs

/-! ### Families of methods -/

theorem noEmpty_query (hs : NoEmpty s) (key : Bytes) (now : ℕ) (view : Value → Option α)
    (wrongType absent : ρ) (found : α → ρ) :
    NoEmpty (s.query key now view wrongType absent found).1 := by
  rw [query_eq_onLive, noEmpty_onLive hs, queryCell_fst]
  exact (hs key).filter _

/-- A writing method keeps aggregates filled if its branches do. -/
theorem filled_updateCell {view : Value → Option α} {wrap : α → Value} {wrongType : ρ}
    {absent : Option Entry × ρ} {found : α → α × ρ} (hview : ∀ v x, view v = some x → v = wrap x)
    (ha : Filled absent.1)
    (hf : ∀ x, (wrap x).isEmpty = false → (wrap (found x).1).isEmpty = false) {o : Option Entry}
    (ho : Filled o) : Filled (updateCell view wrap wrongType absent found o).1 := by
  rcases o with _ | ⟨value, expiry⟩
  · exact ha
  · simp only [updateCell]
    cases hx : view value with
    | none => exact ho
    | some x =>
        rw [hview value x hx, filled_some] at ho
        exact filled_some.mpr (hf x ho)

theorem noEmpty_update {view : Value → Option α} {wrap : α → Value} {wrongType : ρ}
    {absent : Option Entry × ρ} {found : α → α × ρ} (hs : NoEmpty s)
    (hview : ∀ v x, view v = some x → v = wrap x) (ha : Filled absent.1)
    (hf : ∀ x, (wrap x).isEmpty = false → (wrap (found x).1).isEmpty = false) :
    NoEmpty (s.onLive key now (updateCell view wrap wrongType absent found)).1 := by
  have hlive := (hs key).filter (live now)
  exact (noEmpty_onLive hs).mpr (filled_updateCell hview ha hf hlive)

theorem noEmpty_forKeys {β : Type} {access : Soul → Bytes → Soul × Option Value}
    (h : ∀ s key, NoEmpty s → NoEmpty (access s key).1) (visit : β → Option Value → β)
    (keys : List Bytes) (s : Soul) (acc : β) (hs : NoEmpty s) :
    NoEmpty (forKeys access visit s acc keys).1 := by
  induction keys generalizing s acc with
  | nil => exact hs
  | cons key keys ih => exact ih _ _ (h s key hs)

theorem noEmpty_getValidValue (now : ℕ) (s : Soul) (key : Bytes) (hs : NoEmpty s) :
    NoEmpty (s.getValidValue key now).1 := by
  rw [getValidValue_eq_onLive, noEmpty_onLive hs]
  exact (hs key).filter _

theorem noEmpty_removeValidValue (now : ℕ) (s : Soul) (key : Bytes) (hs : NoEmpty s) :
    NoEmpty (s.removeValidValue key now).1 := by
  rw [removeValidValue_eq_onLive, noEmpty_onLive hs]
  exact filled_none

theorem noEmpty_mset : ∀ (terms : List Bytes) {s : Soul}, NoEmpty s → NoEmpty (s.mset terms)
  | [], _, hs => hs
  | [_], _, hs => hs
  | key :: value :: terms, s, hs => by
      have hnext : NoEmpty (s.put key (some (.string value, none))) :=
        (noEmpty_put hs).mpr (filled_some.mpr rfl)
      exact noEmpty_mset terms hnext

/-! ### Hashes -/

theorem map_insert_filled (map : FieldMap) (field value : Bytes) :
    (map.insert field value).entries.isEmpty = false := by
  rw [AList.entries_insert]
  rfl

theorem hsetLoop_filled (pairs : List (Bytes × Bytes)) {map : FieldMap} (added : ℕ)
    (h : map.entries.isEmpty = false) :
    (hsetLoop map added pairs).1.entries.isEmpty = false := by
  induction pairs generalizing map added with
  | nil => exact h
  | cons pair pairs ih =>
      obtain ⟨field, value⟩ := pair
      exact ih _ (map_insert_filled map field value)

theorem hsetFreshLoop_filled (pairs : List (Bytes × Bytes)) {map : FieldMap} (added : ℕ)
    (h : map.entries.isEmpty = false ∨ pairs ≠ []) :
    (hsetFreshLoop map added pairs).1.entries.isEmpty = false := by
  induction pairs generalizing map added with
  | nil =>
      obtain hmap | hpairs := h
      · exact hmap
      · exact absurd rfl hpairs
  | cons pair pairs ih =>
      obtain ⟨field, value⟩ := pair
      exact ih _ (Or.inl (map_insert_filled map field value))

theorem mem_hdelLoop {field : Bytes} (fields : List Bytes) (map : FieldMap) (deleted : ℕ) :
    field ∈ (hdelLoop map deleted fields).1 ↔ field ∈ map ∧ field ∉ fields := by
  induction fields generalizing map deleted with
  | nil => simp [hdelLoop]
  | cons gone fields ih =>
      rw [hdelLoop, ih, AList.mem_erase, List.mem_cons]
      tauto

theorem map_isEmpty_iff (map : FieldMap) : map.entries.isEmpty = true ↔ ∀ field, field ∉ map := by
  rw [List.isEmpty_iff]
  constructor
  · intro h field hmem
    rw [AList.mem_keys, AList.keys, h] at hmem
    cases hmem
  · intro h
    apply List.eq_nil_iff_forall_not_mem.mpr
    intro e he
    apply h e.1
    exact List.mem_map_of_mem he

/-- HDEL empties a hash exactly if it names all its fields. -/
theorem hdelLoop_isEmpty (map : FieldMap) (deleted : ℕ) (fields : List Bytes) :
    (hdelLoop map deleted fields).1.entries.isEmpty = true ↔ ∀ field ∈ map, field ∈ fields := by
  rw [map_isEmpty_iff]
  simp only [mem_hdelLoop, not_and, not_not]

/-! ### Lists and sets -/

theorem foldl_cons_filled (elements : List Bytes) {list : List Bytes}
    (h : list.isEmpty = false) :
    (elements.foldl (fun list element => element :: list) list).isEmpty = false := by
  rw [List.isEmpty_eq_false_iff] at h
  simp only [List.foldl_flip_cons_eq_append', List.isEmpty_eq_false_iff]
  exact List.append_ne_nil_of_right_ne_nil _ h

theorem foldl_append_filled (elements : List Bytes) {list : List Bytes}
    (h : list.isEmpty = false) :
    (elements.foldl (fun list element => list ++ [element]) list).isEmpty = false := by
  rw [List.isEmpty_eq_false_iff] at h
  simp only [foldl_concat, List.isEmpty_eq_false_iff]
  exact List.append_ne_nil_of_left_ne_nil h _

theorem filled_popCell (cmd : Command) (absent : ρ) (pop : List Bytes → List Bytes × ρ)
    {o : Option Entry} (ho : Filled o) : Filled (popCell now cmd absent pop o).1 := by
  rcases o with _ | ⟨_ | list | _ | _, expiry⟩
  · exact filled_none
  · exact ho
  · simp only [popCell]
    split_ifs with he hempty
    · exact filled_none
    · exact filled_none
    · exact filled_some.mpr (Bool.eq_false_iff.mpr hempty)
  · exact ho
  · exact ho

theorem noEmpty_popWith (hs : NoEmpty s) (cmd : Command) (absent : ρ)
    (pop : List Bytes → List Bytes × ρ) : NoEmpty (s.popWith key now cmd absent pop).1 := by
  rw [popWith_eq_onCell]
  exact (noEmpty_put hs).mpr (filled_popCell cmd absent pop (hs key))

theorem lsetList_filled (index : ℤ) (element : Bytes) {list : List Bytes}
    (h : list.isEmpty = false) : (lsetList index element list).1.isEmpty = false := by
  unfold lsetList
  dsimp only
  split_ifs
  · exact h
  · cases list with
    | nil => cases h
    | cons found list => cases asUsize (normalizeIndex (found :: list) index) <;> rfl
  · exact h

theorem saddLoop_filled (values : List Bytes) {set : HashSet Bytes} (count : ℕ)
    (h : set.isEmpty = false ∨ values ≠ []) : (saddLoop set count values).1.isEmpty = false := by
  induction values generalizing set count with
  | nil =>
      obtain hset | hvalues := h
      · exact hset
      · exact absurd rfl hvalues
  | cons value values ih => exact ih _ (Or.inl (set.isEmpty_insert value))

theorem filled_sremCell (values : List Bytes) {o : Option Entry} (ho : Filled o) :
    Filled (sremCell values o).1 := by
  rcases o with _ | ⟨_ | _ | _ | set, expiry⟩
  · exact filled_none
  · exact ho
  · exact ho
  · exact ho
  · simp only [sremCell]
    split_ifs with hempty
    · exact filled_none
    · exact filled_some.mpr (Bool.eq_false_iff.mpr hempty)

/-! ### One step -/

/-- The command is an HDEL of every field of a live hash, or an LREM of every element of a live
list. -/
def Exhausts (s : Soul) : DatabaseCommand → Prop
  | .hdel key fields time => ∃ map expiry, s.get? key = some (.hash map, expiry) ∧
      isExpired expiry time = false ∧ ∀ field ∈ map, field ∈ fields
  | .lrem key count element time => ∃ list expiry, s.get? key = some (.list list, expiry) ∧
      isExpired expiry time = false ∧ (∀ found ∈ list, found = element) ∧
        (count = 0 ∨ list.length ≤ count.natAbs)
  | _ => False

theorem filled_ttlCell (time : SystemTime) {o : Option Entry} (ho : Filled o) :
    Filled (ttlCell time o).1 := by
  rcases o with _ | ⟨value, _ | expiry⟩
  · exact filled_none
  · exact ho
  · simp only [ttlCell]
    cases SystemTime.epochPlus expiry with
    | error panic => exact ho
    | ok deadline =>
        dsimp only
        split_ifs
        · exact filled_none
        · cases deadline.durationSince time with
          | none => exact filled_none
          | some duration => exact ho

theorem filled_expireCell (expiry : ℕ) {o : Option Entry} (ho : Filled o) :
    Filled (expireCell expiry o).1 := by
  rcases o with _ | ⟨value, old⟩
  · exact filled_none
  · exact filled_some.mpr (filled_some.mp ho)

/-- A method that writes a string. -/
theorem noEmpty_string (hs : NoEmpty s) (wrongType : ρ) (absent : Bytes × ρ)
    (found : Bytes → Bytes × ρ) :
    NoEmpty (s.onLive key now (updateCell Value.string? .string wrongType
      (some (.string absent.1, none), absent.2) found)).1 := by
  apply noEmpty_update hs (fun _ _ => string?_eq_some.mp)
  · exact filled_some.mpr rfl
  · intro _ _
    rfl

/-- A push of at least one element. -/
theorem noEmpty_push (hs : NoEmpty s) (wrongType r : ρ) {elements : List Bytes}
    (hne : elements ≠ []) {found : List Bytes → List Bytes × ρ}
    (hfound : ∀ list, list.isEmpty = false → (found list).1.isEmpty = false) :
    NoEmpty (s.onLive key now (updateCell Value.list? .list wrongType
      (some (.list elements, none), r) found)).1 := by
  apply noEmpty_update hs (fun _ _ => list?_eq_some.mp)
  · apply filled_some.mpr
    exact List.isEmpty_eq_false_iff.mpr hne
  · exact hfound

theorem noEmpty_addCell (hs : NoEmpty s) (cmd : Command) (delta : ℤ) :
    NoEmpty (s.onLive key now (addCell cmd delta)).1 :=
  noEmpty_string hs _ (printInt delta, _) _

/-- What becomes of a live aggregate decides whether a method that creates none keeps the store
free of empty aggregates. -/
theorem noEmpty_update_iff {view : Value → Option α} {wrap : α → Value} {wrongType : ρ}
    {r : ρ} {found : α → α × ρ} (hview : ∀ v x, view v = some x ↔ v = wrap x) (hs : NoEmpty s) :
    NoEmpty (s.onLive key now (updateCell view wrap wrongType (none, r) found)).1 ↔
      ¬ ∃ x expiry, s.get? key = some (wrap x, expiry) ∧ isExpired expiry now = false ∧
        (wrap (found x).1).isEmpty = true := by
  rw [noEmpty_onLive hs]
  rcases hk : s.get? key with _ | ⟨value, expiry⟩
  · simp [updateCell, filled_none]
  · have hfilled : Filled (some (value, expiry)) := hk ▸ hs key
    rw [filter_live_some]
    by_cases he : isExpired expiry now = true
    · rw [if_pos he]
      apply iff_of_true filled_none
      rintro ⟨_, _, ⟨⟩, he', -⟩
      rw [he] at he'
      cases he'
    · rw [if_neg he]
      simp only [updateCell]
      cases hx : view value with
      | none =>
          apply iff_of_true hfilled
          rintro ⟨x, _, ⟨⟩, -⟩
          rw [(hview _ x).mpr rfl] at hx
          cases hx
      | some x =>
          obtain rfl := (hview value x).mp hx
          rw [filled_some, ← Bool.not_eq_true, not_iff_not]
          constructor
          · intro hempty
            exact ⟨x, expiry, rfl, Bool.not_eq_true _ ▸ he, hempty⟩
          · rintro ⟨y, _, hy, -, hempty⟩
            obtain ⟨hwrap, -⟩ := Prod.mk.inj (Option.some.inj hy)
            have hxy : some x = some y := by
              rw [← hx, hwrap]
              exact (hview _ y).mpr rfl
            rw [Option.some.inj hxy]
            exact hempty

theorem exhausts_hdel_iff (fields : List Bytes) :
    Exhausts s (.hdel key fields now) ↔ ∃ map expiry, s.get? key = some (.hash map, expiry) ∧
      isExpired expiry now = false ∧
        (Value.hash (hdelLoop map 0 fields).1).isEmpty = true := by
  simp only [Exhausts, Value.isEmpty, hdelLoop_isEmpty]

theorem exhausts_lrem_iff {count : ℤ} (hcount : InI32 count) (element : Bytes) :
    Exhausts s (.lrem key count element now) ↔
      ∃ list expiry, s.get? key = some (.list list, expiry) ∧ isExpired expiry now = false ∧
        (Value.list (lremList count element list).1).isEmpty = true := by
  simp only [Exhausts, Value.isEmpty, (lremList_ok count element _).1, List.isEmpty_iff,
    remaining_eq_nil hcount]

/-- **A well-formed command keeps the store free of empty aggregates, unless it exhausts a hash
or a list by HDEL or LREM.** -/
theorem noEmpty_database (config : Config) (hs : NoEmpty s) {cmd : DatabaseCommand}
    (hcmd : cmd.WellFormed) : NoEmpty (database s config cmd).1 ↔ ¬ Exhausts s cmd := by
  cases cmd
  case hdel key fields time =>
    show NoEmpty (s.hdel key fields time).1 ↔ _
    rw [hdel_eq_onLive, noEmpty_update_iff (fun v x => hash?_eq_some) hs, exhausts_hdel_iff]
  case lrem key count element time =>
    show NoEmpty (s.lrem key count element time).1 ↔ _
    rw [lrem_eq_onLive, noEmpty_update_iff (fun v x => list?_eq_some) hs, exhausts_lrem_iff hcmd]
  all_goals refine iff_of_true ?_ (fun h => h)
  case get | strlen | hget | hmget | hexists | hlen | llen | lrange | lindex | sismember
      | hgetall | smembers =>
    exact noEmpty_query hs _ _ _ _ _ _
  case lpop | lpopM | rpop | rpopM => exact noEmpty_popWith hs _ _ _
  case set key value =>
    obtain ⟨text, htext⟩ := hcmd
    have hfilled : Filled (some value) := by
      apply filled_some.mpr
      rw [htext]
      rfl
    exact (noEmpty_put hs).mpr hfilled
  case del keys time => exact noEmpty_forKeys (noEmpty_removeValidValue time) _ keys s _ hs
  case «exists» keys time => exact noEmpty_forKeys (noEmpty_getValidValue time) _ keys s _ hs
  case mget keys time => exact noEmpty_forKeys (noEmpty_getValidValue time) _ keys s _ hs
  case mset terms => exact noEmpty_mset terms hs
  case append key value time =>
    show NoEmpty (s.append key value time).1
    rw [append_eq_onLive]
    exact noEmpty_string hs _ (value, _) _
  case incr key _ | incrby key _ _ | decr key _ =>
    simp only [database, incr_eq_onLive, incrby_eq_onLive, decr_eq_onLive]
    exact noEmpty_addCell hs _ _
  case hset key pairs time =>
    show NoEmpty (s.hset key pairs time).1
    rw [hset_eq_onLive]
    apply noEmpty_update hs (fun _ _ => hash?_eq_some.mp)
    · apply filled_some.mpr
      exact hsetFreshLoop_filled pairs 0 (Or.inr hcmd)
    · intro map hmap
      exact hsetLoop_filled pairs 0 hmap
  case lpush key elements time =>
    show NoEmpty (s.lpush key elements time).1
    rw [lpush_eq_onLive]
    apply noEmpty_push hs _ _ (List.reverse_ne_nil_iff.mpr hcmd)
    intro list hlist
    exact foldl_cons_filled elements hlist
  case rpush key elements time =>
    show NoEmpty (s.rpush key elements time).1
    rw [rpush_eq_onLive]
    apply noEmpty_push hs _ _ hcmd
    intro list hlist
    exact foldl_append_filled elements hlist
  case lset key index element time =>
    show NoEmpty (s.lset key index element time).1
    rw [lset_eq_onLive]
    apply noEmpty_update hs (fun _ _ => list?_eq_some.mp) filled_none
    intro list hlist
    exact lsetList_filled index element hlist
  case expire key expiry time =>
    show NoEmpty (s.expire key expiry time).1
    rw [expire_eq_onLive, noEmpty_onLive hs]
    exact filled_expireCell expiry ((hs key).filter _)
  case ttl key time =>
    show NoEmpty (s.ttl key time).1
    rw [ttl_eq_onCell]
    exact (noEmpty_put hs).mpr (filled_ttlCell time (hs key))
  case sadd key values time =>
    show NoEmpty (s.sadd key values time).1
    rw [sadd_eq_onLive]
    apply noEmpty_update hs (fun _ _ => set?_eq_some.mp)
    · apply filled_some.mpr
      exact saddLoop_filled values 0 (Or.inr hcmd)
    · intro set hset
      exact saddLoop_filled values 0 (Or.inl hset)
  case srem key values time =>
    show NoEmpty (s.srem key values time).1
    rw [srem_eq_onLive, noEmpty_onLive hs]
    exact filled_sremCell values ((hs key).filter _)
  case configGet properties => exact hs

/-! ### Runs -/

/-- The key is free: EXISTS and TTL do not find it, and every creating command creates it. -/
structure Vacant (s : Soul) (key : Bytes) : Prop where
  exists_eq : ∀ now, (s.exists [key] now).2 = 0
  ttl_eq : ∀ t, (s.ttl key t).2 = .ok (-2)
  append_eq : ∀ value now,
    s.append key value now = (s.insert key (.string value, none), .ok value.length)
  incr_eq : ∀ now, s.incr key now = (s.insert key (.string (printInt 1), none), .ok 1)
  incrby_eq : ∀ number now,
    s.incrby key number now = (s.insert key (.string (printInt number), none), .ok number)
  decr_eq : ∀ now, s.decr key now = (s.insert key (.string (printInt (-1)), none), .ok (-1))
  hset_eq : ∀ pairs now, ∃ map added,
    s.hset key pairs now = (s.insert key (.hash map, none), .ok added)
  lpush_eq : ∀ elements now,
    s.lpush key elements now = (s.insert key (.list elements.reverse, none), .ok elements.length)
  rpush_eq : ∀ elements now,
    s.rpush key elements now = (s.insert key (.list elements, none), .ok elements.length)
  sadd_eq : ∀ values now, ∃ set count,
    s.sadd key values now = (s.insert key (.set set, none), .ok count)

theorem onLive_of_absent (h : s.get? key = none) (now : ℕ) (g : Option Entry → Option Entry × ρ) :
    s.onLive key now g = (s.put key (g none).1, (g none).2) := by
  simp only [onLive, Dict.onKept, Dict.onCell, h, Option.filter_none]

theorem vacant_of_absent (h : s.get? key = none) : Vacant s key where
  exists_eq now := by
    simp only [«exists», forKeys, getValidValue_eq_onLive, onLive_of_absent h, Option.map_none,
      Option.isSome_none, Bool.false_eq_true, if_false]
  ttl_eq t := by simp only [ttl_eq_onCell, Dict.onCell, h, ttlCell]
  append_eq value now := by rw [append_eq_onLive, onLive_of_absent h]; rfl
  incr_eq now := by rw [incr_eq_onLive, onLive_of_absent h]; rfl
  incrby_eq number now := by rw [incrby_eq_onLive, onLive_of_absent h]; rfl
  decr_eq now := by rw [decr_eq_onLive, onLive_of_absent h]; rfl
  hset_eq pairs now := ⟨_, _, by rw [hset_eq_onLive, onLive_of_absent h]; rfl⟩
  lpush_eq elements now := by rw [lpush_eq_onLive, onLive_of_absent h]; rfl
  rpush_eq elements now := by rw [rpush_eq_onLive, onLive_of_absent h]; rfl
  sadd_eq values now := ⟨_, _, by rw [sadd_eq_onLive, onLive_of_absent h]; rfl⟩

/-- No empty aggregate is stored, and so a key without elements is free. -/
def Tidy (s : Soul) : Prop :=
  NoEmpty s ∧ ∀ key, (∀ value expiry, s.get? key = some (value, expiry) → value.isEmpty = true) →
    Vacant s key

theorem tidy_iff_noEmpty : Tidy s ↔ NoEmpty s := by
  refine ⟨And.left, ?_⟩
  intro hs
  refine ⟨hs, ?_⟩
  intro key hnone
  apply vacant_of_absent
  rcases hk : s.get? key with _ | ⟨value, expiry⟩
  · rfl
  · have hfilled := hs key value expiry hk
    rw [hnone value expiry hk] at hfilled
    cases hfilled

theorem Exhausts.not_ttl {cmd : DatabaseCommand} (h : Exhausts s cmd) (key : Bytes)
    (time : SystemTime) : cmd ≠ .ttl key time := by
  rintro rfl
  exact h

/-- **Over every run of accepted commands, no empty aggregate is ever stored exactly if no step
exhausts a hash by HDEL or a list by LREM.** -/
theorem run_tidy_iff (config : Config) (cmds : List DatabaseCommand)
    (h : ∀ cmd ∈ cmds, Accepted cmd) :
    Throughout (execute config) Tidy Soul.new cmds ↔
      Always (execute config) (fun s cmd => ¬ Exhausts s cmd) Soul.new cmds := by
  apply throughout_iff_always (P := Accepted) _ h (tidy_iff_noEmpty.mpr noEmpty_new)
  intro s cmd haccepted hs
  have hstep := noEmpty_database config (tidy_iff_noEmpty.mp hs) haccepted.wellFormed
  constructor
  · intro hkeeps s' hs'
    obtain ⟨rfl, -⟩ := execute_eq_ok.mp hs'
    exact tidy_iff_noEmpty.mpr (hstep.mpr hkeeps)
  · intro hnext hexhausts
    obtain ⟨response, hresponse⟩ := (returns_iff config s haccepted.wellFormed).mpr
      (not_asksFarDeadline s hexhausts.not_ttl)
    have htidy := hnext _ (execute_eq_ok.mpr ⟨rfl, response, hresponse⟩)
    exact hstep.mp (tidy_iff_noEmpty.mp htidy) hexhausts

/-- RPUSH k x, then LPOP k. -/
theorem run_tidy_rpush_lpop :
    Throughout (execute ∅) Tidy Soul.new
      [.rpush (ascii "k") [ascii "x"] 0, .lpop (ascii "k") 0] := by
  refine (run_tidy_iff ∅ _ ?_).mpr ?_
  · rw [List.forall_mem_cons, List.forall_mem_singleton]
    exact ⟨⟨[ascii "RPUSH", ascii "k", ascii "x"], by decide, .unixEpoch, 1, by decide⟩,
      ⟨[ascii "LPOP", ascii "k"], by decide, .unixEpoch, 1, by decide⟩⟩
  · exact always_cons.mpr ⟨fun h => h, fun _ _ => always_cons.mpr
      ⟨fun h => h, fun _ _ => always_nil⟩⟩

/-- HSET h f v, then HDEL h f: the empty hash stays. -/
theorem hdel_leaves_empty_hash :
    ¬ ∀ (config : Config) (cmds : List DatabaseCommand), (∀ cmd ∈ cmds, Accepted cmd) →
      Throughout (execute config) Tidy Soul.new cmds := by
  intro h
  have haccepted : ∀ cmd ∈ [DatabaseCommand.hset (ascii "h") [(ascii "f", ascii "v")] 0,
      .hdel (ascii "h") [ascii "f"] 0], Accepted cmd := by
    rw [List.forall_mem_cons, List.forall_mem_singleton]
    exact ⟨⟨[ascii "HSET", ascii "h", ascii "f", ascii "v"], by decide, .unixEpoch, 1, by decide⟩,
      ⟨[ascii "HDEL", ascii "h", ascii "f"], by decide, .unixEpoch, 1, by decide⟩⟩
  have htidy := h ∅ _ haccepted
  obtain ⟨-, hnext⟩ := throughout_cons.mp htidy
  obtain ⟨-, hnext⟩ := throughout_cons.mp (hnext _ (execute_eq_ok.mpr ⟨rfl, _, rfl⟩))
  obtain ⟨hempty, -⟩ := throughout_nil.mp (hnext _ (execute_eq_ok.mpr ⟨rfl, _, rfl⟩))
  have hstored : Dict.get? (database (database Soul.new ∅ (.hset (ascii "h")
      [(ascii "f", ascii "v")] 0)).1 ∅ (.hdel (ascii "h") [ascii "f"] 0)).1 (ascii "h") =
      some (.hash ∅, none) := rfl
  exact absurd (hempty _ _ _ hstored) (by decide)

end Soul
end Heaven
