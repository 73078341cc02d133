import Heaven.Temple

/-! # The snapshot

The temple writes its store to a file when the server shuts down and reads the file when it starts.
`std::fs::write` truncates the file and then writes; how far it comes is its `WriteOutcome`.  The
encoding of the store is an `Archive`, of which a theorem assumes no more than that it is
`Faithful` on the stores in question.

A save that breaks off inside the write leaves a file that does not decode, and the loader answers
such a file with an empty store (`survives_iff`).  In a run in which no write breaks off, a start
finds the store of the last save that succeeded (`loadSnapshot_shutdowns`). -/

namespace Heaven

open Decimal (ascii)

/-- The file system, as far as the snapshot is concerned. -/
abbrev Files := Dict Bytes Bytes

inductive ServerError where
  | serializationError
  | fileWriteError
  | valueNotSet
deriving DecidableEq, Repr

/-- The encoding of a store: `rkyv::to_bytes`, `rkyv::access` and `deserialize`. -/
structure Archive (Archived : Type) where
  toBytes : Soul → Bytes
  access : Bytes → Option Archived
  deserialize : Archived → Option Soul

/-- How a call of `std::fs::write` ends: before the file is touched, after some bytes, or well. -/
inductive WriteOutcome where
  | openError
  | writeError (written : ℕ)
  | success
deriving DecidableEq, Repr

/-- How a call of `Soul::save` ends. -/
inductive SaveOutcome where
  | serializationError
  | write (outcome : WriteOutcome)
deriving DecidableEq, Repr

/-- `std::fs::write`: truncate the file, then write. -/
def fsWrite (files : Files) (path bytes : Bytes) : WriteOutcome → Files × Except ServerError Unit
  | .openError => (files, .error .fileWriteError)
  | .writeError written => (files.insert path (bytes.take written), .error .fileWriteError)
  | .success => (files.insert path bytes, .ok ())

section snapshot

variable {Archived : Type} (archive : Archive Archived)

/-! ### Saving and loading -/

def Soul.save (s : Soul) (path : Bytes) (files : Files) :
    SaveOutcome → Files × Except ServerError Unit
  | .serializationError => (files, .error .serializationError)
  | .write outcome => fsWrite files path (archive.toBytes s) outcome

/-- `[dir, b"/", dbfilename].concat()`. -/
def dbFilePath (dir dbfilename : Bytes) : Bytes := dir ++ ascii "/" ++ dbfilename

/-- The store `worship` starts with.  The path is text, so only the file can be missing. -/
def loadSnapshot (dir dbfilename : Bytes) (files : Files) : Soul :=
  match files.get? (dbFilePath dir dbfilename) with
  | none => Soul.new
  | some bytes =>
      match archive.access bytes with
      | none => Soul.new
      | some archivedSoul =>
          match archive.deserialize archivedSoul with
          | some snapshot => snapshot
          | none => Soul.new

/-- `GetFilePath`. -/
def getFilePath (config : Config) : Except ServerError Bytes :=
  match config.lookup (ascii "dir"), config.lookup (ascii "dbfilename") with
  | some dir, some dbfilename => .ok (dir ++ ascii "/" ++ dbfilename)
  | _, _ => .error .valueNotSet

/-- `Temple::save`: ask for the path, then send `Save`, with which the command loop ends. -/
def shutdown (config : Config) (soul : Soul) (files : Files) (outcome : SaveOutcome) :
    Files × Except ServerError Unit :=
  match getFilePath config with
  | .ok filePath => soul.save archive filePath files outcome
  | .error e => (files, .error e)

/-! ### What a start finds -/

/-- Both steps of the decoding. -/
def Archive.decode (bytes : Bytes) : Option Soul := (archive.access bytes).bind archive.deserialize

/-- The encoding of the store decodes to it, and no proper part from its start decodes.  The second
half is what is granted for writes that break off; saves that succeed do without it
(`loadSnapshot_success`). -/
structure Archive.Faithful (s : Soul) : Prop where
  decodes : archive.decode (archive.toBytes s) = some s
  torn : ∀ n < (archive.toBytes s).length, archive.decode ((archive.toBytes s).take n) = none

/-- The write breaks off before the last byte. -/
def SaveOutcome.Torn (s : Soul) : SaveOutcome → Prop
  | .write (.writeError written) => written < (archive.toBytes s).length
  | _ => False

/-- The store in the file after a save of `new` over a file with the store `old`. -/
def stored (old new : Soul) : SaveOutcome → Soul
  | .serializationError | .write .openError => old
  | .write (.writeError written) =>
      if written < (archive.toBytes new).length then Soul.new else new
  | .write .success => new

variable {archive} {dir dbfilename ipv4Address port ioThreads eventCapacity maxMemory
  appendOnly : Bytes}

theorem loadSnapshot_eq (files : Files) :
    loadSnapshot archive dir dbfilename files =
      ((files.get? (dbFilePath dir dbfilename)).bind archive.decode).getD Soul.new := by
  unfold loadSnapshot Archive.decode
  cases files.get? (dbFilePath dir dbfilename) with
  | none => rfl
  | some bytes =>
      simp only [Option.bind_some]
      cases archive.access bytes with
      | none => rfl
      | some archivedSoul =>
          simp only [Option.bind_some]
          cases archive.deserialize archivedSoul <;> rfl

theorem loadSnapshot_insert (files : Files) (bytes : Bytes) :
    loadSnapshot archive dir dbfilename (files.insert (dbFilePath dir dbfilename) bytes) =
      (archive.decode bytes).getD Soul.new := by
  rw [loadSnapshot_eq, Dict.get?_insert_self]
  rfl

/-- The temple saves to the file it loads from. -/
theorem getFilePath_initializeConfig :
    getFilePath (initializeConfig dir dbfilename ipv4Address port ioThreads eventCapacity maxMemory
      appendOnly) = .ok (dbFilePath dir dbfilename) := by
  have hdir : (initializeConfig dir dbfilename ipv4Address port ioThreads eventCapacity maxMemory
      appendOnly).lookup (ascii "dir") = some dir := by
    unfold initializeConfig
    repeat rw [AList.lookup_insert_ne (by decide)]
    exact AList.lookup_insert _
  have hname : (initializeConfig dir dbfilename ipv4Address port ioThreads eventCapacity maxMemory
      appendOnly).lookup (ascii "dbfilename") = some dbfilename := by
    unfold initializeConfig
    repeat rw [AList.lookup_insert_ne (by decide)]
    exact AList.lookup_insert _
  unfold getFilePath
  rw [hdir, hname]
  rfl

/-- **What a start finds after a shutdown.** -/
theorem loadSnapshot_shutdown {new : Soul} (hnew : archive.Faithful new) (files : Files)
    (outcome : SaveOutcome) :
    loadSnapshot archive dir dbfilename
        (shutdown archive (initializeConfig dir dbfilename ipv4Address port ioThreads eventCapacity
          maxMemory appendOnly) new files outcome).1 =
      stored archive (loadSnapshot archive dir dbfilename files) new outcome := by
  unfold shutdown
  rw [getFilePath_initializeConfig]
  rcases outcome with _ | _ | written | _
  · rfl
  · rfl
  · simp only [Soul.save, fsWrite, stored, loadSnapshot_insert]
    split_ifs with htorn
    · rw [hnew.torn written htorn]
      rfl
    · rw [List.take_of_length_le (Nat.le_of_not_lt htorn), hnew.decodes]
      rfl
  · simp only [Soul.save, fsWrite, stored, loadSnapshot_insert, hnew.decodes]
    rfl

/-- What a start finds after a save that succeeds: here it is enough that the encoding decodes. -/
theorem loadSnapshot_success {new : Soul} (hnew : archive.decode (archive.toBytes new) = some new)
    (files : Files) :
    loadSnapshot archive dir dbfilename
        (shutdown archive (initializeConfig dir dbfilename ipv4Address port ioThreads eventCapacity
          maxMemory appendOnly) new files (.write .success)).1 = new := by
  unfold shutdown
  rw [getFilePath_initializeConfig]
  simp only [Soul.save, fsWrite, loadSnapshot_insert, hnew]
  rfl

/-- **The old or the new store survives a save if and only if** the write does not break off or one
of the two is empty. -/
theorem survives_iff {old new : Soul} (hold : archive.Faithful old) (hnew : archive.Faithful new)
    {files : Files} (hfile : files.get? (dbFilePath dir dbfilename) = some (archive.toBytes old))
    (outcome : SaveOutcome) :
    let config := initializeConfig dir dbfilename ipv4Address port ioThreads eventCapacity maxMemory
      appendOnly
    let loaded := loadSnapshot archive dir dbfilename
      (shutdown archive config new files outcome).1
    (loaded = old ∨ loaded = new) ↔
      ¬ outcome.Torn archive new ∨ old = Soul.new ∨ new = Soul.new := by
  have hloaded : loadSnapshot archive dir dbfilename files = old := by
    rw [loadSnapshot_eq, hfile, Option.bind_some, hold.decodes]
    rfl
  dsimp only
  rw [loadSnapshot_shutdown hnew, hloaded]
  rcases outcome with _ | _ | written | _
  · exact iff_of_true (Or.inl rfl) (Or.inl id)
  · exact iff_of_true (Or.inl rfl) (Or.inl id)
  · simp only [stored, SaveOutcome.Torn]
    split_ifs with htorn
    · rw [eq_comm, eq_comm (b := new)]
      exact (or_iff_right (not_not_intro htorn)).symm
    · exact iff_of_true (Or.inr rfl) (Or.inl htorn)
  · exact iff_of_true (Or.inr rfl) (Or.inl id)

/-! ### Runs of the server -/

/-- A write that does not break off leaves the old store or the new one. -/
theorem stored_of_not_torn {old new : Soul} {outcome : SaveOutcome}
    (h : ¬ outcome.Torn archive new) :
    stored archive old new outcome = old ∨ stored archive old new outcome = new := by
  rcases outcome with _ | _ | written | _
  · exact Or.inl rfl
  · exact Or.inl rfl
  · exact Or.inr (if_neg h)
  · exact Or.inr rfl

/-- The files after one shutdown after the other. -/
def shutdowns (archive : Archive Archived) (config : Config) :
    Files → List (Soul × SaveOutcome) → Files
  | files, [] => files
  | files, (soul, outcome) :: rest =>
      shutdowns archive config (shutdown archive config soul files outcome).1 rest

/-- **As long as no write breaks off**, a start finds a store that an earlier shutdown saved, or the
one from before. -/
theorem loadSnapshot_shutdowns {sessions : List (Soul × SaveOutcome)}
    (hfaithful : ∀ session ∈ sessions, archive.Faithful session.1)
    (htorn : ∀ session ∈ sessions, ¬ session.2.Torn archive session.1) (files : Files) :
    let config := initializeConfig dir dbfilename ipv4Address port ioThreads eventCapacity maxMemory
      appendOnly
    let loaded := loadSnapshot archive dir dbfilename (shutdowns archive config files sessions)
    loaded = loadSnapshot archive dir dbfilename files ∨
      ∃ session ∈ sessions, loaded = session.1 := by
  dsimp only
  induction sessions generalizing files with
  | nil => exact Or.inl rfl
  | cons session rest ih =>
      obtain ⟨new, outcome⟩ := session
      rw [List.forall_mem_cons] at hfaithful htorn
      rw [shutdowns]
      rcases ih hfaithful.2 htorn.2 _ with hsame | ⟨session, hmem, hsession⟩
      · rw [loadSnapshot_shutdown hfaithful.1] at hsame
        rcases stored_of_not_torn htorn.1 with hold | hnew
        · exact Or.inl (hsame.trans hold)
        · exact Or.inr ⟨_, List.mem_cons_self, hsame.trans hnew⟩
      · exact Or.inr ⟨session, List.mem_cons_of_mem _ hmem, hsession⟩

/-! ### A write that breaks off -/

/-- Two stores and an encoding of them. -/
def storeA : Soul := Soul.new.set (ascii "a") (.string (ascii "1"), none)

def storeB : Soul := Soul.new.set (ascii "b") (.string (ascii "2"), none)

def archiveAB : Archive Soul where
  toBytes s := if (s.get? (ascii "a")).isSome then [1, 1] else [2, 2]
  access bytes :=
    if bytes = [1, 1] then some storeA else if bytes = [2, 2] then some storeB else none
  deserialize := some

theorem archiveAB_faithful {s : Soul} (h : s = storeA ∨ s = storeB) : archiveAB.Faithful s := by
  rcases h with rfl | rfl
  all_goals
    refine ⟨rfl, ?_⟩
    intro n hn
    change n < 2 at hn
    interval_cases n
    · rfl
    · rfl

/-- A save that succeeds over an older snapshot. -/
theorem survives_iff_success :
    let config := initializeConfig (ascii "d") (ascii "f") [] [] [] [] [] []
    let files := Dict.empty.insert (ascii "d/f") (archiveAB.toBytes storeA)
    let loaded := loadSnapshot archiveAB (ascii "d") (ascii "f")
      (shutdown archiveAB config storeB files (.write .success)).1
    (loaded = storeA ∨ loaded = storeB) ↔
      ¬ SaveOutcome.Torn archiveAB storeB (.write .success) ∨ storeA = Soul.new ∨
        storeB = Soul.new :=
  survives_iff (archiveAB_faithful (Or.inl rfl)) (archiveAB_faithful (Or.inr rfl))
    (Dict.get?_insert_self _ _ _) _

/-- A write that fails after one byte leaves an empty database. -/
theorem failed_save_destroys_snapshot :
    ¬ ∀ (archive : Archive Soul) (dir dbfilename : Bytes) (old new : Soul) (files : Files)
      (outcome : SaveOutcome), archive.Faithful old → archive.Faithful new →
        files.get? (dbFilePath dir dbfilename) = some (archive.toBytes old) →
          let config := initializeConfig dir dbfilename [] [] [] [] [] []
          let loaded := loadSnapshot archive dir dbfilename
            (shutdown archive config new files outcome).1
          loaded = old ∨ loaded = new := by
  intro h
  have hB := archiveAB_faithful (Or.inr rfl)
  have hsurvives := h archiveAB (ascii "d") (ascii "f") storeA storeB
    (Dict.empty.insert (ascii "d/f") (archiveAB.toBytes storeA)) (.write (.writeError 1))
    (archiveAB_faithful (Or.inl rfl)) hB (Dict.get?_insert_self _ _ _)
  dsimp only at hsurvives
  rw [loadSnapshot_shutdown hB] at hsurvives
  have hempty : ∀ old, stored archiveAB old storeB (.write (.writeError 1)) = Soul.new :=
    fun _ => rfl
  rw [hempty] at hsurvives
  rcases hsurvives with hA | hB
  · exact absurd (congrArg (fun s => (Dict.get? s (ascii "a")).isSome) hA) (by decide)
  · exact absurd (congrArg (fun s => (Dict.get? s (ascii "b")).isSome) hB) (by decide)

end snapshot
end Heaven
