import BeauPi.Monitor.LogReader
import BeauPi.Machine.Runs
import Mathlib.Logic.Function.Basic

/-!
# Several consumers of one log

The monitor tools, the background tasks and the remote terminals read the log of a monitor
through `MonitorRuntime.logs`, each with a cursor of its own and some of them in full.  The
reader suspends while the file is read, so that reads overlap.

* `LogSystem`, `Event`, `step` — the growing log, what the reader and the record of the
  monitor remember, the consumers, and the reads that are under way.
* `ExactAt` — a step that ends an incremental read ends it exactly, and its consumer has
  then received every character once.
* `FitsAt` — the cursor of an incremental read that ends fits what was remembered when the
  read began.
* `reads_exact_iff_fits` — **along every run the reads are exact if their cursors fit and,
  unless hashes collide, only then**.
-/

namespace BeauPi.Monitor.Logs

open Machine List

/-! ## The system -/

/-- The fields of a monitor's record that concern its log. -/
structure LogRecord where
  logCursor : Nat
  logHash : Option String
  logPrefixHash : Option String
  deriving DecidableEq, Repr

/-- How far a read has come. -/
inductive ReadPhase
  | started
  | loaded (file : Text)
  | finished
  deriving DecidableEq, Repr

/-- A call of `logs`: the consumer that made it, if it is an incremental one, what `read`
was asked and what it found remembered. -/
structure LogRead where
  consumer : Option Nat
  options : ReadOptions
  previous : LogCursorState
  phase : ReadPhase
  deriving DecidableEq, Repr

/-- A consumer passes the cursor that its last incremental read returned. -/
structure Consumer where
  cursor : Nat
  results : List ReadResult
  reading : Bool
  deriving DecidableEq, Repr

/-- Everything the consumer was given. -/
def Consumer.received (consumer : Consumer) : Text := consumer.results.flatMap (·.content)

/-- A monitor with a log file. -/
structure LogSystem where
  log : Text
  identity : Nat × Nat
  cached : Option LogCursorState
  record : LogRecord
  consumers : Nat → Consumer
  reads : List LogRead

/-- What can happen next. -/
inductive Event
  /-- text is appended to the file -/
  | append (text : Text)
  /-- a consumer calls `logs` with its cursor -/
  | incremental (consumer : Nat)
  /-- somebody calls `logs` in mode `full` -/
  | full (cursor : Option ℚ)
  /-- `readFile` resolves -/
  | load (read : Nat)
  /-- `stat` settles, and `logs` runs to its end -/
  | finish (read : Nat) (statted : Bool)
  deriving DecidableEq, Repr

/-- A monitor that was just attached to a file. -/
def LogSystem.initial (log : Text) (identity : Nat × Nat) : LogSystem where
  log := log
  identity := identity
  cached := none
  record := ⟨0, none, none⟩
  consumers := fun _ => ⟨0, [], false⟩
  reads := []

/-- The options `MonitorRuntime.logs` passes to the reader. -/
def logsOptions (record : LogRecord) (cursor : Option ℚ) (mode : LogMode) : ReadOptions where
  cursor := some (cursor.getD record.logCursor)
  hash := record.logHash
  prefixHash := record.logPrefixHash
  mode := mode

/-- What `MonitorRuntime.logs` writes into the record. -/
def logsRecord (record : LogRecord) (mode : LogMode) (result : ReadResult) : LogRecord :=
  if mode ≠ .full then ⟨result.cursor, some result.hash, some result.prefixHash⟩ else record

/-- `logs` up to the suspension in `readFile`. -/
def LogSystem.begin (s : LogSystem) (consumer : Option Nat) (cursor : Option ℚ) (mode : LogMode) :
    LogSystem :=
  let options := logsOptions s.record cursor mode
  { s with reads := s.reads ++ [⟨consumer, options, previousState s.cached options, .started⟩] }

/-- The consumer waits for a result. -/
def Consumer.await (consumer : Consumer) : Consumer := { consumer with reading := true }

/-- The consumer gets a result. -/
def Consumer.receive (consumer : Consumer) (result : ReadResult) : Consumer :=
  ⟨result.cursor, consumer.results ++ [result], false⟩

theorem Consumer.received_receive (consumer : Consumer) (result : ReadResult) :
    (consumer.receive result).received = consumer.received ++ result.content := by
  simp [Consumer.received, Consumer.receive]

variable (hashText : Text → String)

/-- `logs` after the file was read. -/
def LogSystem.finish (s : LogSystem) (index : Nat) (read : LogRead) (file : Text)
    (statted : Bool) : LogSystem :=
  let (result, next) := readFile hashText read.options read.previous file
    (if statted then some s.identity else none)
  { s with
    cached := some next
    record := logsRecord s.record read.options.mode result
    consumers := match read.consumer with
      | some consumer =>
        Function.update s.consumers consumer ((s.consumers consumer).receive result)
      | none => s.consumers
    reads := s.reads.set index { read with phase := .finished } }

/-- One step; `none` if the event cannot happen.  A consumer reads again only after its
last read has returned. -/
def step (s : LogSystem) : Event → Option LogSystem
  | .append text => some { s with log := s.log ++ text }
  | .incremental consumer =>
    let state := s.consumers consumer
    if state.reading then none
    else some (LogSystem.begin
      { s with consumers := Function.update s.consumers consumer state.await }
      (some consumer) (some (state.cursor : ℚ)) .incremental)
  | .full cursor => some (s.begin none cursor .full)
  | .load index =>
    match s.reads[index]? with
    | some read =>
      if read.phase = .started then
        some { s with reads := s.reads.set index { read with phase := .loaded s.log } }
      else none
    | none => none
  | .finish index statted =>
    match s.reads[index]? with
    | some read =>
      match read.phase with
      | .loaded file => some (s.finish hashText index read file statted)
      | _ => none
    | none => none

/-! ## What is promised -/

/-- The incremental read that an event ends: its consumer, and the file it found. -/
def ending (s : LogSystem) : Event → Option (Nat × LogRead × Text)
  | .finish index _ =>
    match s.reads[index]? with
    | some read =>
      match read.consumer, read.phase with
      | some consumer, .loaded file => some (consumer, read, file)
      | _, _ => none
    | none => none
  | _ => none

/-- A step that ends an incremental read gives its consumer exactly the text between its
cursor and the end of the file, and thereby every character of the file once. -/
def ExactAt (s : LogSystem) (event : Event) (t : LogSystem) : Prop :=
  ∀ consumer read file, ending s event = some (consumer, read, file) →
    ∃ result, (t.consumers consumer).results = (s.consumers consumer).results ++ [result] ∧
      ExactRead (s.consumers consumer).cursor file result ∧
      (t.consumers consumer).cursor = result.cursor ∧ (t.consumers consumer).received = file

/-- The cursor of the incremental read that ends fits what was remembered when the read
began. -/
def FitsAt (s : LogSystem) (event : Event) (_ : LogSystem) : Prop :=
  match ending s event with
  | some (consumer, read, file) =>
    Fits hashText (s.consumers consumer).cursor read.previous file
  | none => True

instance (s : LogSystem) (event : Event) (t : LogSystem) : Decidable (FitsAt hashText s event t) :=
  match h : ending s event with
  | some (consumer, read, file) =>
    decidable_of_iff (Fits hashText (s.consumers consumer).cursor read.previous file)
      (by unfold FitsAt; rw [h])
  | none => isTrue (by unfold FitsAt; rw [h]; trivial)

/-! ## The invariant -/

/-- The content of the file as a read sees it, or would see it now. -/
def LogRead.file (read : LogRead) (log : Text) : Text :=
  match read.phase with
  | .loaded file => file
  | _ => log

/-- An incremental read that is under way. -/
structure UnderWay (s : LogSystem) (read : LogRead) (consumer : Nat) : Prop where
  options : ∃ hash ph, read.options = incremental (s.consumers consumer).cursor hash ph
  starts : StartsFrom hashText s.identity (s.consumers consumer).cursor read.previous
    (read.file s.log)
  cursor_le : (s.consumers consumer).cursor ≤ (read.file s.log).length
  reading : (s.consumers consumer).reading = true

/-- What holds of the log, of what is remembered of it and of the reads under way. -/
structure LogInvariant (s : LogSystem) : Prop where
  cached : ∀ state, s.cached = some state → Remembers hashText s.identity state s.log
  record : s.cached = none → s.record.logHash = none ∧ s.record.logPrefixHash = none
  cursor_le : ∀ consumer, (s.consumers consumer).cursor ≤ s.log.length
  loaded : ∀ (index : Nat) (read : LogRead), s.reads[index]? = some read →
    read.file s.log <+: s.log
  underWay : ∀ (index : Nat) (read : LogRead) consumer, s.reads[index]? = some read →
    read.phase ≠ .finished → read.consumer = some consumer → UnderWay hashText s read consumer
  /-- a consumer has one read under way at most -/
  single : ∀ (i j : Nat) (read other : LogRead) consumer, s.reads[i]? = some read → s.reads[j]? =
    some other →
    read.phase ≠ .finished → other.phase ≠ .finished → read.consumer = some consumer →
    other.consumer = some consumer → i = j

variable {hashText} {s t : LogSystem}

theorem initial_invariant (log : Text) (identity : Nat × Nat) :
    LogInvariant hashText (.initial log identity) where
  cached := by intro state h; cases h
  record := fun _ => ⟨rfl, rfl⟩
  cursor_le := fun _ => Nat.zero_le _
  loaded := by intro index read h; simp [LogSystem.initial] at h
  underWay := by intro index read consumer h; simp [LogSystem.initial] at h
  single := by intro i j read other consumer h; simp [LogSystem.initial] at h

theorem LogRead.file_mono (read : LogRead) {log more : Text} (h : log <+: more) :
    read.file log <+: read.file more := by
  cases hphase : read.phase with
  | started | finished => simpa [LogRead.file, hphase] using h
  | loaded file => simp [LogRead.file, hphase]

variable {read : LogRead} {consumer : Nat}

/-- A read goes on while the log grows and other consumers get their results. -/
theorem UnderWay.mono (h : UnderWay hashText s read consumer) (hidentity : t.identity = s.identity)
    (hlog : s.log <+: t.log) (hconsumer : t.consumers consumer = s.consumers consumer) :
    UnderWay hashText t read consumer where
  options := by rw [hconsumer]; exact h.options
  starts := by
    rw [hconsumer, hidentity]
    exact h.starts.mono (read.file_mono hlog)
  cursor_le := by
    rw [hconsumer]
    exact h.cursor_le.trans (read.file_mono hlog).length_le
  reading := by rw [hconsumer]; exact h.reading

/-! ## The steps -/

variable (h : LogInvariant hashText s)

include h in
theorem append_invariant (text : Text) :
    LogInvariant hashText { s with log := s.log ++ text } where
  cached := fun state hstate => (h.cached state hstate).mono (prefix_append _ _)
  record := h.record
  cursor_le := by
    intro consumer
    have hle := h.cursor_le consumer
    show (s.consumers consumer).cursor ≤ (s.log ++ text).length
    rw [length_append]
    omega
  loaded := by
    intro index read hread
    have hold := h.loaded index read hread
    cases hphase : read.phase with
    | loaded file =>
      simp only [LogRead.file, hphase] at hold ⊢
      exact hold.trans (prefix_append _ _)
    | started | finished => simp [LogRead.file, hphase]
  underWay := by
    intro index read consumer hread hphase hconsumer
    exact (h.underWay index read consumer hread hphase hconsumer).mono rfl
      (prefix_append _ _) rfl
  single := h.single

include h in
/-- What a new read finds remembered. -/
theorem previousState_starts (cursor : Nat) :
    StartsFrom hashText s.identity cursor
      (previousState s.cached (logsOptions s.record (some (cursor : ℚ)) .incremental)) s.log := by
  cases hcached : s.cached with
  | some state => exact .inr (h.cached state hcached)
  | none =>
    left
    obtain ⟨hhash, hinitial⟩ := h.record hcached
    simp [previousState, logsOptions, hhash, hinitial]

variable {index : Nat}

/-- The reads after one more was started. -/
theorem getElem?_snoc {reads : List LogRead} {new : LogRead}
    (h : (reads ++ [new])[index]? = some read) :
    reads[index]? = some read ∨ (index = reads.length ∧ read = new) := by
  rw [getElem?_append] at h
  by_cases hlt : index < reads.length
  · rw [if_pos hlt] at h
    exact .inl h
  · rw [if_neg hlt, getElem?_singleton] at h
    split at h
    · cases h
      exact .inr ⟨by omega, rfl⟩
    · cases h

include h in
theorem full_invariant (cursor : Option ℚ) :
    LogInvariant hashText (s.begin none cursor .full) where
  cached := h.cached
  record := h.record
  cursor_le := h.cursor_le
  loaded := by
    intro index read hread
    rcases getElem?_snoc hread with hold | ⟨-, rfl⟩
    · exact h.loaded index read hold
    · exact prefix_refl _
  underWay := by
    intro index read consumer hread hphase hconsumer
    rcases getElem?_snoc hread with hold | ⟨-, rfl⟩
    · exact (h.underWay index read consumer hold hphase hconsumer).mono rfl
        (prefix_refl _) rfl
    · cases hconsumer
  single := by
    intro i j read other consumer hi hj hphase hphase' hconsumer hconsumer'
    rcases getElem?_snoc hi with hi | ⟨-, rfl⟩
    · rcases getElem?_snoc hj with hj | ⟨-, rfl⟩
      · exact h.single i j read other consumer hi hj hphase hphase' hconsumer hconsumer'
      · cases hconsumer'
    · cases hconsumer

include h in
theorem incremental_invariant
    (hidle : ¬(s.consumers consumer).reading = true) :
    LogInvariant hashText (LogSystem.begin
      { s with consumers := Function.update s.consumers consumer (s.consumers consumer).await }
      (some consumer) (some ((s.consumers consumer).cursor : ℚ)) .incremental) := by
  -- the reads that are under way belong to other consumers
  have hothers : ∀ (index : Nat) (read : LogRead) other, s.reads[index]? = some read →
      read.phase ≠ .finished → read.consumer = some other → other ≠ consumer := by
    rintro index read other hread hphase hother rfl
    exact hidle (h.underWay index read other hread hphase hother).reading
  exact {
    cached := h.cached
    record := h.record
    cursor_le := by
      intro other
      by_cases heq : other = consumer
      · subst heq
        simpa [LogSystem.begin, Consumer.await] using h.cursor_le other
      · simpa [LogSystem.begin, heq] using h.cursor_le other
    loaded := by
      intro index read hread
      rcases getElem?_snoc hread with hold | ⟨-, rfl⟩
      · exact h.loaded index read hold
      · exact prefix_refl _
    underWay := by
      intro index read other hread hphase hother
      rcases getElem?_snoc hread with hold | ⟨-, rfl⟩
      · have hne := hothers index read other hold hphase hother
        exact (h.underWay index read other hold hphase hother).mono rfl (prefix_refl _)
          (Function.update_of_ne hne _ _)
      · cases hother
        refine ⟨⟨s.record.logHash, s.record.logPrefixHash, ?_⟩, ?_, ?_, ?_⟩
        · simp [LogSystem.begin, logsOptions, incremental, Consumer.await]
        · simpa [LogSystem.begin, LogRead.file, Consumer.await] using previousState_starts h _
        · simpa [LogSystem.begin, LogRead.file, Consumer.await] using h.cursor_le consumer
        · simp [LogSystem.begin, Consumer.await]
    single := by
      intro i j read other third hi hj hphase hphase' hconsumer hconsumer'
      rcases getElem?_snoc hi with hold | ⟨hnew, rfl⟩
      · rcases getElem?_snoc hj with hold' | ⟨-, rfl⟩
        · exact h.single i j read other third hold hold' hphase hphase' hconsumer hconsumer'
        · exact absurd (Option.some.inj hconsumer').symm
            (hothers i read third hold hphase hconsumer)
      · rcases getElem?_snoc hj with hold' | ⟨hnew', -⟩
        · exact absurd (Option.some.inj hconsumer).symm
            (hothers j other third hold' hphase' hconsumer')
        · exact hnew.trans hnew'.symm }

/-- The reads after one of them went on. -/
theorem getElem?_replace {reads : List LogRead} {new : LogRead} {other : Nat}
    (h : (reads.set index new)[other]? = some read) :
    (other ≠ index ∧ reads[other]? = some read) ∨ (other = index ∧ read = new) := by
  rw [getElem?_set] at h
  by_cases heq : index = other
  · rw [if_pos heq] at h
    split at h
    · cases h
      exact .inr ⟨heq.symm, rfl⟩
    · cases h
  · rw [if_neg heq] at h
    exact .inl ⟨Ne.symm heq, h⟩

include h in
theorem load_invariant (hread : s.reads[index]? = some read)
    (hphase : read.phase = .started) :
    LogInvariant hashText
      { s with reads := s.reads.set index { read with phase := .loaded s.log } } where
  cached := h.cached
  record := h.record
  cursor_le := h.cursor_le
  loaded := by
    intro i other hother
    rcases getElem?_replace hother with ⟨-, hold⟩ | ⟨-, rfl⟩
    · exact h.loaded i other hold
    · exact prefix_refl _
  underWay := by
    intro i other consumer hother hunfinished hconsumer
    rcases getElem?_replace hother with ⟨-, hold⟩ | ⟨-, rfl⟩
    · exact (h.underWay i other consumer hold hunfinished hconsumer).mono rfl
        (prefix_refl _) rfl
    · have hold := h.underWay index read consumer hread (by simp [hphase]) hconsumer
      -- the read sees the log as it is now
      have hfile : read.file s.log = s.log := by simp [LogRead.file, hphase]
      have hstarts := hold.starts
      have hle := hold.cursor_le
      rw [hfile] at hstarts hle
      exact ⟨hold.options, hstarts, hle, hold.reading⟩
  single := by
    intro i j one other consumer hi hj hone hother hconsumer hconsumer'
    rcases getElem?_replace hi with ⟨-, hold⟩ | ⟨rfl, rfl⟩
    · rcases getElem?_replace hj with ⟨-, hold'⟩ | ⟨rfl, rfl⟩
      · exact h.single i j one other consumer hold hold' hone hother hconsumer hconsumer'
      · exact h.single i j one read consumer hold hread hone (by simp [hphase]) hconsumer
          hconsumer'
    · rcases getElem?_replace hj with ⟨-, hold'⟩ | ⟨rfl, -⟩
      · exact h.single i j read other consumer hread hold' (by simp [hphase]) hother hconsumer
          hconsumer'
      · rfl

/-- The consumers after a read has ended. -/
theorem finish_consumers (s : LogSystem) (index : Nat) (read : LogRead) (file : Text)
    (statted : Bool) (consumer : Nat) :
    (read.consumer ≠ some consumer ∧
      (s.finish hashText index read file statted).consumers consumer = s.consumers consumer) ∨
    (read.consumer = some consumer ∧
      (s.finish hashText index read file statted).consumers consumer =
        (s.consumers consumer).receive (readFile hashText read.options read.previous file
          (if statted then some s.identity else none)).1) := by
  cases hconsumer : read.consumer with
  | none => exact .inl ⟨by simp, by simp [LogSystem.finish, hconsumer]⟩
  | some reader =>
    by_cases heq : reader = consumer
    · subst heq
      exact .inr ⟨rfl, by simp [LogSystem.finish, hconsumer]⟩
    · refine .inl ⟨by simpa using heq, ?_⟩
      simp [LogSystem.finish, hconsumer, Function.update_of_ne (Ne.symm heq)]

variable {file : Text}

include h in
theorem finish_invariant (hread : s.reads[index]? = some read)
    (hphase : read.phase = .loaded file) (statted : Bool) :
    LogInvariant hashText (s.finish hashText index read file statted) := by
  have hfile : file <+: s.log := by simpa [LogRead.file, hphase] using h.loaded index read hread
  have hstat : (if statted then some s.identity else none) = none ∨
      (if statted then some s.identity else none) = some s.identity := by
    cases statted <;> simp
  exact {
    cached := by
      intro state hstate
      cases hstate
      exact (readFile_remembers read.options read.previous file hstat).mono hfile
    record := by intro hnone; cases hnone
    cursor_le := by
      intro consumer
      rcases finish_consumers s index read file statted consumer with ⟨-, hsame⟩ | ⟨-, hnew⟩
      · rw [hsame]
        exact h.cursor_le consumer
      · rw [hnew]
        exact (readFile_cursor_le _ _ _ _).trans hfile.length_le
    loaded := by
      intro i other hother
      rcases getElem?_replace hother with ⟨-, hold⟩ | ⟨-, rfl⟩
      · exact h.loaded i other hold
      · exact prefix_refl _
    underWay := by
      intro i other consumer hother hunfinished hconsumer
      rcases getElem?_replace hother with ⟨hne, hold⟩ | ⟨-, rfl⟩
      · refine (h.underWay i other consumer hold hunfinished hconsumer).mono rfl
          (prefix_refl _) ?_
        rcases finish_consumers s index read file statted consumer with ⟨-, hsame⟩ | ⟨hreader, -⟩
        · exact hsame
        · -- the reader has no other read under way
          exact absurd (h.single i index other read consumer hold hread hunfinished
            (by simp [hphase]) hconsumer hreader) hne
      · exact absurd rfl hunfinished
    single := by
      intro i j one other consumer hi hj hone hother hconsumer hconsumer'
      rcases getElem?_replace hi with ⟨-, hold⟩ | ⟨-, rfl⟩
      · rcases getElem?_replace hj with ⟨-, hold'⟩ | ⟨-, rfl⟩
        · exact h.single i j one other consumer hold hold' hone hother hconsumer hconsumer'
        · exact absurd rfl hother
      · exact absurd rfl hone }

variable {event : Event}

/-- **Everything a step can do.** -/
theorem step_cases (hstep : step hashText s event = some t) :
    (∃ text, event = .append text ∧ t = { s with log := s.log ++ text }) ∨
    (∃ consumer, event = .incremental consumer ∧ ¬(s.consumers consumer).reading = true ∧
      t = LogSystem.begin
        { s with consumers := Function.update s.consumers consumer (s.consumers consumer).await }
        (some consumer) (some ((s.consumers consumer).cursor : ℚ)) .incremental) ∨
    (∃ cursor, event = .full cursor ∧ t = s.begin none cursor .full) ∨
    (∃ index read, event = .load index ∧ s.reads[index]? = some read ∧ read.phase = .started ∧
      t = { s with reads := s.reads.set index { read with phase := .loaded s.log } }) ∨
    (∃ index read file statted, event = .finish index statted ∧ s.reads[index]? = some read ∧
      read.phase = .loaded file ∧ t = s.finish hashText index read file statted) := by
  cases event with
  | append text => cases hstep; exact .inl ⟨text, rfl, rfl⟩
  | incremental consumer =>
    simp only [step] at hstep
    split at hstep
    · cases hstep
    · rename_i hidle
      cases hstep
      exact .inr (.inl ⟨consumer, rfl, hidle, rfl⟩)
  | full cursor => cases hstep; exact .inr (.inr (.inl ⟨cursor, rfl, rfl⟩))
  | load index =>
    simp only [step] at hstep
    split at hstep
    · rename_i read hread
      split at hstep
      · rename_i hphase
        cases hstep
        exact .inr (.inr (.inr (.inl ⟨index, read, rfl, hread, hphase, rfl⟩)))
      · cases hstep
    · cases hstep
  | finish index statted =>
    simp only [step] at hstep
    split at hstep
    · rename_i read hread
      split at hstep
      · rename_i file hphase
        cases hstep
        exact .inr (.inr (.inr (.inr ⟨index, read, file, statted, rfl, hread, hphase, rfl⟩)))
      · cases hstep
    · cases hstep

include h in
/-- Every step keeps the invariant. -/
theorem step_invariant (hstep : step hashText s event = some t) :
    LogInvariant hashText t := by
  obtain ⟨text, -, rfl⟩ | ⟨consumer, -, hidle, rfl⟩ | ⟨cursor, -, rfl⟩ |
    ⟨index, read, -, hread, hphase, rfl⟩ | ⟨index, read, file, statted, -, hread, hphase, rfl⟩ :=
      step_cases hstep
  · exact append_invariant h text
  · exact incremental_invariant h hidle
  · exact full_invariant h cursor
  · exact load_invariant h hread hphase
  · exact finish_invariant h hread hphase statted

/-! ## Exactness -/

/-- What it means that an event ends an incremental read. -/
theorem ending_spec (h : ending s event = some (consumer, read, file)) : ∃ index statted,
      event = .finish index statted ∧ s.reads[index]? = some read ∧
      read.consumer = some consumer ∧ read.phase = .loaded file := by
  cases event with
  | finish index statted =>
    simp only [ending] at h
    split at h
    · rename_i other hother
      split at h
      · rename_i reader content hreader hphase
        cases h
        exact ⟨index, statted, rfl, hother, hreader, hphase⟩
      · cases h
    · cases h
  | _ => cases h

include h in
/-- **The read that a step ends.**  It saw a prefix of the log from the consumer's cursor
on, and its result is what the consumer gets. -/
theorem step_ending (hstep : step hashText s event = some t)
    (hending : ending s event = some (consumer, read, file)) :
    file <+: s.log ∧ t.log = s.log ∧ ∃ hash ph stat,
      (stat = none ∨ stat = some s.identity) ∧
      StartsFrom hashText s.identity (s.consumers consumer).cursor read.previous file ∧
      (s.consumers consumer).cursor ≤ file.length ∧
      t.consumers consumer = (s.consumers consumer).receive
        (readFile hashText (incremental (s.consumers consumer).cursor hash ph) read.previous file
          stat).1 := by
  obtain ⟨index, statted, rfl, hread, hconsumer, hphase⟩ := ending_spec hending
  simp only [step, hread, hphase] at hstep
  cases hstep
  have hway := h.underWay index read consumer hread (by simp [hphase]) hconsumer
  have hfile : read.file s.log = file := by simp [LogRead.file, hphase]
  obtain ⟨hash, ph, hoptions⟩ := hway.options
  refine ⟨hfile ▸ h.loaded index read hread, rfl, hash, ph, if statted then some s.identity else none,
    ?_, hfile ▸ hway.starts, hfile ▸ hway.cursor_le, ?_⟩
  · cases statted <;> simp
  · rcases finish_consumers s index read file statted consumer with ⟨hne, -⟩ | ⟨-, hnew⟩
    · exact absurd hconsumer hne
    · rw [hnew, hoptions]

/-- A step gives nothing to the consumers whose read it does not end. -/
theorem step_others (hstep : step hashText s event = some t)
    (hother : ∀ read file, ending s event ≠ some (consumer, read, file)) :
    (t.consumers consumer).cursor = (s.consumers consumer).cursor ∧
      (t.consumers consumer).received = (s.consumers consumer).received := by
  obtain ⟨text, -, rfl⟩ | ⟨reader, -, -, rfl⟩ | ⟨cursor, -, rfl⟩ | ⟨index, read, -, -, -, rfl⟩ |
    ⟨index, read, file, statted, rfl, hread, hphase, rfl⟩ := step_cases hstep
  · exact ⟨rfl, rfl⟩
  · by_cases heq : consumer = reader
    · subst heq
      simp [LogSystem.begin, Consumer.await, Consumer.received]
    · simp [LogSystem.begin, Function.update_of_ne heq]
  · exact ⟨rfl, rfl⟩
  · exact ⟨rfl, rfl⟩
  · rcases finish_consumers s index read file statted consumer with ⟨-, hsame⟩ | ⟨hreader, -⟩
    · rw [hsame]
      exact ⟨rfl, rfl⟩
    · exact absurd (by simp [ending, hread, hreader, hphase]) (hother read file)

/-- The log only grows. -/
theorem step_log (hstep : step hashText s event = some t) : s.log <+: t.log := by
  obtain ⟨text, -, rfl⟩ | ⟨reader, -, -, rfl⟩ | ⟨cursor, -, rfl⟩ | ⟨index, read, -, -, -, rfl⟩ |
    ⟨index, read, file, statted, -, -, -, rfl⟩ := step_cases hstep
  · exact prefix_append _ _
  · exact prefix_refl _
  · exact prefix_refl _
  · exact prefix_refl _
  · exact prefix_refl _

/-- Every consumer has received the text before its cursor. -/
def Received (s : LogSystem) : Prop :=
  ∀ consumer, (s.consumers consumer).received =
    s.log.take (s.consumers consumer).cursor

theorem take_eq_take {log : Text} (h : file <+: log) (cursor : Nat) (hle : cursor ≤ file.length) :
    log.take cursor = file.take cursor := by
  obtain ⟨rest, rfl⟩ := h
  exact take_append_of_le_length hle

include h in
/-- A step whose cursor fits is exact. -/
theorem exactAt_of_fitsAt (hreceived : Received s)
    (hstep : step hashText s event = some t) (hfits : FitsAt hashText s event t) :
    ExactAt s event t := by
  intro consumer read file hending
  obtain ⟨hfile, -, hash, ph, stat, hstat, hstarts, hle, hnew⟩ := step_ending h hstep hending
  have hfits' : Fits hashText (s.consumers consumer).cursor read.previous file := by
    simpa [FitsAt, hending] using hfits
  have hexact := readFile_exact hash ph hstarts hle hstat hfits'
  refine ⟨_, by rw [hnew]; rfl, hexact, by rw [hnew]; rfl, ?_⟩
  rw [hnew, Consumer.received_receive, hreceived consumer, take_eq_take hfile _ hle,
    hexact.content, take_append_drop]

include h in
/-- After an exact step every consumer has received the text before its cursor. -/
theorem received_of_exactAt (hreceived : Received s)
    (hstep : step hashText s event = some t) (hexact : ExactAt s event t) : Received t := by
  intro consumer
  by_cases hending : ∃ read file, ending s event = some (consumer, read, file)
  · obtain ⟨read, file, hending⟩ := hending
    obtain ⟨result, -, hresult, hcursor, hall⟩ := hexact consumer read file hending
    obtain ⟨hfile, hlog, -⟩ := step_ending h hstep hending
    rw [hall, hcursor, hresult.cursor, hlog, take_eq_take hfile _ le_rfl, take_length]
  · obtain ⟨hcursor, hsame⟩ := step_others hstep fun read file hread => hending ⟨read, file, hread⟩
    rw [hsame, hreceived consumer, hcursor]
    exact (take_eq_take (step_log hstep) _ (h.cursor_le consumer)).symm

include h in
/-- An exact step has a cursor that fits. -/
theorem fitsAt_of_exactAt (hstep : step hashText s event = some t)
    (hcollision : NoCollision hashText t.log) (hexact : ExactAt s event t) :
    FitsAt hashText s event t := by
  cases hending : ending s event with
  | none => simp [FitsAt, hending]
  | some ended =>
    obtain ⟨consumer, read, file⟩ := ended
    obtain ⟨hfile, hlog, hash, ph, stat, hstat, hstarts, hle, hnew⟩ := step_ending h hstep hending
    obtain ⟨result, hresults, hresult, -⟩ := hexact consumer read file hending
    rw [hnew] at hresults
    have hsame : _ = result := singleton_inj.1 (append_cancel_left hresults)
    subst hsame
    have hfits := fits_of_exact hash ph ((hlog ▸ hcollision).mono hfile) hstarts hle hstat hresult
    simpa [FitsAt, hending] using hfits

/-- **Incremental reads are exact exactly where their cursors fit.**  In every run, with
any number of consumers and with full reads in between, all incremental reads are exact if
their cursors fit; unless two texts of the run have the same hash, they are exact only
then. -/
theorem reads_exact_iff_fits (hashText : Text → String) (log : Text) (identity : Nat × Nat)
    (events : List Event) :
    (Along (step hashText) (FitsAt hashText) (.initial log identity) events →
      Along (step hashText) ExactAt (.initial log identity) events) ∧
    (Along (step hashText) (fun _ _ t => NoCollision hashText t.log) (.initial log identity)
        events →
      Along (step hashText) ExactAt (.initial log identity) events →
      Along (step hashText) (FitsAt hashText) (.initial log identity) events) := by
  have hstart : LogInvariant hashText (.initial log identity) := initial_invariant log identity
  refine ⟨?_, ?_⟩
  · have hnothing : Received (.initial log identity) := fun _ => by
      simp [LogSystem.initial, Consumer.received]
    refine along_of_invariant (I := fun s => LogInvariant hashText s ∧ Received s) ?_ events _
      ⟨hstart, hnothing⟩
    intro s event t hs hstep hfits
    have hexact := exactAt_of_fitsAt hs.1 hs.2 hstep hfits
    exact ⟨hexact, step_invariant hs.1 hstep, received_of_exactAt hs.1 hs.2 hstep hexact⟩
  · intro hcollision hexact
    refine along_of_invariant (I := LogInvariant hashText) ?_ events _ hstart
      (along_and events _ hcollision hexact)
    intro s event t hs hstep hguard
    exact ⟨fitsAt_of_exactAt hs hstep hguard.1 hguard.2, step_invariant hs hstep⟩

/-! ## Two consumers -/

/-- A hash without collisions: the code units themselves. -/
def spell (text : Text) : String := String.ofList (text.map fun unit => Char.ofNat unit.toNat)

/-- A whole read of one consumer. -/
def wholeRead (consumer index : Nat) : List Event :=
  [.incremental consumer, .load index, .finish index true]

/-- Two consumers that take turns: each finds a cursor that is not its own. -/
def takingTurns : List Event :=
  [.append [97, 98]] ++ wholeRead 0 0 ++ [.append [99]] ++ wholeRead 1 1 ++ [.append [100]] ++
    wholeRead 0 2

/-- What the consumer whose read a step ends is told about a rotation. -/
def toldRotated (s : LogSystem) (event : Event) (t : LogSystem) : Option Bool :=
  (ending s event).bind fun ended => (t.consumers ended.1).results.getLast?.map (·.rotated)

theorem ExactAt.toldRotated (h : ExactAt s event t) :
    toldRotated s event t ≠ some true := by
  unfold Logs.toldRotated
  cases hending : ending s event with
  | none => simp
  | some ended =>
    obtain ⟨consumer, read, file⟩ := ended
    obtain ⟨result, hresults, hexact, -⟩ := h consumer read file hending
    simp [hresults, hexact.rotated]

/-- **The second consumer disturbs the first.**  The first one is given the whole log once
more, as if the file had been rotated. -/
theorem takingTurns_not_exact :
    (runFrom (step spell) (.initial [] (1, 1)) takingTurns).isSome ∧
      ¬Along (step spell) ExactAt (.initial [] (1, 1)) takingTurns := by
  refine ⟨by decide, ?_⟩
  intro hexact
  have htold : Along (step spell) (fun s event t => toldRotated s event t ≠ some true)
      (.initial [] (1, 1)) takingTurns :=
    along_of_invariant (I := fun _ => True) (fun _ _ _ _ _ h => ⟨h.toldRotated, trivial⟩) _ _
      trivial hexact
  exact absurd htold (by decide)

/-- One consumer, a full read before it starts and another while it reads. -/
def oneConsumer : List Event :=
  [.append [97, 98], .full none, .load 0, .finish 0 true, .append [99]] ++ wholeRead 0 1 ++
    [.append [100], .incremental 0, .load 2, .finish 2 false]

/-- The general result at a run whose cursors fit. -/
theorem reads_exact_iff_fits_oneConsumer :
    Along (step spell) (FitsAt spell) (.initial [] (1, 1)) oneConsumer ∧
      Along (step spell) ExactAt (.initial [] (1, 1)) oneConsumer := by
  have hfits : Along (step spell) (FitsAt spell) (.initial [] (1, 1)) oneConsumer := by
    decide
  exact ⟨hfits, (reads_exact_iff_fits spell [] (1, 1) oneConsumer).1 hfits⟩

end BeauPi.Monitor.Logs
