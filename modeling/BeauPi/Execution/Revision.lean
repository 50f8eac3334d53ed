import BeauPi.Execution.Lines

/-!
# Optimistic concurrency of the execution journal

`appendBatch` compares `expectedRevision` with a counter in memory, `inspect` counts the events of
the file.  The counter starts at zero whatever the file holds, and a write that is cut off does not
move it.

* `Tracked` — a journal with a flag that says whether the counter has caught up with the file.
* `load_append`, `load_repaired` — how many events a file holds after a write.
* `conflict_iff_of_caughtUp` — **a conflict is reported exactly when the revision differs**, as
  long as `expectedRevision` is used only while the flag is set.
* `fresh_counter_conflicts` — a file with one event, and a conflict on revision 1.
-/

namespace BeauPi.Execution

open Machine List

/-! ## Counting events -/

/-- The number of events a journal holds, if it can be read. -/
def Journal.eventCount (journal : Journal) : Option Nat :=
  match journal.load Disk.ok with
  | .ok loaded => some loaded.events.length
  | .error _ => none

variable {filePath : String}

theorem newline_not_mem_texts (events : List Json) :
    ∀ line ∈ events.map Json.text, '\n' ∉ line := by
  intro line hline
  obtain ⟨event, -, rfl⟩ := mem_map.1 hline
  exact Json.newline_not_mem_text event

/-- Events that are objects. -/
def Objects (events : List Json) : Prop := ∀ event ∈ events, ∃ fields, event = .obj fields

theorem objects_prepare (timestamp : String) (seq : Nat) (drafts : List Draft) :
    Objects (prepare timestamp seq drafts) := by
  induction drafts generalizing seq with
  | nil => intro event hevent; cases hevent
  | cons draft drafts ih =>
    intro event hevent
    rcases mem_cons.1 hevent with rfl | hevent
    · exact ⟨_, rfl⟩
    · exact ih (seq + 1) event hevent

theorem filter_texts {events : List Json} (h : Objects events) :
    ((events.map Json.text).filter fun line => !isBlank line) = events.map Json.text := by
  rw [filter_eq_self]
  intro line hline
  obtain ⟨event, hevent, rfl⟩ := mem_map.1 hline
  obtain ⟨fields, rfl⟩ := h event hevent
  have hblank := isBlank_append_object [] fields
  rw [nil_append] at hblank
  rw [hblank]
  rfl

/-- Events are appended to a file: if it can still be read, it holds these events more.  If the
last line of the file had no newline, the first new event ends up on that line, and a line that
was an event is one no more. -/
theorem load_append {content : List Char} {loaded loaded' : Loaded} {event : Json}
    {events : List Json} (hobjects : Objects (event :: events))
    (hload : parseJournalFile content filePath = .ok loaded) (htail : loaded.truncatedTail = false)
    (hload' : parseJournalFile (content ++ linesText (event :: events)) filePath = .ok loaded') :
    loaded'.events.length = loaded.events.length + (event :: events).length := by
  obtain ⟨lines, tail, rfl, hlines, hnewline⟩ := exists_lines content
  obtain ⟨fields, rfl⟩ := hobjects event mem_cons_self
  have hshape : unlines lines ++ tail ++ linesText (.obj fields :: events) =
      unlines (lines ++ (tail ++ (Json.obj fields).text) :: events.map Json.text) ++ [] := by
    simp [linesText_eq, unlines_append, unlines_cons]
  have hlines' : ∀ line ∈ lines ++ (tail ++ (Json.obj fields).text) :: events.map Json.text,
      '\n' ∉ line := by
    intro line hline
    rcases mem_append.1 hline with hline | hline
    · exact hlines line hline
    · rcases mem_cons.1 hline with rfl | hline
      · simp [hnewline, Json.newline_not_mem_text]
      · exact newline_not_mem_texts events line hline
  rw [hshape, parseJournalFile_eq hlines' (by simp)] at hload'
  rw [parseJournalFile_eq hlines hnewline] at hload
  cases hread : readLines filePath lines with
  | error e => simp [hread, bind, Except.bind] at hload
  | ok old =>
    simp only [hread, bind, Except.bind, Except.ok.injEq] at hload
    subst hload
    cases hread' : readLines filePath
        (lines ++ (tail ++ (Json.obj fields).text) :: events.map Json.text) with
    | error e => simp [hread', bind, Except.bind] at hload'
    | ok new =>
      simp only [hread', bind, Except.bind, Except.ok.injEq] at hload'
      subst hload'
      have hold := readLines_length hread
      have hnew := readLines_length hread'
      have hobjects' : Objects events :=
        fun event hevent => hobjects event (mem_cons_of_mem _ hevent)
      rw [filter_append, length_append, ← hold, filter_cons_of_pos,
        filter_texts hobjects'] at hnew
      · simp only [length_cons, length_map] at hnew
        have hblank : isBlank tail = true := by
          by_contra hblank
          simp only [readTail, if_neg hblank] at htail
          cases hevent : parseEventLine tail filePath with
          | error e => simp [hevent] at htail
          | ok event =>
            obtain ⟨e, herror⟩ := parseEventLine_run_together hevent fields
            obtain ⟨event', hok⟩ := parseEventLine_of_readLines hread'
              (mem_append_right _ mem_cons_self) (isBlank_append_object tail fields)
            rw [herror] at hok
            cases hok
        simp [readTail, hblank, isBlank_nil, hnew]
      · rw [isBlank_append_object]
        rfl

/-- A file that holds the lines of some events: if it can be read, it holds these events. -/
theorem load_repaired {events : List Json} {loaded : Loaded} (hobjects : Objects events)
    (hload : parseJournalFile (linesText events) filePath = .ok loaded) :
    loaded.events.length = events.length := by
  have hshape : linesText events = unlines (events.map Json.text) ++ [] := by
    rw [linesText_eq, append_nil]
  rw [hshape, parseJournalFile_eq (newline_not_mem_texts events) (by simp)] at hload
  cases hread : readLines filePath (events.map Json.text) with
  | error e => simp [hread, bind, Except.bind] at hload
  | ok read =>
    simp only [hread, bind, Except.bind, Except.ok.injEq] at hload
    subst hload
    have hlength := readLines_length hread
    rw [filter_texts hobjects, length_map] at hlength
    simp [readTail, isBlank_nil, hlength]

theorem objects_load {content : List Char} {loaded : Loaded}
    (h : parseJournalFile content filePath = .ok loaded) : Objects loaded.events := by
  obtain ⟨lines, tail, rfl, hlines, hnewline⟩ := exists_lines content
  rw [parseJournalFile_eq hlines hnewline] at h
  cases hread : readLines filePath lines with
  | error e => simp [hread, bind, Except.bind] at h
  | ok events =>
    simp only [hread, bind, Except.bind, Except.ok.injEq] at h
    subst h
    intro event hevent
    rcases mem_append.1 hevent with hevent | hevent
    · obtain ⟨line, hline⟩ := mem_readLines hread hevent
      exact (parseEventLine_obj hline).2
    · unfold readTail at hevent
      split_ifs at hevent with hblank
      · cases hevent
      · cases htail : parseEventLine tail filePath with
        | error e => simp [htail] at hevent
        | ok last =>
          simp only [htail, mem_singleton] at hevent
          subst hevent
          exact (parseEventLine_obj htail).2

/-! ## One operation -/

/-- The errors of `load` are no conflicts. -/
theorem parseLines_error_code {terminated : Bool} {lines : List (List Char)} {e : JournalError}
    (h : parseLines filePath terminated lines = .error e) : e.code = .invalidJournal := by
  induction lines with
  | nil => cases h
  | cons line rest ih =>
    rw [parseLines] at h
    split_ifs at h with hblank hlast
    · exact ih h
    · cases hevent : parseEventLine line filePath with
      | ok event => simp [hevent] at h
      | error e' => simp [hevent] at h
    · cases hevent : parseEventLine line filePath with
      | error e' =>
        simp only [hevent, bind, Except.bind, Except.error.injEq] at h
        subst h
        exact parseEventLine_error_code hevent
      | ok event =>
        cases hrest : parseLines filePath terminated rest with
        | error e' =>
          simp only [hevent, hrest, bind, Except.bind, Except.error.injEq] at h
          subst h
          exact ih hrest
        | ok loaded => simp [hevent, hrest, bind, Except.bind] at h

theorem load_error_code {journal : Journal} {disk : Disk} {e : JournalError}
    (h : journal.load disk = .error e) : e.code ≠ .revisionConflict := by
  unfold Journal.load at h
  cases hstorage : journal.storage with
  | memory events => simp [hstorage] at h
  | file filePath content =>
    simp only [hstorage, readTextFile] at h
    by_cases hreadable : disk.readable = true
    · simp only [hreadable, if_true, bind, Except.bind] at h
      cases content with
      | none => cases h
      | some content =>
        rw [parseLines_error_code h]
        decide
    · simp only [hreadable, bind, Except.bind] at h
      cases h
      simp

/-- The storage after a complete write. -/
def Storage.append (events : List Json) : Storage → Storage
  | .memory stored => .memory (stored ++ events)
  | .file filePath content => .file filePath (some (content.getD [] ++ linesText events))

/-- What a call of `appendBatch` can do. -/
inductive Appended (journal : Journal) (batch : Batch) (expectedRevision : Option ℚ) (disk : Disk) :
    Except JournalError AppendResult → Journal → Prop
  | conflict {r : ℚ} {e : JournalError} (hr : expectedRevision = some r)
      (hne : r ≠ journal.revision) (he : e.code = .revisionConflict) :
      Appended journal batch expectedRevision disk (.error e) journal
  | refused {e : JournalError} (hr : ∀ r ∈ expectedRevision, r = journal.revision)
      (he : e.code ≠ .revisionConflict) :
      Appended journal batch expectedRevision disk (.error e) journal
  | empty {result : AppendResult} (hr : ∀ r ∈ expectedRevision, r = journal.revision)
      (hdrafts : batch.drafts = []) :
      Appended journal batch expectedRevision disk (.ok result) journal
  | cut {e : JournalError} {journal' : Journal}
      (hr : ∀ r ∈ expectedRevision, r = journal.revision)
      (he : e.code ≠ .revisionConflict) (hrevision : journal'.revision = journal.revision) :
      Appended journal batch expectedRevision disk (.error e) journal'
  | written {loaded : Loaded} {result : AppendResult}
      (hr : ∀ r ∈ expectedRevision, r = journal.revision)
      (hload : journal.load disk = .ok loaded) (htail : loaded.truncatedTail = false)
      (hdrafts : batch.drafts ≠ []) :
      Appended journal batch expectedRevision disk (.ok result)
        { journal with
          storage := journal.storage.append
            (prepare batch.timestamp (loaded.events.length + 1) batch.drafts)
          revision := loaded.events.length + batch.drafts.length }

theorem length_prepare (timestamp : String) (seq : Nat) (drafts : List Draft) :
    (prepare timestamp seq drafts).length = drafts.length := by
  induction drafts generalizing seq with
  | nil => rfl
  | cons draft drafts ih => simp [prepare, ih]

theorem writeBatch_cases (journal : Journal) (disk : Disk) (events : List Json) :
    journal.writeBatch disk events =
        (.ok (), { journal with storage := journal.storage.append events }) ∨
      ∃ e journal', journal.writeBatch disk events = (.error e, journal') ∧
        e.code ≠ .revisionConflict ∧ journal'.revision = journal.revision := by
  unfold Journal.writeBatch
  cases hstorage : journal.storage with
  | memory stored => exact .inl rfl
  | file filePath content =>
    cases hcut : disk.cut with
    | none =>
      left
      simp [Storage.append, Disk.written, hcut]
    | some n => exact .inr ⟨_, _, rfl, by simp, rfl⟩

/-- **`appendBatch`, inverted.** -/
theorem appendBatch_cases (journal : Journal) (batch : Batch) (expectedRevision : Option ℚ)
    (disk : Disk) :
    Appended journal batch expectedRevision disk
      (journal.appendBatch batch expectedRevision disk).1
      (journal.appendBatch batch expectedRevision disk).2 := by
  unfold Journal.appendBatch
  by_cases hconflict : expectedRevision.any (· ≠ (journal.revision : ℚ)) = true
  · rw [if_pos hconflict]
    cases expectedRevision with
    | none => cases hconflict
    | some r => exact .conflict rfl (by simpa using hconflict) rfl
  · rw [if_neg hconflict]
    have hr : ∀ r ∈ expectedRevision, r = journal.revision := by
      intro r hr
      cases hr
      simpa using hconflict
    cases hload : journal.load disk with
    | error e => exact .refused hr (load_error_code hload)
    | ok loaded =>
      simp only
      by_cases htail : loaded.truncatedTail = true
      · rw [if_pos htail]
        exact .refused hr (by simp [invalidJournal])
      · rw [if_neg htail]
        have hlength := length_prepare batch.timestamp (loaded.events.length + 1) batch.drafts
        by_cases hempty : (prepare batch.timestamp (loaded.events.length + 1)
            batch.drafts).isEmpty = true
        · rw [if_pos hempty]
          refine .empty hr ?_
          rw [isEmpty_iff_length_eq_zero, hlength] at hempty
          exact length_eq_zero_iff.1 hempty
        · rw [if_neg hempty]
          have hdrafts : batch.drafts ≠ [] := by
            intro hnil
            rw [hnil] at hempty
            exact hempty rfl
          rcases writeBatch_cases journal disk
            (prepare batch.timestamp (loaded.events.length + 1) batch.drafts) with
            hwrite | ⟨e, journal', hwrite, he, hrevision⟩
          · rw [hwrite]
            simp only [hlength, Nat.add_right_comm _ 1, Nat.add_sub_cancel]
            exact .written hr hload (by simpa using htail) hdrafts
          · rw [hwrite]
            exact .cut hr he hrevision

/-- What a call of `repairTail` can do. -/
inductive Repaired (journal : Journal) : Except JournalError Bool → Journal → Prop
  | unchanged {result : Except JournalError Bool} (hresult : result ≠ .ok true) :
      Repaired journal result journal
  | cut {e : JournalError} {journal' : Journal} (hrevision : journal'.revision = journal.revision) :
      Repaired journal (.error e) journal'
  | rewritten {filePath : String} {events : List Json} (hobjects : Objects events) :
      Repaired journal (.ok true)
        { journal with
          storage := .file filePath (some (linesText events))
          revision := events.length }

/-- **`repairTail`, inverted.** -/
theorem repairTail_cases (journal : Journal) (disk : Disk) :
    Repaired journal (journal.repairTail disk).1 (journal.repairTail disk).2 := by
  unfold Journal.repairTail
  cases hstorage : journal.storage with
  | memory events => exact .unchanged (by simp)
  | file filePath content =>
    simp only
    cases hread : readTextFile disk filePath content with
    | error e => exact .unchanged (by simp)
    | ok content =>
      cases content with
      | none => exact .unchanged (by simp)
      | some content =>
        simp only
        cases hload : parseJournalFile content filePath with
        | error e => exact .unchanged (by simp)
        | ok loaded =>
          simp only
          by_cases htail : (!loaded.truncatedTail) = true
          · rw [if_pos htail]
            exact .unchanged (by simp)
          · rw [if_neg htail]
            cases hcut : disk.cut with
            | some n => exact .cut rfl
            | none =>
              simp only [Disk.written, hcut]
              exact .rewritten (objects_load hload)

/-! ## Runs -/

/-- A journal, and whether its counter has caught up with the file. -/
structure Tracked where
  journal : Journal
  caughtUp : Bool

/-- Has the operation written events and completed? -/
def completes (journal : Journal) : Operation → Bool
  | .appendBatch batch expectedRevision disk =>
    !batch.drafts.isEmpty && (journal.appendBatch batch expectedRevision disk).1.isOk
  | .repairTail disk =>
    match (journal.repairTail disk).1 with
    | .ok rewritten => rewritten
    | .error _ => false
  | .readAfter _ _ | .inspect _ => false

/-- A journal that has just been opened: the counter is zero. -/
def Tracked.open (sessionId filePath : String) (content : Option (List Char)) : Tracked :=
  let journal := Journal.open sessionId filePath content
  ⟨journal, journal.eventCount.all (· == 0)⟩

/-- An operation.  The counter catches up when events are written completely; a write that fails
leaves it behind if it changes the number of events. -/
def Tracked.step (s : Tracked) (op : Operation) : Option Tracked :=
  let journal' := s.journal.step op
  some ⟨journal', completes s.journal op ||
    (s.caughtUp && s.journal.eventCount == journal'.eventCount)⟩

/-- `expectedRevision` is used only while the counter has caught up. -/
def UsedInStep (s : Tracked) (op : Operation) (_ : Tracked) : Prop :=
  match op with
  | .appendBatch _ (some _) _ => s.caughtUp = true
  | _ => True

/-- Is the result a `revision_conflict`? -/
def isConflict : Except JournalError AppendResult → Bool
  | .error e => decide (e.code = .revisionConflict)
  | .ok _ => false

/-- A call with an expected revision conflicts exactly when `inspect` reports another one, and a
conflict leaves the journal as it was. -/
def ConflictExact (s : Tracked) (op : Operation) (t : Tracked) : Prop :=
  match op with
  | .appendBatch batch (some r) disk =>
    (∀ disk' report, s.journal.inspect disk' = .ok report →
      (isConflict (s.journal.appendBatch batch (some r) disk).1 = true ↔ r ≠ report.revision)) ∧
    (isConflict (s.journal.appendBatch batch (some r) disk).1 = true → t.journal = s.journal)
  | _ => True

/-- A counter that has caught up is the number of events. -/
def CountsEvents (s : Tracked) : Prop :=
  s.caughtUp = true → ∀ n ∈ s.journal.eventCount, n = s.journal.revision

theorem countsEvents_open (sessionId filePath : String) (content : Option (List Char)) :
    CountsEvents (Tracked.open sessionId filePath content) := by
  intro hcaughtUp n hn
  have hzero := hcaughtUp
  simp only [Tracked.open] at hzero hn
  rw [hn] at hzero
  simpa [Tracked.open, Journal.open] using hzero

/-- Reading does not depend on the disk, if it works. -/
theorem load_eq_of_ok {journal : Journal} {disk : Disk} {loaded : Loaded}
    (h : journal.load disk = .ok loaded) : journal.load Disk.ok = .ok loaded := by
  unfold Journal.load at h ⊢
  cases hstorage : journal.storage with
  | memory events => simpa [hstorage] using h
  | file filePath content =>
    simp only [hstorage, readTextFile] at h ⊢
    by_cases hreadable : disk.readable = true
    · simpa [hreadable, Disk.ok] using h
    · simp [hreadable, bind, Except.bind] at h

theorem inspect_revision {journal : Journal} {disk : Disk} {report : Inspection}
    (h : journal.inspect disk = .ok report) : journal.eventCount = some report.revision := by
  unfold Journal.inspect at h
  cases hload : journal.load disk with
  | error e => simp [hload, bind, Except.bind] at h
  | ok loaded =>
    simp only [hload, bind, Except.bind, Except.ok.injEq] at h
    subst h
    simp [Journal.eventCount, load_eq_of_ok hload]

/-- After events have been written completely the counter is right. -/
theorem eventCount_written {journal : Journal} {disk : Disk} {loaded : Loaded} {batch : Batch}
    (hload : journal.load disk = .ok loaded) (htail : loaded.truncatedTail = false)
    (hdrafts : batch.drafts ≠ []) {n : Nat}
    (hcount : Journal.eventCount { journal with
      storage := journal.storage.append
        (prepare batch.timestamp (loaded.events.length + 1) batch.drafts)
      revision := loaded.events.length + batch.drafts.length } = some n) :
    n = loaded.events.length + batch.drafts.length := by
  have hlength := length_prepare batch.timestamp (loaded.events.length + 1) batch.drafts
  have hobjects := objects_prepare batch.timestamp (loaded.events.length + 1) batch.drafts
  generalize prepare batch.timestamp (loaded.events.length + 1) batch.drafts = events at *
  have hload := load_eq_of_ok hload
  unfold Journal.load at hload
  unfold Journal.eventCount Journal.load at hcount
  cases hstorage : journal.storage with
  | memory stored =>
    simp only [hstorage] at hload
    cases hload
    simp only [hstorage, Storage.append] at hcount
    cases hcount
    simp [hlength]
  | file filePath content =>
    simp only [hstorage, Storage.append, readTextFile, Disk.ok, if_true, bind, Except.bind]
      at hload hcount
    have hparse : parseJournalFile (content.getD []) filePath = .ok loaded := by
      cases content with
      | none => exact hload
      | some content => exact hload
    cases events with
    | nil =>
      rw [length_nil] at hlength
      exact absurd (length_eq_zero_iff.1 hlength.symm) hdrafts
    | cons event events =>
      cases hload' : parseJournalFile (content.getD [] ++ linesText (event :: events))
          filePath with
      | error e => simp [hload'] at hcount
      | ok loaded' =>
        simp only [hload', Option.some.injEq] at hcount
        rw [← hcount, load_append hobjects hparse htail hload', hlength]

theorem eventCount_rewritten {journal : Journal} {filePath : String} {events : List Json}
    (hobjects : Objects events) {n : Nat}
    (hcount : Journal.eventCount { journal with
      storage := .file filePath (some (linesText events))
      revision := events.length } = some n) : n = events.length := by
  unfold Journal.eventCount Journal.load at hcount
  simp only [readTextFile, Disk.ok, if_true, bind, Except.bind] at hcount
  cases hload : parseJournalFile (linesText events) filePath with
  | error e => simp [hload] at hcount
  | ok loaded =>
    simp only [hload, Option.some.injEq] at hcount
    rw [← hcount, load_repaired hobjects hload]

/-- What an operation does to the counter and the number of events. -/
theorem step_counter (journal : Journal) (op : Operation) :
    (completes journal op = true →
      ∀ n ∈ (journal.step op).eventCount, n = (journal.step op).revision) ∧
    (completes journal op = false → (journal.step op).revision = journal.revision) := by
  cases op with
  | appendBatch batch expectedRevision disk =>
    have hcases := appendBatch_cases journal batch expectedRevision disk
    simp only [completes, Journal.step]
    generalize (journal.appendBatch batch expectedRevision disk).1 = result at hcases ⊢
    generalize (journal.appendBatch batch expectedRevision disk).2 = journal' at hcases ⊢
    cases hcases with
    | conflict hr hne he => exact ⟨fun h => by simp [Except.isOk, Except.toBool] at h, fun _ => rfl⟩
    | refused hr he => exact ⟨fun h => by simp [Except.isOk, Except.toBool] at h, fun _ => rfl⟩
    | empty hr hdrafts => exact ⟨fun h => by simp [hdrafts] at h, fun _ => rfl⟩
    | cut hr he hrevision =>
      exact ⟨fun h => by simp [Except.isOk, Except.toBool] at h, fun _ => hrevision⟩
    | written hr hload htail hdrafts =>
      refine ⟨fun _ n hn => eventCount_written hload htail hdrafts hn, fun h => ?_⟩
      simp [hdrafts, Except.isOk, Except.toBool] at h
  | repairTail disk =>
    have hcases := repairTail_cases journal disk
    simp only [completes, Journal.step]
    generalize (journal.repairTail disk).1 = result at hcases ⊢
    generalize (journal.repairTail disk).2 = journal' at hcases ⊢
    cases hcases with
    | unchanged hresult =>
      refine ⟨fun h => ?_, fun _ => rfl⟩
      cases result with
      | error e => cases h
      | ok rewritten => exact absurd (congrArg _ h) hresult
    | cut hrevision => exact ⟨fun h => (by cases h), fun _ => hrevision⟩
    | rewritten hobjects =>
      exact ⟨fun _ n hn => eventCount_rewritten hobjects hn, fun h => by cases h⟩
  | readAfter seq disk => exact ⟨fun h => (by cases h), fun _ => rfl⟩
  | inspect disk => exact ⟨fun h => (by cases h), fun _ => rfl⟩

/-- An operation keeps the counter right. -/
theorem CountsEvents.step {s t : Tracked} {op : Operation} (hs : CountsEvents s)
    (hstep : s.step op = some t) : CountsEvents t := by
  cases hstep
  intro hcaughtUp n hn
  obtain ⟨hcompletes, hkeeps⟩ := step_counter s.journal op
  cases hop : completes s.journal op with
  | true => exact hcompletes hop n hn
  | false =>
    simp only [hop, Bool.false_or, Bool.and_eq_true, beq_iff_eq] at hcaughtUp
    rw [hkeeps hop]
    exact hs hcaughtUp.1 n (by rw [hcaughtUp.2]; exact hn)

/-- The check of the expected revision. -/
theorem conflict_iff (journal : Journal) (batch : Batch) (r : ℚ) (disk : Disk) :
    (isConflict (journal.appendBatch batch (some r) disk).1 = true ↔ r ≠ journal.revision) ∧
      (isConflict (journal.appendBatch batch (some r) disk).1 = true →
        (journal.appendBatch batch (some r) disk).2 = journal) := by
  have hcases := appendBatch_cases journal batch (some r) disk
  generalize (journal.appendBatch batch (some r) disk).1 = result at hcases ⊢
  generalize (journal.appendBatch batch (some r) disk).2 = journal' at hcases ⊢
  cases hcases with
  | conflict hr hne he =>
    cases hr
    exact ⟨by simpa [isConflict, he] using hne, fun _ => rfl⟩
  | refused hr he | cut hr he => simp [isConflict, he, hr r rfl]
  | empty hr | written hr => simp [isConflict, hr r rfl]

/-- **Optimistic concurrency.**  On every file and along every sequence of operations that uses
`expectedRevision` only while the counter has caught up with the file, `appendBatch` reports a
conflict exactly when the expected revision is not the one `inspect` reports, and a conflict
changes nothing. -/
theorem conflict_iff_of_caughtUp (sessionId filePath : String) (content : Option (List Char))
    (ops : List Operation)
    (hops : Along Tracked.step UsedInStep (Tracked.open sessionId filePath content) ops) :
    Along Tracked.step ConflictExact (Tracked.open sessionId filePath content) ops := by
  refine along_of_invariant (I := CountsEvents) ?_ ops _
    (countsEvents_open sessionId filePath content) hops
  intro s op t hs hstep hused
  refine ⟨?_, hs.step hstep⟩
  cases op with
  | appendBatch batch expectedRevision disk =>
    cases expectedRevision with
    | none => trivial
    | some r =>
      obtain ⟨hiff, hsame⟩ := conflict_iff s.journal batch r disk
      refine ⟨?_, ?_⟩
      · intro disk' report hreport
        rw [hiff, hs hused report.revision (inspect_revision hreport)]
      · intro hconflict
        cases hstep
        exact hsame hconflict
  | readAfter seq disk => trivial
  | inspect disk => trivial
  | repairTail disk => trivial

/-- A batch with one event. -/
def oneEvent : Batch := ⟨[⟨.obj [], "id-2", rfl, by decide⟩], "2026-01-02", by decide⟩

/-- A file with one event. -/
def oneEventFile : List Char :=
  ['\x7b', '"', 's', 'e', 'q', '"', ':', '1', ',', '"', 'e', 'v', 'e', 'n', 't', 'I', 'd', '"', ':',
    '"', 'a', '"', ',', '"', 't', 'i', 'm', 'e', 's', 't', 'a', 'm', 'p', '"', ':', '"', 't', '"',
    '\x7d', '\n']

/-- An append without an expected revision makes the counter catch up with a file of one event. -/
theorem conflict_iff_of_caughtUp_appendFirst :
    Along Tracked.step UsedInStep (Tracked.open "s" "journal" (some oneEventFile))
      [.appendBatch oneEvent none Disk.ok, .appendBatch oneEvent (some 2) Disk.ok] ∧
    Along Tracked.step ConflictExact (Tracked.open "s" "journal" (some oneEventFile))
      [.appendBatch oneEvent none Disk.ok, .appendBatch oneEvent (some 2) Disk.ok] := by
  have hcompletes : completes (Journal.open "s" "journal" (some oneEventFile))
      (.appendBatch oneEvent none Disk.ok) = true := by decide +kernel
  have hused : Along Tracked.step UsedInStep (Tracked.open "s" "journal" (some oneEventFile))
      [.appendBatch oneEvent none Disk.ok, .appendBatch oneEvent (some 2) Disk.ok] := by
    intro t ht
    refine ⟨trivial, fun u _ => ⟨?_, trivial⟩⟩
    rw [← Option.some.inj ht]
    simp only [UsedInStep, Tracked.open, hcompletes, Bool.true_or]
  exact ⟨hused, conflict_iff_of_caughtUp _ _ _ _ hused⟩

/-- A journal is opened on a file with one event: `inspect` reports revision 1, and an append
that expects revision 1 conflicts. -/
theorem fresh_counter_conflicts :
    ¬ ∀ (sessionId filePath : String) (content : Option (List Char)) (ops : List Operation),
      Along Tracked.step ConflictExact (Tracked.open sessionId filePath content) ops := by
  intro h
  have hfirst := (h "s" "journal" (some oneEventFile) [.appendBatch oneEvent (some 1) Disk.ok]
    _ rfl).1.1
  have hrevision : ((Journal.open "s" "journal" (some oneEventFile)).inspect Disk.ok).toOption.map
      Inspection.revision = some 1 := by decide +kernel
  cases hinspect : (Journal.open "s" "journal" (some oneEventFile)).inspect Disk.ok with
  | error e =>
    rw [hinspect] at hrevision
    cases hrevision
  | ok report =>
    rw [hinspect] at hrevision
    have hreport : report.revision = 1 := Option.some.inj hrevision
    have hconflict : isConflict ((Journal.open "s" "journal" (some oneEventFile)).appendBatch
        oneEvent (some 1) Disk.ok).1 = true := by decide +kernel
    have hne := (hfirst Disk.ok report hinspect).1 hconflict
    rw [hreport] at hne
    exact hne (by norm_num)

end BeauPi.Execution
