import BeauPi.Execution.Recovery
import BeauPi.Sessions.SessionFile

/-!
# What a journal records

The record functions of `core/execution/execution-journal.ts` and the questions that are answered
from the events.

* `Journal.record`, `readEvents`, `wasCompleted`, `settledStatus`.
* `answers_recordAll` — **the answers are those of the records**.
* `answers_interrupted` — **a record is there wholly or not at all**, wherever it is cut off.
* `readAfter_recordAll` — **`readAfter` splits the log**.
-/

namespace BeauPi.Execution

open List

/-! ## Recording -/

/-- `JournalToolStatus`. -/
inductive JournalToolStatus
  | completed
  | failed
  | unknown
  deriving DecidableEq

/-- The text of a status. -/
def JournalToolStatus.text : JournalToolStatus → String
  | .completed => "completed"
  | .failed => "failed"
  | .unknown => "unknown"

/-- `ExecutionStatus`. -/
inductive ExecutionStatus
  | completed
  | failed
  | cancelled
  | timedOut
  | killed
  | unknown
  deriving DecidableEq

/-- The status that `recordRunSettled` writes. -/
def ExecutionStatus.settled : ExecutionStatus → JournalToolStatus
  | .completed => .completed
  | .failed => .failed
  | _ => .unknown

/-- The calls of record functions. -/
inductive Record
  | runCreated (runId owner : String)
  | runStarted (runId owner : String) (causationId : Option String)
  | toolClaimed (runId toolCallId owner : String) (attempt : Nat) (jobId : Option String)
  | toolStarted (runId toolCallId owner : String) (attempt : Nat) (causationId : Option String)
  | toolCheckpoint (runId toolCallId owner : String) (idempotencyKey : Option String)
  | cancelRequested (runId : String) (toolCallId : Option String) (owner : String)
  | toolFinished (runId toolCallId : String) (status : JournalToolStatus) (owner : String)
      (failureCategory : Option String)
  | runSettled (runId : String) (status : ExecutionStatus) (owner : String)

/-- A field that is left out if it is undefined, as `JSON.stringify` does. -/
def optional (key : String) : Option String → List (String × Json)
  | none => []
  | some s => [(key, .str s)]

/-- The event type and the fields that a record function hands to `event`. -/
def Record.typed : Record → String × List (String × Json)
  | .runCreated runId owner =>
    ("run/created", [("runId", .str runId), ("attempt", Json.nat 1), ("owner", .str owner)])
  | .runStarted runId owner causationId =>
    ("run/started", [("runId", .str runId), ("attempt", Json.nat 1), ("owner", .str owner)] ++
      optional "causationId" causationId)
  | .toolClaimed runId toolCallId owner attempt jobId =>
    ("tool/claimed", [("runId", .str runId), ("toolCallId", .str toolCallId)] ++
      optional "jobId" jobId ++ [("attempt", Json.nat attempt), ("owner", .str owner)])
  | .toolStarted runId toolCallId owner attempt causationId =>
    ("tool/started", [("runId", .str runId), ("toolCallId", .str toolCallId),
      ("attempt", Json.nat attempt), ("owner", .str owner)] ++ optional "causationId" causationId)
  | .toolCheckpoint runId toolCallId owner idempotencyKey =>
    ("tool/checkpoint", [("runId", .str runId), ("toolCallId", .str toolCallId),
      ("attempt", Json.nat 1), ("owner", .str owner)] ++ optional "idempotencyKey" idempotencyKey)
  | .cancelRequested runId toolCallId owner =>
    ("cancel/requested", [("runId", .str runId)] ++ optional "toolCallId" toolCallId ++
      [("attempt", Json.nat 1), ("owner", .str owner)])
  | .toolFinished runId toolCallId status owner failureCategory =>
    (if status = .completed then "tool/completed"
      else if status = .failed then "tool/failed" else "tool/unknown",
      [("runId", .str runId), ("toolCallId", .str toolCallId), ("attempt", Json.nat 1),
        ("owner", .str owner), ("status", .str status.text)] ++
        optional "failureCategory" failureCategory)
  | .runSettled runId status owner =>
    ("run/settled", [("runId", .str runId), ("attempt", Json.nat 1), ("owner", .str owner),
      ("status", .str status.settled.text)])

/-- The fields of `event`. -/
def Record.event (record : Record) (sessionId : String) : List (String × Json) :=
  record.typed.2 ++ [("type", .str record.typed.1), ("sessionId", .str sessionId)]

theorem Record.wellFormed_event (record : Record) (sessionId : String) :
    WellFormedFields (record.event sessionId) := by
  constructor <;> cases record <;> (try cases ‹Option String›) <;>
    simp [event, typed, optional, Json.wellFormed, wellFormed_nat]

/-- A record with the identifier and the time of its event. -/
structure Recorded where
  record : Record
  uuid : String
  uuid_ne : uuid ≠ ""
  timestamp : String
  timestamp_ne : timestamp ≠ ""

/-- The event object of a record. -/
def Recorded.draft (r : Recorded) (sessionId : String) : Draft :=
  ⟨.obj (r.record.event sessionId), r.uuid, (r.record.wellFormed_event sessionId).obj, r.uuid_ne⟩

/-- The batch of a record. -/
def Recorded.batch (r : Recorded) (sessionId : String) : Batch :=
  ⟨[r.draft sessionId], r.timestamp, r.timestamp_ne⟩

/-- `append`. -/
def Journal.record (journal : Journal) (r : Recorded) (disk : Disk) :
    Except JournalError AppendResult × Journal :=
  journal.appendBatch (r.batch journal.sessionId) none disk

/-- The journal after records. -/
def recordAll : Journal → List Recorded → Journal :=
  List.foldl fun journal r => (journal.record r Disk.ok).2

/-! ## Asking -/

/-- `typeof value === "string"`. -/
def isString : Option Json → Bool
  | some (.str _) => true
  | _ => false

/-- `readEvents`. -/
def Journal.readEvents (journal : Journal) (disk : Disk) : Except JournalError (List Json) := do
  let events ← journal.readAfter 0 disk
  .ok (events.filter fun event => isString (event.get? "type") && isString (event.get? "runId"))

/-- The test of `wasCompleted`. -/
def isCompletion (toolCallId : String) (event : Json) : Bool :=
  event.get? "toolCallId" = some (.str toolCallId) ∧ event.get? "status" = some (.str "completed")

/-- `wasCompleted`. -/
def Journal.wasCompleted (journal : Journal) (toolCallId : String) (disk : Disk) :
    Except JournalError Bool := do
  let events ← journal.readEvents disk
  .ok (events.any (isCompletion toolCallId))

/-- The status in an event that settles the run. -/
def settlement (runId : String) (event : Json) : Option Json :=
  if event.get? "runId" = some (.str runId) ∧ event.get? "type" = some (.str "run/settled") then
    (event.get? "status").filter Sessions.isTruthy
  else none

/-- `settledStatus`. -/
def Journal.settledStatus (journal : Journal) (runId : String) (disk : Disk) :
    Except JournalError (Option Json) := do
  let events ← journal.readEvents disk
  .ok (events.reverse.findSome? (settlement runId))

/-! ## What the records say -/

/-- The record of a completed call. -/
def Record.completes (toolCallId : String) : Record → Bool
  | .toolFinished _ id status _ _ => id = toolCallId ∧ status = .completed
  | _ => false

/-- The status that a record settles the run with. -/
def Record.settles (runId : String) : Record → Option JournalToolStatus
  | .runSettled id status _ => if id = runId then some status.settled else none
  | _ => none

/-- `wasCompleted` says whether a completed call is among the records, `settledStatus` returns the
status of the last record that settles the run. -/
def Answers (journal : Journal) (records : List Recorded) : Prop :=
  (∀ id, journal.wasCompleted id Disk.ok = .ok (records.any (·.record.completes id))) ∧
  ∀ runId, journal.settledStatus runId Disk.ok =
    .ok ((records.reverse.findSome? (·.record.settles runId)).map fun status => .str status.text)

/-- The entry of a record. -/
def Recorded.entry (sessionId : String) (r : Recorded) : Entry :=
  ⟨r.draft sessionId, r.timestamp, r.timestamp_ne⟩

variable {sessionId : String} {records : List Recorded}

theorem Recorded.get?_entry (r : Recorded) (seq : Nat) {key : String}
    (h : key ∉ ["seq", "eventId", "schemaVersion", "timestamp"]) :
    ((r.entry sessionId).event seq).get? key = Json.field? key (r.record.event sessionId) := by
  simp only [mem_cons, not_mem_nil, or_false, not_or] at h
  simp [Entry.event, Json.get?, preparedFields, field?_setEntry, h, recordFields, entry, draft]

theorem Recorded.identified (r : Recorded) : (r.entry sessionId).draft.identified = true := by
  simp only [Draft.identified, entry, draft, recordFields]
  cases r.record <;> (try cases ‹Option String›) <;> rfl

theorem isCompletion_entry (sessionId toolCallId : String) (r : Recorded) (seq : Nat) :
    isCompletion toolCallId ((r.entry sessionId).event seq) = r.record.completes toolCallId := by
  rw [isCompletion, r.get?_entry seq (by decide), r.get?_entry seq (by decide)]
  cases r.record <;> (try cases ‹Option String›) <;> (try cases ‹JournalToolStatus›) <;>
    simp [Record.event, Record.typed, Record.completes, Json.field?, optional,
      JournalToolStatus.text]

theorem settlement_entry (sessionId runId : String) (r : Recorded) (seq : Nat) :
    settlement runId ((r.entry sessionId).event seq) =
      (r.record.settles runId).map fun status => .str status.text := by
  rw [settlement, r.get?_entry seq (by decide), r.get?_entry seq (by decide),
    r.get?_entry seq (by decide)]
  cases r.record <;> (try cases ‹Option String›) <;> (try cases ‹JournalToolStatus›) <;>
    (try cases ‹ExecutionStatus›) <;>
    simp [Record.event, Record.typed, Record.settles, Json.field?, optional, Option.filter,
      ExecutionStatus.settled, JournalToolStatus.text, Sessions.isTruthy]

/-! ## What is read -/

theorem filter_seqAfter (seq : Nat) (entries : List Entry) (n : Nat) :
    (entryEvents seq entries).filter (seqAfter n) =
      entryEvents (seq + (n + 1 - seq)) (entries.drop (n + 1 - seq)) := by
  induction entries generalizing seq with
  | nil => simp [entryEvents]
  | cons entry entries ih =>
    have hseq : seqAfter n (entry.event seq) = decide (n < seq) := by
      rw [seqAfter, Entry.event, seq_prepared]
      simp [Json.nat]
    rw [entryEvents, filter_cons, hseq, ih]
    by_cases hn : n < seq
    · rw [show n + 1 - seq = 0 by omega, show n + 1 - (seq + 1) = 0 by omega]
      simp [hn, entryEvents]
    · rw [show n + 1 - seq = n + 1 - (seq + 1) + 1 by omega, drop_succ_cons]
      simp [hn, Nat.add_assoc, Nat.add_comm 1]

theorem map_entryEvents {β : Type} {f : Json → β} {g : Recorded → β}
    (h : ∀ r seq, f ((r.entry sessionId).event seq) = g r) (records : List Recorded) (seq : Nat) :
    (entryEvents seq (records.map (·.entry sessionId))).map f = records.map g := by
  induction records generalizing seq with
  | nil => rfl
  | cons r records ih => simp [entryEvents, h, ih]

variable {journal : Journal}

theorem readEvents_of_load {truncatedTail : Bool}
    (h : journal.load Disk.ok =
      .ok ⟨entryEvents 1 (records.map (·.entry sessionId)), truncatedTail⟩) :
    journal.readEvents Disk.ok = .ok (entryEvents 1 (records.map (·.entry sessionId))) := by
  have hall := filter_seqAfter 1 (records.map (·.entry sessionId)) 0
  have htyped : (entryEvents 1 (records.map (·.entry sessionId))).map
      (fun event => isString (event.get? "type") && isString (event.get? "runId")) =
        records.map fun _ => true := by
    refine map_entryEvents (fun r seq => ?_) records 1
    rw [r.get?_entry seq (by decide), r.get?_entry seq (by decide)]
    cases r.record <;> (try cases ‹Option String›) <;> rfl
  rw [Nat.cast_zero, Nat.add_sub_cancel, Nat.add_zero, drop_zero] at hall
  simp only [Journal.readEvents, Journal.readAfter, h, bind, Except.bind, hall]
  refine congrArg _ (filter_eq_self.2 fun event hevent => ?_)
  have hmem := htyped ▸ mem_map_of_mem hevent
  obtain ⟨-, -, heq⟩ := mem_map.1 hmem
  exact heq.symm

/-- The answers from a journal that can be loaded. -/
theorem answers_of_load {truncatedTail : Bool}
    (h : journal.load Disk.ok =
      .ok ⟨entryEvents 1 (records.map (·.entry sessionId)), truncatedTail⟩) :
    Answers journal records := by
  constructor
  · intro id
    have hany := congrArg (List.any · fun b => b)
      (map_entryEvents (isCompletion_entry sessionId id) records 1)
    simp only [any_map] at hany
    simpa [Journal.wasCompleted, readEvents_of_load h, bind, Except.bind, Function.comp_def]
      using hany
  · intro runId
    have hfind := congrArg (fun l => l.reverse.findSome? fun o => o)
      (map_entryEvents (settlement_entry sessionId runId) records 1)
    simp only [← map_reverse, findSome?_map] at hfind
    simpa [Journal.settledStatus, readEvents_of_load h, bind, Except.bind, Function.comp_def,
      map_findSome?] using hfind

/-! ## Whole runs -/

theorem sessionId_appendBatch (journal : Journal) (batch : Batch) (disk : Disk) :
    (journal.appendBatch batch none disk).2.sessionId = journal.sessionId := by
  unfold Journal.appendBatch Journal.writeBatch
  cases journal.storage <;> cases disk.cut <;> dsimp only <;> split_ifs <;> try rfl
  all_goals
    cases journal.load disk
    all_goals dsimp only
    all_goals try split_ifs
    all_goals rfl

theorem allIdentified_entries (records : List Recorded) :
    AllIdentified (records.map (·.entry sessionId)) := by
  intro entry hentry
  obtain ⟨r, -, rfl⟩ := mem_map.1 hentry
  exact r.identified

/-- A journal that records have built. -/
theorem holds_recordAll (sessionId filePath : String) (records : List Recorded) :
    Holds (recordAll (Journal.open sessionId filePath none) records)
        (records.map (·.entry sessionId)) [] ∧
      (recordAll (Journal.open sessionId filePath none) records).sessionId = sessionId := by
  induction records using reverseRecOn with
  | nil => exact ⟨holds_open sessionId filePath, rfl⟩
  | append_singleton records r ih =>
    obtain ⟨hholds, hid⟩ := ih
    obtain ⟨result, journal', happend, hnext⟩ :=
      hholds.append (allIdentified_entries records) (r.batch sessionId)
    have hrecord :
        recordAll (Journal.open sessionId filePath none) (records ++ [r]) = journal' := by
      rw [recordAll, foldl_append, foldl_cons, foldl_nil, Journal.record, ← recordAll, hid, happend]
    rw [hrecord, map_append]
    have hkept := sessionId_appendBatch _ (r.batch sessionId) Disk.ok ▸ hid
    rw [happend] at hkept
    exact ⟨hnext, hkept⟩

theorem Holds.answers (h : Holds journal (records.map (·.entry sessionId)) []) :
    Answers journal records :=
  answers_of_load (h.load_lines.1 (allIdentified_entries records))

/-- **The answers are those of the records.** -/
theorem answers_recordAll (sessionId filePath : String) (records : List Recorded) :
    Answers (recordAll (Journal.open sessionId filePath none) records) records :=
  (holds_recordAll sessionId filePath records).1.answers

/-- **A record is there wholly or not at all.**  Where the last record is cut off after `n`
characters, the answers are those of all records if its line was complete up to the newline, and
else those of the records before it; `repairTail` does not change them. -/
theorem answers_interrupted (sessionId filePath : String) (records : List Recorded)
    (last : Recorded) (n : Nat) :
    let journal :=
      ((recordAll (Journal.open sessionId filePath none) records).record last ⟨true, some n⟩).2
    let line := ((last.entry sessionId).event (records.length + 1)).text
    let kept := if line.length ≤ n then records ++ [last] else records
    Answers journal kept ∧ Answers (journal.repairTail Disk.ok).2 kept := by
  intro journal line kept
  obtain ⟨hholds, hid⟩ := holds_recordAll sessionId filePath records
  have hold := @allIdentified_entries sessionId records
  have hcut := hholds.append_cut hold (last.batch sessionId) n
  have hjournal : journal = ((recordAll (Journal.open sessionId filePath none) records).appendBatch
      (last.batch sessionId) none ⟨true, some n⟩).2 := by
    simp only [journal, Journal.record, hid]
  have hnewline := newline_not_mem_cutLine n (records.length + 1) [last.entry sessionId]
  rw [← hjournal, length_map, show (last.batch sessionId).entries = [last.entry sessionId] from rfl]
    at hcut
  by_cases hfull : line.length + 1 ≤ n
  · -- the whole line
    simp only [reached, cutLine, line, if_pos hfull] at hcut
    have hall := @allIdentified_entries sessionId (records ++ [last])
    rw [← map_singleton, ← map_append] at hcut
    obtain ⟨b, repaired, hrepair, hrepaired⟩ := hcut.repair hall (by simp) fun filePath =>
      ⟨false, by rw [readTail, isBlank_nil, if_pos rfl], fun _ => rfl⟩
    rw [show kept = records ++ [last] from if_pos (by omega), hrepair]
    exact ⟨hcut.answers, hrepaired.answers⟩
  · simp only [reached, line, if_neg hfull, append_nil] at hcut
    obtain ⟨filePath, hload⟩ := (hcut.load hnewline).1 hold
    by_cases hbefore : line.length = n
    · -- all but the newline
      have htail : ∀ filePath, readTail filePath (cutLine n (records.length + 1)
          [last.entry sessionId]) = ⟨[(last.entry sessionId).event (records.length + 1)], false⟩ := by
        intro filePath
        rw [cutLine, if_neg hfull, take_of_length_le hbefore.le, readTail, isBlank_event,
          (parseEventLine_entry (by omega)).1 last.identified]
        rfl
      have hanswers : Answers journal (records ++ [last]) := by
        have hevents : entryEvents 1 ((records ++ [last]).map (·.entry sessionId)) =
            entryEvents 1 (records.map (·.entry sessionId)) ++
              [(last.entry sessionId).event (records.length + 1)] := by
          rw [map_append, entryEvents_append, length_map, Nat.add_comm 1]
          rfl
        rw [htail, ← hevents] at hload
        exact answers_of_load hload
      rw [show kept = records ++ [last] from if_pos (by omega),
        hcut.repair_event hold hnewline fun filePath => ⟨_, htail filePath⟩]
      exact ⟨hanswers, hanswers⟩
    · -- an incomplete line
      have htail := fun filePath => (@readTail_cutLine _ filePath n
        (Nat.succ_pos records.length) [last.entry sessionId]).2 (by
          rw [cutBeforeNewline, unterminated, if_neg hfull, if_neg hbefore]
          rfl)
      obtain ⟨b, repaired, hrepair, hrepaired⟩ := hcut.repair hold hnewline htail
      obtain ⟨truncated, hread, -⟩ := htail filePath
      rw [hread, append_nil] at hload
      rw [show kept = records from if_neg (by omega), hrepair]
      exact ⟨answers_of_load hload, hrepaired.answers⟩

/-- **`readAfter` splits the log**: after `n` there are the events of the other records. -/
theorem readAfter_recordAll (sessionId filePath : String) (records : List Recorded) (n : Nat) :
    (recordAll (Journal.open sessionId filePath none) records).readAfter n Disk.ok =
      .ok (entryEvents (n + 1) ((records.drop n).map (·.entry sessionId))) := by
  have hload := (holds_recordAll sessionId filePath records).1.load_lines.1
    (allIdentified_entries records)
  simp only [Journal.readAfter, hload, bind, Except.bind, filter_seqAfter, Nat.add_sub_cancel,
    Nat.add_comm 1, map_drop]

end BeauPi.Execution
