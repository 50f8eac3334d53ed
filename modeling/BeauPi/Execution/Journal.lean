import BeauPi.Js.JsonPrefix
import BeauPi.Machine.Runs

/-!
# The execution journal

`core/execution/execution-journal.ts`: an append-only log of events, one JSON text a line.
Every operation is serialized by the journal's promise tail, so a journal goes from state to
state by whole operations.

* `parseEventLine`, `parseJournalFile` — what is read back from a file.
* `Journal.load`, `appendBatch`, `readAfter`, `inspect`, `repairTail` — the operations.  A write
  can be cut off: a beginning of its text reaches the file and the operation fails.
* `Operation`, `step` — the journal as a transition system.

Texts are lists of characters; a file that does not exist is `none`.
-/

namespace BeauPi.Execution

open Machine

/-! ## Errors -/

/-- The codes of `ExecutionJournalError`. -/
inductive ErrorCode
  | invalidJournal
  | revisionConflict
  | storageError
  deriving Repr, DecidableEq

/-- `ExecutionJournalError`. -/
structure JournalError where
  code : ErrorCode
  message : String
  deriving Repr, DecidableEq

/-- `invalidJournal`. -/
def invalidJournal (filePath message : String) : JournalError :=
  ⟨.invalidJournal, "Invalid execution journal " ++ filePath ++ ": " ++ message⟩

/-! ## Reading a file -/

/-- `typeof value === "string" && value`. -/
def isNonEmptyString : Option Json → Bool
  | some (.str s) => s != ""
  | _ => false

/-- `typeof value === "number" && Number.isInteger(value) && value >= 1`. -/
def isPositiveInteger : Option Json → Bool
  | some (.num n) => n.den == 1 && decide (1 ≤ n)
  | _ => false

/-- `typeof value === "object" && value !== null`. -/
def isObject : Json → Bool
  | .obj _ | .arr _ => true
  | _ => false

/-- `parseEventLine`. -/
def parseEventLine (line : List Char) (filePath : String) : Except JournalError Json :=
  match Json.parse (String.ofList line) with
  | none => .error (invalidJournal filePath "line is not valid JSON")
  | some event =>
    if !isObject event then .error (invalidJournal filePath "line is not an event")
    else if !isPositiveInteger (event.get? "seq") then
      .error (invalidJournal filePath "event is missing an integer seq")
    else if !isNonEmptyString (event.get? "eventId") then
      .error (invalidJournal filePath "event is missing eventId")
    else if !isNonEmptyString (event.get? "timestamp") then
      .error (invalidJournal filePath "event is missing timestamp")
    else .ok event

/-- What `load` returns. -/
structure Loaded where
  events : List Json
  truncatedTail : Bool
  deriving DecidableEq

/-- `line.trim() === ""`. -/
def isBlank (line : List Char) : Bool := (Js.trimChars line).isEmpty

/-- The loop of `parseJournalFile` over the lines that are left; `terminated` says that the
content ends with a newline. -/
def parseLines (filePath : String) (terminated : Bool) :
    List (List Char) → Except JournalError Loaded
  | [] => .ok ⟨[], false⟩
  | line :: rest =>
    if isBlank line then parseLines filePath terminated rest
    else if rest.isEmpty && !terminated then
      match parseEventLine line filePath with
      | .ok event => .ok ⟨[event], false⟩
      | .error _ => .ok ⟨[], true⟩
    else do
      let event ← parseEventLine line filePath
      let loaded ← parseLines filePath terminated rest
      .ok ⟨event :: loaded.events, loaded.truncatedTail⟩

/-- `parseJournalFile`. -/
def parseJournalFile (content : List Char) (filePath : String) : Except JournalError Loaded :=
  parseLines filePath (decide (content.getLast? = some '\n')) (content.splitOn '\n')

/-! ## Journals -/

/-- Where the events are kept. -/
inductive Storage
  | memory (events : List Json)
  | file (filePath : String) (content : Option (List Char))

/-- `ExecutionJournal`. -/
structure Journal where
  sessionId : String
  storage : Storage
  /-- The counter that `expectedRevision` is compared with. -/
  revision : Nat

/-- What the file system does during an operation. -/
structure Disk where
  /-- The file can be read. -/
  readable : Bool
  /-- A write fails after this many characters. -/
  cut : Option Nat
  deriving DecidableEq

/-- The file system works. -/
def Disk.ok : Disk := ⟨true, none⟩

/-- The part of a text that a write brings to the file. -/
def Disk.written (disk : Disk) (text : List Char) : List Char :=
  match disk.cut with
  | none => text
  | some n => text.take n

/-- The path of a journal in messages. -/
def Journal.path (journal : Journal) : String :=
  match journal.storage with
  | .memory _ => "<memory>"
  | .file filePath _ => filePath

/-- `this.fs.readTextFile`, with the error of the journal. -/
def readTextFile (disk : Disk) (filePath : String) (content : Option (List Char)) :
    Except JournalError (Option (List Char)) :=
  if disk.readable then .ok content
  else .error ⟨.storageError, "Failed to read execution journal " ++ filePath⟩

/-- `load`. -/
def Journal.load (journal : Journal) (disk : Disk) : Except JournalError Loaded :=
  match journal.storage with
  | .memory events => .ok ⟨events, false⟩
  | .file filePath content => do
    match ← readTextFile disk filePath content with
    | none => .ok ⟨[], false⟩
    | some content => parseJournalFile content filePath

/-- The constructor, on a file as earlier sessions have left it. -/
def Journal.open (sessionId filePath : String) (content : Option (List Char)) : Journal :=
  ⟨sessionId, .file filePath content, 0⟩

/-- The constructor without a file. -/
def Journal.inMemory (sessionId : String) : Journal := ⟨sessionId, .memory [], 0⟩

/-! ## Appending -/

/-- An event object that is appended, with the identifier that `randomUUID` draws for it. -/
structure Draft where
  raw : Json
  uuid : String
  raw_wellFormed : raw.wellFormed = true
  uuid_ne : uuid ≠ ""

/-- A batch of events, with the time that `now` returns. -/
structure Batch where
  drafts : List Draft
  timestamp : String
  timestamp_ne : timestamp ≠ ""

/-- `typeof raw === "object" && raw !== null ? raw : {}`, spread: the own properties of an array
are its items. -/
def recordFields : Json → List (String × Json)
  | .obj fields => fields
  | .arr items => items.zipIdx.map fun p => (toString p.2, p.1)
  | _ => []

/-- `value ?? fallback`. -/
def orElse : Option Json → String → Json
  | none, fallback | some .null, fallback => .str fallback
  | some value, _ => value

/-- The fields of the event that is written. -/
def preparedFields (seq : Nat) (timestamp : String) (draft : Draft) : List (String × Json) :=
  let record := recordFields draft.raw
  let withSeq := OrderedMap.setEntry "seq" (Json.nat seq) record
  let withId := OrderedMap.setEntry "eventId" (orElse (Json.field? "eventId" record) draft.uuid)
    withSeq
  let withVersion := OrderedMap.setEntry "schemaVersion" (Json.nat 1) withId
  OrderedMap.setEntry "timestamp" (orElse (Json.field? "timestamp" record) timestamp) withVersion

/-- The events of a batch as they are written, from a sequence number on. -/
def prepare (timestamp : String) : Nat → List Draft → List Json
  | _, [] => []
  | seq, draft :: drafts =>
    .obj (preparedFields seq timestamp draft) :: prepare timestamp (seq + 1) drafts

/-- The lines of a list of events. -/
def linesText (events : List Json) : List Char := events.flatMap fun event => event.text ++ ['\n']

/-- `ExecutionJournalAppendResult`. -/
structure AppendResult where
  seqFrom : Nat
  seqTo : Nat
  revision : Nat
  deriving DecidableEq, Repr

/-- The write of `appendBatch`, after the checks. -/
def Journal.writeBatch (journal : Journal) (disk : Disk) (events : List Json) :
    Except JournalError Unit × Journal :=
  match journal.storage with
  | .memory stored => (.ok (), { journal with storage := .memory (stored ++ events) })
  | .file filePath content =>
    let appended := content.getD [] ++ disk.written (linesText events)
    let journal' := { journal with storage := .file filePath (some appended) }
    match disk.cut with
    | none => (.ok (), journal')
    | some _ =>
      (.error ⟨.storageError, "Failed to append execution journal " ++ filePath⟩, journal')

/-- `appendBatch`. -/
def Journal.appendBatch (journal : Journal) (batch : Batch) (expectedRevision : Option ℚ)
    (disk : Disk) : Except JournalError AppendResult × Journal :=
  if expectedRevision.any (· ≠ (journal.revision : ℚ)) then
    (.error ⟨.revisionConflict, "Execution journal " ++ journal.path ++ ": expected revision " ++
      String.ofList (Json.numberText (expectedRevision.getD 0)) ++ ", found " ++
      toString journal.revision⟩, journal)
  else
    match journal.load disk with
    | .error e => (.error e, journal)
    | .ok loaded =>
      if loaded.truncatedTail then
        (.error (invalidJournal journal.path
          "journal tail is incomplete; call repairTail() before appending"), journal)
      else
        let seqFrom := loaded.events.length + 1
        let prepared := prepare batch.timestamp seqFrom batch.drafts
        if prepared.isEmpty then (.ok ⟨seqFrom, seqFrom - 1, journal.revision⟩, journal)
        else
          match journal.writeBatch disk prepared with
          | (.error e, journal') => (.error e, journal')
          | (.ok (), journal') =>
            let revision := seqFrom + prepared.length - 1
            (.ok ⟨seqFrom, revision, revision⟩, { journal' with revision })

/-! ## The other operations -/

/-- `event.seq > seq`. -/
def seqAfter (seq : ℚ) (event : Json) : Bool :=
  match event.get? "seq" with
  | some (.num n) => decide (seq < n)
  | _ => false

/-- `readAfter`. -/
def Journal.readAfter (journal : Journal) (seq : ℚ) (disk : Disk) :
    Except JournalError (List Json) := do
  let loaded ← journal.load disk
  .ok (loaded.events.filter (seqAfter seq))

/-- `ExecutionJournalInspection`. -/
structure Inspection where
  path : String
  present : Bool
  sessionId : String
  entryCount : Nat
  revision : Nat
  lastSeq : Option Json
  truncatedTail : Bool

/-- `inspect`. -/
def Journal.inspect (journal : Journal) (disk : Disk) : Except JournalError Inspection := do
  let loaded ← journal.load disk
  let lastSeq := match loaded.events.getLast? with
    | some event => event.get? "seq"
    | none => some (Json.nat 0)
  let inMemory := match journal.storage with
    | .memory _ => true
    | .file _ _ => false
  .ok {
    path := journal.path
    present := inMemory || !loaded.events.isEmpty || loaded.truncatedTail
    sessionId := journal.sessionId
    entryCount := loaded.events.length
    revision := loaded.events.length
    lastSeq := lastSeq
    truncatedTail := loaded.truncatedTail }

/-- `repairTail`. -/
def Journal.repairTail (journal : Journal) (disk : Disk) : Except JournalError Bool × Journal :=
  match journal.storage with
  | .memory _ => (.ok false, journal)
  | .file filePath content =>
    match readTextFile disk filePath content with
    | .error e => (.error e, journal)
    | .ok none => (.ok false, journal)
    | .ok (some content) =>
      match parseJournalFile content filePath with
      | .error e => (.error e, journal)
      | .ok loaded =>
        if !loaded.truncatedTail then (.ok false, journal)
        else
          -- `writeFile` truncates the file before it writes
          let repaired := disk.written (linesText loaded.events)
          let journal' := { journal with storage := .file filePath (some repaired) }
          match disk.cut with
          | some _ =>
            (.error ⟨.storageError, "Failed to repair execution journal " ++ filePath⟩, journal')
          | none => (.ok true, { journal' with revision := loaded.events.length })

/-! ## The transition system -/

/-- The operations on a journal. -/
inductive Operation
  | appendBatch (batch : Batch) (expectedRevision : Option ℚ) (disk : Disk)
  | readAfter (seq : ℚ) (disk : Disk)
  | inspect (disk : Disk)
  | repairTail (disk : Disk)

/-- The journal after an operation. -/
def Journal.step (journal : Journal) : Operation → Journal
  | .appendBatch batch expectedRevision disk =>
    (journal.appendBatch batch expectedRevision disk).2
  | .readAfter _ _ => journal
  | .inspect _ => journal
  | .repairTail disk => (journal.repairTail disk).2

end BeauPi.Execution
