import BeauPi.Execution.Recovery

/-!
# The persistence coordinator

`harness/session/persistence-coordinator.ts`: a log of events in a file, one JSON text a line, and
its counterpart in memory.  The operations of each are serialized, so both go from state to state
by whole operations.

* `Value`, `Raw` — what may be appended: any JavaScript value.
* `parseJournalLine`, `parseJournalFile` — what is read back from a file.
* `Coordinator.appendBatch`, `readAfter`, `inspect`, `repairTail` — `PersistenceCoordinator`.
* `Memory.appendBatch`, `readAfter`, `inspect`, `repairTail` — `createMemoryPersistence`.

The file system works; a file that does not exist is `none`.
-/

namespace BeauPi.Persistence

open Machine
open Execution (Loaded isObject isPositiveInteger isNonEmptyString isBlank linesText)

/-! ## Values -/

/-- What `JSON.stringify` makes of a value. -/
inductive Shown
  | omitted
  | text (value : Json)
  | throws
  deriving DecidableEq

/-- The value of a field. -/
inductive Value
  | undefined
  /-- A value that a JSON text and `structuredClone` both give back. -/
  | json (value : Json)
  /-- Any other value, under a name, with what `JSON.stringify` makes of it; `structuredClone`
  throws unless it is cloneable. -/
  | other (name : String) (shown : Shown) (cloneable : Bool)
  deriving DecidableEq

/-- The own properties of an object, in order. -/
abbrev Event := List (String × Value)

/-- What `JSON.stringify` makes of a field. -/
def Value.shown : Value → Shown
  | .undefined => .omitted
  | .json value => .text value
  | .other _ shown _ => shown

/-- Does `structuredClone` give the value back? -/
def Value.cloneable : Value → Bool
  | .other _ _ cloneable => cloneable
  | _ => true

/-- The fields of `JSON.stringify(event)`; `none` if it throws. -/
def shownFields : Event → Option (List (String × Json))
  | [] => some []
  | (key, value) :: rest =>
    match value.shown with
    | .omitted => shownFields rest
    | .text json => (shownFields rest).map ((key, json) :: ·)
    | .throws => none

/-- An event that is read from a line. -/
def eventOf : Json → Event
  | .obj fields => fields.map fun field => (field.1, .json field.2)
  | _ => []

/-- An argument of `appendBatch`. -/
inductive Raw
  /-- A value of type `"object"` other than `null`; the properties of an array are its items. -/
  | object (fields : Event)
  | callable (fields : Event)
  | str (s : String)
  /-- `null`, `undefined`, a boolean, a number, a bigint or a symbol. -/
  | plain

/-- The own properties other than the characters of a string. -/
def Raw.fields : Raw → Event
  | .object fields => fields
  | .callable fields => fields
  | _ => []

/-- `typeof event === "object" && event !== null ? event : {}` -/
def Raw.record : Raw → Event
  | .object fields => fields
  | _ => []

/-- `{ ...event }` -/
def Raw.spread : Raw → Event
  | .str s => s.toList.zipIdx.map fun p => (toString p.2, .json (.str (String.singleton p.1)))
  | raw => raw.fields

/-- The values of fields are values of the language. -/
structure WellFormed (fields : Event) : Prop where
  nodup : (fields.map Prod.fst).Nodup
  values : ∀ key value, (key, Value.json value) ∈ fields → value.wellFormed = true

/-- An event that is appended, with the identifier that `uuidv7` draws for it. -/
structure Draft where
  raw : Raw
  uuid : String
  raw_wellFormed : WellFormed raw.fields
  uuid_ne : uuid ≠ ""

/-- A batch of events, with the time at which it is appended. -/
structure Batch where
  drafts : List Draft
  timestamp : String
  timestamp_ne : timestamp ≠ ""

/-- `value ?? fallback` -/
def orElse : Option Value → String → Value
  | none, fallback | some .undefined, fallback | some (.json .null), fallback =>
    .json (.str fallback)
  | some value, _ => value

/-- The event that is stored for a record with these own properties. -/
def numbered (seq : Nat) (uuid timestamp : String) (record spread : Event) : Event :=
  let withSeq := OrderedMap.setEntry "seq" (.json (Json.nat seq)) spread
  let withId := OrderedMap.setEntry "eventId"
    (orElse (OrderedMap.getEntry "eventId" record) uuid) withSeq
  let withVersion := OrderedMap.setEntry "schemaVersion" (.json (Json.nat 1)) withId
  OrderedMap.setEntry "timestamp" (orElse (OrderedMap.getEntry "timestamp" record) timestamp)
    withVersion

/-! ## Results -/

/-- What an operation throws. -/
inductive Failure
  /-- A `SessionError` with its code. -/
  | session (code message : String)
  /-- An error of `JSON.stringify` or `structuredClone`. -/
  | value
  deriving DecidableEq

/-- `PersistenceAppendResult` -/
structure PersistenceAppendResult where
  seqFrom : Nat
  seqTo : Nat
  revision : Nat
  deriving DecidableEq, Repr

/-- `PersistenceInspection` -/
structure PersistenceInspection where
  path : String
  present : Bool
  sessionId : Option String
  entryCount : Nat
  revision : Nat
  lastSeq : Option Value
  truncatedTail : Bool

/-- `event.seq > seq` -/
def seqAfter (seq : ℚ) (event : Event) : Bool :=
  match OrderedMap.getEntry "seq" event with
  | some (.json (.num n)) => decide (seq < n)
  | _ => false

/-- `events.length > 0 ? events[events.length - 1]!.seq : 0` -/
def lastSeq (events : List Event) : Option Value :=
  match events.getLast? with
  | some event => OrderedMap.getEntry "seq" event
  | none => some (.json (Json.nat 0))

/-- `events.map((event) => structuredClone(event))` -/
def clones (events : List Event) : Except Failure (List Event) :=
  if events.all fun event => event.all fun field => field.2.cloneable then .ok events
  else .error .value

/-! ## Reading a file -/

/-- `invalidJournal` -/
def invalidJournal (filePath message : String) : Failure :=
  .session "invalid_entry" ("Invalid execution journal " ++ filePath ++ ": " ++ message)

/-- `parseJournalLine` -/
def parseJournalLine (line : List Char) (filePath : String) : Except Failure Json :=
  match Json.parse (String.ofList line) with
  | none => .error (invalidJournal filePath "line is not valid JSON")
  | some event =>
    if !isObject event then .error (invalidJournal filePath "line is not a journal event")
    else if !isPositiveInteger (event.get? "seq") then
      .error (invalidJournal filePath "event is missing an integer seq")
    else if !isNonEmptyString (event.get? "eventId") then
      .error (invalidJournal filePath "event is missing eventId")
    else if !isNonEmptyString (event.get? "timestamp") then
      .error (invalidJournal filePath "event is missing timestamp")
    else .ok event

/-- The loop of `parseJournalFile` over the lines that are left; `terminated` says that the content
ends with a newline. -/
def parseLines (filePath : String) (terminated : Bool) : List (List Char) → Except Failure Loaded
  | [] => .ok ⟨[], false⟩
  | line :: rest =>
    if isBlank line then parseLines filePath terminated rest
    else if rest.isEmpty && !terminated then
      match parseJournalLine line filePath with
      | .ok event => .ok ⟨[event], false⟩
      | .error _ => .ok ⟨[], true⟩
    else do
      let event ← parseJournalLine line filePath
      let loaded ← parseLines filePath terminated rest
      .ok ⟨event :: loaded.events, loaded.truncatedTail⟩

/-- `parseJournalFile` -/
def parseJournalFile (content : List Char) (filePath : String) : Except Failure Loaded :=
  parseLines filePath (decide (content.getLast? = some '\n')) (content.splitOn '\n')

/-! ## The coordinator -/

/-- `PersistenceCoordinator`, with the file that it works on. -/
structure Coordinator where
  filePath : String
  sessionId : String
  content : Option (List Char)
  revision : Nat
  deriving DecidableEq

/-- The constructor, on a file as earlier coordinators have left it. -/
def Coordinator.open (filePath sessionId : String) (content : Option (List Char)) : Coordinator :=
  ⟨filePath, sessionId, content, 0⟩

/-- `load` -/
def Coordinator.load (c : Coordinator) : Except Failure Loaded :=
  match c.content with
  | none => .ok ⟨[], false⟩
  | some content => parseJournalFile content c.filePath

/-- The events of a batch as the coordinator prepares them, from a sequence number on. -/
def prepare (timestamp : String) : Nat → List Draft → List Event
  | _, [] => []
  | seq, draft :: drafts =>
    numbered seq draft.uuid timestamp draft.raw.record draft.raw.record ::
      prepare timestamp (seq + 1) drafts

/-- `appendBatch` -/
def Coordinator.appendBatch (c : Coordinator) (batch : Batch) (expectedRevision : Option ℚ) :
    Except Failure PersistenceAppendResult × Coordinator :=
  if expectedRevision.any (· ≠ (c.revision : ℚ)) then
    (.error (.session "invalid_entry" ("Execution journal " ++ c.filePath ++
      ": expected revision " ++ String.ofList (Json.numberText (expectedRevision.getD 0)) ++
      ", found " ++ toString c.revision)), c)
  else
    match c.load with
    | .error e => (.error e, c)
    | .ok loaded =>
      if loaded.truncatedTail then
        (.error (invalidJournal c.filePath
          "journal tail is incomplete; call repairTail() before appending"), c)
      else
        let seqFrom := loaded.events.length + 1
        let prepared := prepare batch.timestamp seqFrom batch.drafts
        if prepared.isEmpty then (.ok ⟨seqFrom, seqFrom - 1, c.revision⟩, c)
        else
          match prepared.mapM shownFields with
          | none => (.error .value, c)
          | some events =>
            let revision := seqFrom + prepared.length - 1
            (.ok ⟨seqFrom, revision, revision⟩, { c with
              content := some (c.content.getD [] ++ linesText (events.map Json.obj))
              revision := revision })

/-- `readAfter` -/
def Coordinator.readAfter (c : Coordinator) (seq : ℚ) : Except Failure (List Event) := do
  let loaded ← c.load
  clones ((loaded.events.map eventOf).filter (seqAfter seq))

/-- `inspect` -/
def Coordinator.inspect (c : Coordinator) : Except Failure PersistenceInspection := do
  let loaded ← c.load
  .ok {
    path := c.filePath
    present := !loaded.events.isEmpty || loaded.truncatedTail
    sessionId := some c.sessionId
    entryCount := loaded.events.length
    revision := loaded.events.length
    lastSeq := lastSeq (loaded.events.map eventOf)
    truncatedTail := loaded.truncatedTail }

/-- `repairTail` -/
def Coordinator.repairTail (c : Coordinator) : Except Failure Bool × Coordinator :=
  match c.content with
  | none => (.ok false, c)
  | some content =>
    match parseJournalFile content c.filePath with
    | .error e => (.error e, c)
    | .ok loaded =>
      if !loaded.truncatedTail then (.ok false, c)
      else (.ok true, { c with
        content := some (linesText loaded.events)
        revision := loaded.events.length })

/-! ## The backend in memory -/

/-- The events of `createMemoryPersistence`. -/
structure Memory where
  events : List Event
  deriving DecidableEq

/-- The events that are pushed for a batch, from a sequence number on. -/
def pushed (timestamp : String) : Nat → List Draft → List Event
  | _, [] => []
  | seq, draft :: drafts =>
    numbered seq draft.uuid timestamp draft.raw.fields draft.raw.spread ::
      pushed timestamp (seq + 1) drafts

/-- `appendBatch` -/
def Memory.appendBatch (m : Memory) (batch : Batch) (expectedRevision : Option ℚ) :
    Except Failure PersistenceAppendResult × Memory :=
  if expectedRevision.any (· ≠ (m.events.length : ℚ)) then
    (.error (.session "invalid_entry" ("Expected revision " ++
      String.ofList (Json.numberText (expectedRevision.getD 0)) ++ ", found " ++
      toString m.events.length)), m)
  else
    let seqFrom := m.events.length + 1
    let events := m.events ++ pushed batch.timestamp seqFrom batch.drafts
    (.ok ⟨seqFrom, seqFrom + batch.drafts.length - 1, events.length⟩, ⟨events⟩)

/-- `readAfter` -/
def Memory.readAfter (m : Memory) (seq : ℚ) : Except Failure (List Event) :=
  clones (m.events.filter (seqAfter seq))

/-- `inspect` -/
def Memory.inspect (m : Memory) : PersistenceInspection where
  path := "<memory>"
  present := true
  sessionId := none
  entryCount := m.events.length
  revision := m.events.length
  lastSeq := lastSeq m.events
  truncatedTail := false

/-- `repairTail` -/
def Memory.repairTail (_ : Memory) : Bool := false

end BeauPi.Persistence
