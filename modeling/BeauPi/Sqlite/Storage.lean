import BeauPi.Harness.Session

/-!
# The SQLite session storage

`SqliteSessionStorage`: one session in the tables of a database, with what the storage keeps in
memory beside them.  The statements of a transaction are made one after the other, and any of them
may fail.

* `Database`, `Memory` — the rows of the session, and the fields of the storage.
* `MaterializedState.apply` — `applyEntryToMaterializedState`.
* `Statement`, `Statement.step` — the statements of the transaction of `appendEntry`.

The payload of a row is taken as the entry itself.
-/

namespace BeauPi.Sqlite

open Llm Sessions Machine
open Harness (TreeEntry TreeBody EntryMap leafIdAfterEntry stopAfter)

/-! ## Tables -/

/-- A row of `session_entries`. -/
structure EntryRow where
  entry : TreeEntry
  entrySeq : Nat
  deriving DecidableEq

/-- A row of `branch_entries`. -/
structure BranchRow where
  branchId : String
  entryId : String
  entrySeq : Nat
  deriving DecidableEq

/-- A row of `entry_materialized`; only labels have one. -/
structure LabelRow where
  entrySeq : Nat
  targetId : String
  label : Option String
  deriving DecidableEq

/-- `SessionMaterializedSummary`, the payload of `session_materialized`. -/
structure Summary where
  name : Option String
  messageCount : Nat
  cachedTokens : Nat
  uncachedTokens : Nat
  totalTokens : Nat
  costTotal : ℚ
  currentModel : Option ModelRef
  currentThinkingLevel : Option String
  deriving DecidableEq

/-- The rows of one session, in the order in which they were inserted. -/
structure Database where
  entries : List EntryRow
  nextSeq : Nat
  activeLeafId : Option String
  summary : Summary
  labels : List LabelRow
  branchEntries : List BranchRow
  deriving DecidableEq

/-- The row of an entry. -/
def Database.row? (db : Database) (id : String) : Option EntryRow :=
  db.entries.find? fun row => row.entry.id = id

/-! ## Materialized state -/

/-- `SessionMaterializedState`. -/
structure MaterializedState where
  summary : Summary
  labelsById : OrderedMap String String

/-- `value?.trim() || undefined` -/
def trimmed (value : Option String) : Option String :=
  let text := Js.trim (value.getD "")
  if text = "" then none else some text

/-- `isThinkingLevel` -/
def isThinkingLevel (value : String) : Bool :=
  ["off", "minimal", "low", "medium", "high", "xhigh"].contains value

/-- Adds the tokens and costs of a response. -/
def Summary.addUsage (s : Summary) (usage : Usage) : Summary :=
  { s with
    cachedTokens := s.cachedTokens + usage.cacheRead
    uncachedTokens := s.uncachedTokens + (usage.input + usage.cacheWrite)
    totalTokens := s.totalTokens + (usage.input + usage.output + usage.cacheRead +
      usage.cacheWrite)
    costTotal := s.costTotal + usage.cost.total }

/-- `createEmptyMaterializedState` -/
def createEmptyMaterializedState : MaterializedState :=
  ⟨⟨none, 0, 0, 0, 0, 0, none, none⟩, .empty⟩

/-- The summary after an entry. -/
def Summary.apply (s : Summary) (entry : TreeEntry) : Summary :=
  match entry.body with
  | .sessionInfo name => { s with name := trimmed name }
  | .modelChange provider modelId => { s with currentModel := some ⟨provider, modelId⟩ }
  | .thinkingLevelChange level =>
    if isThinkingLevel level then { s with currentThinkingLevel := some level } else s
  | .message message =>
    let counted := { s with messageCount := s.messageCount + 1 }
    match message with
    | .assistant m => { counted.addUsage m.usage with currentModel := some ⟨m.provider, m.model⟩ }
    | _ => counted
  | .compaction data => (data.usage.map s.addUsage).getD s
  | .branchSummary data => (data.usage.map s.addUsage).getD s
  | _ => s

/-- `applyEntryToMaterializedState` -/
def MaterializedState.apply (state : MaterializedState) (entry : TreeEntry) :
    MaterializedState where
  summary := state.summary.apply entry
  labelsById :=
    match entry.body with
    | .label targetId label =>
      match trimmed label with
      | some text => state.labelsById.set targetId text
      | none => state.labelsById.delete targetId
    | _ => state.labelsById

/-! ## The storage -/

/-- The fields of `SqliteSessionStorage`; `labelsById` is that of the materialized state. -/
structure Memory where
  byId : EntryMap
  currentLeafId : Option String
  activeBranchId : Option String
  materializedState : MaterializedState

/-- The tables and the fields of a storage. -/
structure SqliteStorage where
  sessionId : String
  db : Database
  memory : Memory

/-- `SqliteSessionStorage.create` -/
def SqliteStorage.create (sessionId : String) : SqliteStorage where
  sessionId := sessionId
  db := ⟨[], 1, none, createEmptyMaterializedState.summary, [], []⟩
  memory := ⟨.empty, none, none, createEmptyMaterializedState⟩

/-- What the storage throws. -/
inductive StorageError
  | notFound (message : String)
  | invalidSession (message : String)
  | invalidEntry (message : String)
  /-- A statement fails. -/
  | storage (message : String)
  deriving DecidableEq

/-- `invalidSession` -/
def invalidSession (message : String) : StorageError :=
  .invalidSession ("Invalid SQLite session: " ++ message)

/-- `invalidEntry` -/
def invalidEntry (message : String) : StorageError :=
  .invalidEntry ("Invalid SQLite session entry: " ++ message)

/-- `validateSessionTreeEntry`, for what the types of an entry leave open. -/
def validateSessionTreeEntry (entry : TreeEntry) : Except StorageError Unit :=
  if entry.id = "" then .error (invalidEntry "entry is missing id")
  else if entry.timestamp = "" then
    .error (invalidEntry ("entry " ++ entry.id ++ " is missing timestamp"))
  else
    match entry.body with
    | .compaction data =>
      if data.firstKeptEntryId.isNone then
        .error (invalidEntry ("entry " ++ entry.id ++ " has invalid compaction payload"))
      else .ok ()
    | _ => .ok ()

/-- `getEntry`, with the entry in the index afterwards. -/
def SqliteStorage.getEntry (s : SqliteStorage) (id : String) : Option TreeEntry × SqliteStorage :=
  match s.memory.byId.get? id with
  | some entry => (some entry, s)
  | none =>
    match s.db.row? id with
    | some row =>
      (some row.entry, { s with memory := { s.memory with byId := s.memory.byId.set id row.entry } })
    | none => (none, s)

/-! ## The transaction of `appendEntry` -/

/-- The statement that is made next, and what the statements before it have found. -/
inductive Statement
  /-- `hasExistingChild` -/
  | checking
  /-- `getNextSequence` -/
  | sequencing (hadChild : Bool)
  /-- `INSERT INTO session_entries` -/
  | inserting (hadChild : Bool) (seq : Nat)
  /-- `advanceSequence` -/
  | advancing (hadChild : Bool) (seq : Nat)
  /-- `UPDATE session_materialized` -/
  | summarizing (hadChild : Bool) (seq : Nat)
  /-- `INSERT INTO entry_materialized` -/
  | labelling (hadChild : Bool) (row : LabelRow)
  /-- `UPDATE sessions`, after the fields of the storage are set -/
  | activating (hadChild : Bool)
  /-- `materializeBranch`: the entry of an id on the way of `getPathToRootOrCompactionEntries`, with
  the later entries of the path. -/
  | walking (path : List TreeEntry) (stopAtEntryId : Option String) (id : String)
  /-- `loadEntryRowsByIds` -/
  | loading (path : List TreeEntry)
  /-- `INSERT INTO branch_entries`, for the entries of a path -/
  | branching (branchId : String) (rows : List EntryRow)
  /-- `SELECT entry_seq FROM session_entries` -/
  | locating
  /-- `INSERT INTO branch_entries`, for the new entry -/
  | extending (branchId : String) (seq : Nat)
  /-- `COMMIT` -/
  | committing
  deriving DecidableEq

/-- What the database answers; a new branch gets this id. -/
inductive Answer
  | ok (branchId : String)
  /-- The statement fails. -/
  | fails
  deriving DecidableEq

/-- How far the transaction has come. -/
inductive Outcome
  | next (statement : Statement)
  | committed
  | threw (error : StorageError)
  deriving DecidableEq

/-- `SELECT 1 … WHERE parent_id` -/
def Database.hasExistingChild (db : Database) (parentId : Option String) : Bool :=
  db.entries.any fun row => row.entry.parentId = parentId

/-- The row of `entry_materialized` for an entry, if it has one. -/
def entryMaterializedValues (seq : Nat) (entry : TreeEntry) : Option LabelRow :=
  match entry.body with
  | .label targetId label => some ⟨seq, targetId, label⟩
  | _ => none

/-- `materializeBranch` up to its first statement. -/
def materializeBranch (leafId : Option String) : Outcome :=
  match leafId with
  | none => .next (.loading [])
  | some id => .next (.walking [] none id)

/-- `appendToActiveBranch` up to its first statement. -/
def SqliteStorage.appendToActiveBranch (s : SqliteStorage) (entry : TreeEntry) : Outcome :=
  match s.memory.activeBranchId with
  | some _ => .next .locating
  | none => materializeBranch entry.parentId

/-- The error of a statement that fails. -/
def failedAppend (entry : TreeEntry) : StorageError :=
  .storage ("Failed to append SQLite session entry " ++ entry.id)

/-- The fields that are set before `UPDATE sessions`. -/
def SqliteStorage.activate (s : SqliteStorage) (entry : TreeEntry) : SqliteStorage :=
  { s with memory := { s.memory with
    byId := s.memory.byId.set entry.id entry
    currentLeafId := leafIdAfterEntry entry } }

/-- The statement after the summary, or after the label, is written. -/
def afterSummary (hadChild : Bool) (seq : Nat) (entry : TreeEntry) : Statement :=
  match entryMaterializedValues seq entry with
  | some row => .labelling hadChild row
  | none => .activating hadChild

/-- The insertion of a row into `branch_entries`; its key is the branch and the entry. -/
def SqliteStorage.insertBranchRow (s : SqliteStorage) (row : BranchRow) : Option SqliteStorage :=
  if s.db.branchEntries.any fun other =>
      other.branchId = row.branchId ∧ other.entryId = row.entryId then none
  else some { s with db := { s.db with branchEntries := s.db.branchEntries ++ [row] } }

/-- The branch is complete, and the new entry follows it. -/
def SqliteStorage.setActiveBranch (s : SqliteStorage) (branchId : String) : SqliteStorage :=
  { s with memory := { s.memory with activeBranchId := some branchId } }

/-- The next row of a branch that is materialized, or its end. -/
def SqliteStorage.branch (s : SqliteStorage) (branchId : String) (rows : List EntryRow) :
    SqliteStorage × Outcome :=
  match rows with
  | [] => (s.setActiveBranch branchId, .next .locating)
  | _ => (s, .next (.branching branchId rows))

/-- The error of a row that is not found. -/
def SqliteStorage.missingRow (s : SqliteStorage) (id : String) : StorageError :=
  invalidSession ("missing entry row for session " ++ s.sessionId ++ " entry " ++ id)

/-- The rows of the entries of a path, or the first entry without one. -/
def Database.rowsOf (db : Database) : List TreeEntry → Except String (List EntryRow)
  | [] => .ok []
  | current :: rest =>
    match db.row? current.id with
    | none => .error current.id
    | some row => (db.rowsOf rest).map (row :: ·)

/-- The rows of an answered statement, and the code up to the next one. -/
def Statement.answered (s : SqliteStorage) (entry : TreeEntry) (newBranchId : String) :
    Statement → SqliteStorage × Outcome
  | .checking => (s, .next (.sequencing (s.db.hasExistingChild entry.parentId)))
  | .sequencing hadChild => (s, .next (.inserting hadChild s.db.nextSeq))
  | .inserting hadChild seq =>
    if s.db.entries.any fun row => row.entry.id = entry.id ∨ row.entrySeq = seq then
      (s, .threw (failedAppend entry))
    else ({ s with db := { s.db with entries := s.db.entries ++ [⟨entry, seq⟩] } },
      .next (.advancing hadChild seq))
  | .advancing hadChild seq =>
    ({ s with db := { s.db with nextSeq := seq + 1 } }, .next (.summarizing hadChild seq))
  | .summarizing hadChild seq =>
    ({ s with db := { s.db with summary := s.memory.materializedState.summary } },
      .next (afterSummary hadChild seq entry))
  | .labelling hadChild row =>
    if s.db.labels.any fun other => other.entrySeq = row.entrySeq then
      (s, .threw (failedAppend entry))
    else ({ s with db := { s.db with labels := s.db.labels ++ [row] } },
      .next (.activating hadChild))
  | .activating hadChild =>
    let s := s.activate entry
    let s := { s with db := { s.db with activeLeafId := s.memory.currentLeafId } }
    match entry.body with
    | .leaf targetId =>
      ({ s with memory := { s.memory with activeBranchId := none } }, materializeBranch targetId)
    | _ => (s, if hadChild then materializeBranch entry.parentId else s.appendToActiveBranch entry)
  | .walking path stopAtEntryId id =>
    match s.getEntry id with
    | (none, s) =>
      let message := "Entry " ++ id ++ " not found"
      (s, .threw (if path.isEmpty then .notFound message else .invalidSession message))
    | (some current, s) =>
      let path := current :: path
      let parentId := current.parentId.getD ""
      if stopAtEntryId = some current.id then (s, .next (.loading path))
      else if (current.compaction?.bind (·.retainedTail)).isSome then (s, .next (.loading path))
      else if parentId = "" then (s, .next (.loading path))
      else (s, .next (.walking path (stopAfter stopAtEntryId current) parentId))
  | .loading path =>
    match s.db.rowsOf path with
    | .ok rows => s.branch newBranchId rows
    | .error id => (s, .threw (s.missingRow id))
  | .branching branchId rows =>
    match rows with
    | [] => s.branch branchId []
    | row :: rows =>
      match s.insertBranchRow ⟨branchId, row.entry.id, row.entrySeq⟩ with
      | none => (s, .threw (failedAppend entry))
      | some s => s.branch branchId rows
  | .locating =>
    match s.memory.activeBranchId, s.db.row? entry.id with
    | none, _ => (s, .threw (invalidSession ("active branch missing for session " ++ s.sessionId)))
    | some _, none => (s, .threw (s.missingRow entry.id))
    | some branchId, some row => (s, .next (.extending branchId row.entrySeq))
  | .extending branchId seq =>
    match s.insertBranchRow ⟨branchId, entry.id, seq⟩ with
    | none => (s, .threw (failedAppend entry))
    | some s => (s, .next .committing)
  | .committing => (s, .committed)

/-- A statement and the code up to the next one.  The fields of the storage are set before
`UPDATE sessions` is made. -/
def Statement.step (s : SqliteStorage) (entry : TreeEntry) (answer : Answer)
    (statement : Statement) : SqliteStorage × Outcome :=
  match answer with
  | .ok newBranchId => statement.answered s entry newBranchId
  | .fails =>
    match statement with
    | .activating _ => (s.activate entry, .threw (failedAppend entry))
    | _ => (s, .threw (failedAppend entry))

/-- The synchronous part of `appendEntry` before `BEGIN`. -/
def SqliteStorage.applyEntry (s : SqliteStorage) (entry : TreeEntry) : SqliteStorage :=
  { s with memory := { s.memory with
    materializedState := s.memory.materializedState.apply entry } }

end BeauPi.Sqlite
