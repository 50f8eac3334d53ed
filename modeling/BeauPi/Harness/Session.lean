import BeauPi.Compaction.Compact

/-!
# Sessions of the agent harness

* `TreeEntry` — one node of a harness session.
* `Storage` — the entries, their index, the labels and the leaf, in memory or behind a file.
* `getPathToRootOrCompaction` — the way from a leaf to the root or to the latest checkpoint.
* `buildSessionContext` — what a model is shown of that way.
-/

namespace BeauPi.Harness

open Llm Sessions Machine

/-! ## Entries -/

/-- The fields of a `CompactionEntry`. -/
structure CompactionData where
  summary : String
  firstKeptEntryId : Option String
  tokensBefore : Nat
  retainedTail : Option (List AgentMessage)
  details : Option Json
  usage : Option Usage
  fromHook : Option Bool
  deriving DecidableEq, Repr

/-- What an entry says, by its `type`. -/
inductive TreeBody
  | message (message : AgentMessage)
  | thinkingLevelChange (thinkingLevel : String)
  | modelChange (provider modelId : String)
  | activeToolsChange (activeToolNames : List String)
  | compaction (data : CompactionData)
  | branchSummary (data : BranchSummaryData)
  | custom (customType : String) (data : Option Json)
  | customMessage (customType : String) (content : Content) (details : Option Json)
      (display : Bool)
  | label (targetId : String) (label : Option String)
  | sessionInfo (name : Option String)
  | leaf (targetId : Option String)
  deriving DecidableEq, Repr

/-- `SessionTreeEntry` -/
structure TreeEntry where
  id : String
  parentId : Option String
  timestamp : String
  body : TreeBody
  deriving DecidableEq, Repr

/-- The fields of a compaction entry. -/
def TreeEntry.compaction? (entry : TreeEntry) : Option CompactionData :=
  match entry.body with
  | .compaction data => some data
  | _ => none

/-- `entry.type === "compaction"` -/
def TreeEntry.isCompaction (entry : TreeEntry) : Bool := entry.compaction?.isSome

/-- `entry.type === "message"` -/
def TreeEntry.message? (entry : TreeEntry) : Option AgentMessage :=
  match entry.body with
  | .message m => some m
  | _ => none

/-- The error that a session function throws. -/
inductive SessionError
  | notFound (message : String)
  | invalidSession (message : String)
  /-- The parents form a cycle and the walk never ends. -/
  | endless
  deriving DecidableEq, Repr

/-! ## Storage -/

/-- `Map<string, SessionTreeEntry>` -/
abbrev EntryMap := OrderedMap String TreeEntry

/-- The state that `InMemorySessionStorage` and `JsonlSessionStorage` have in common; the latter
also writes each appended entry to its file. -/
structure Storage where
  entries : List TreeEntry
  byId : EntryMap
  labelsById : OrderedMap String String
  leafId : Option String

/-- `updateLabelCache` -/
def updateLabelCache (labelsById : OrderedMap String String) (entry : TreeEntry) :
    OrderedMap String String :=
  match entry.body with
  | .label targetId label =>
    let label := Js.trim (label.getD "")
    if label = "" then labelsById.delete targetId else labelsById.set targetId label
  | _ => labelsById

/-- `buildLabelsById` -/
def buildLabelsById (entries : List TreeEntry) : OrderedMap String String :=
  entries.foldl updateLabelCache .empty

/-- `new Map(entries.map((entry) => [entry.id, entry]))` -/
def indexOf (entries : List TreeEntry) : EntryMap :=
  entries.foldl (fun byId entry => byId.set entry.id entry) .empty

/-- `leafIdAfterEntry` -/
def leafIdAfterEntry (entry : TreeEntry) : Option String :=
  match entry.body with
  | .leaf targetId => targetId
  | _ => some entry.id

/-- The storage made from the entries of a session. -/
def Storage.ofEntries (entries : List TreeEntry) : Storage where
  entries := entries
  byId := indexOf entries
  labelsById := buildLabelsById entries
  leafId := entries.foldl (fun _ entry => leafIdAfterEntry entry) none

/-- `getLeafId` -/
def Storage.getLeafId (s : Storage) : Except SessionError (Option String) :=
  match s.leafId with
  | none => .ok none
  | some id =>
    if s.byId.has id then .ok (some id)
    else .error (.invalidSession ("Entry " ++ id ++ " not found"))

/-- `appendEntry` -/
def Storage.appendEntry (s : Storage) (entry : TreeEntry) : Storage where
  entries := s.entries ++ [entry]
  byId := s.byId.set entry.id entry
  labelsById := updateLabelCache s.labelsById entry
  leafId := leafIdAfterEntry entry

/-- `setLeafId`; `id` is what `generateEntryId` returns. -/
def Storage.setLeafId (s : Storage) (id timestamp : String) (leafId : Option String) :
    Except SessionError Storage :=
  match leafId with
  | some target =>
    if s.byId.has target then .ok (moved s) else
      .error (.notFound ("Entry " ++ target ++ " not found"))
  | none => .ok (moved s)
where
  moved (s : Storage) : Storage :=
    let entry : TreeEntry := ⟨id, s.leafId, timestamp, .leaf leafId⟩
    { s with entries := s.entries ++ [entry], byId := s.byId.set id entry, leafId := leafId }

/-! ## The way to the root or the latest checkpoint -/

/-- A compaction without a retained tail sets where the walk stops. -/
def stopAfter (stopAtEntryId : Option String) (current : TreeEntry) : Option String :=
  match current.compaction? with
  | some data => data.firstKeptEntryId
  | none => stopAtEntryId

/-- The loop of `getPathToRootOrCompaction`, latest entry first. -/
def walkBack (byId : EntryMap) : Nat → Option String → TreeEntry →
    Except SessionError (List TreeEntry)
  | 0, _, _ => .error .endless
  | fuel + 1, stopAtEntryId, current =>
    if stopAtEntryId = some current.id then .ok [current]
    else if (current.compaction?.bind (·.retainedTail)).isSome then .ok [current]
    else
      let parentId := current.parentId.getD ""
      if parentId = "" then .ok [current]
      else
        match byId.get? parentId with
        | none => .error (.invalidSession ("Entry " ++ parentId ++ " not found"))
        | some parent =>
          (walkBack byId fuel (stopAfter stopAtEntryId current) parent).map (current :: ·)

/-- `getPathToRootOrCompaction` -/
def Storage.getPathToRootOrCompaction (s : Storage) (leafId : Option String) :
    Except SessionError (List TreeEntry) :=
  match leafId with
  | none => .ok []
  | some id =>
    match s.byId.get? id with
    | none => .error (.notFound ("Entry " ++ id ++ " not found"))
    | some current => (walkBack s.byId (s.byId.size + 1) none current).map List.reverse

/-- `Session.getBranch` without an argument. -/
def Storage.getBranch (s : Storage) : Except SessionError (List TreeEntry) := do
  let leafId ← s.getLeafId
  s.getPathToRootOrCompaction leafId

/-! ## The context -/

/-- `SessionContext` without its messages. -/
structure ContextState where
  thinkingLevel : String
  model : Option ModelRef
  activeToolNames : Option (List String)
  deriving DecidableEq, Repr

/-- The state that no entry has changed. -/
def ContextState.initial : ContextState := ⟨"off", none, none⟩

/-- What one entry does to the state. -/
def ContextState.apply (state : ContextState) (entry : TreeEntry) : ContextState :=
  match entry.body with
  | .thinkingLevelChange level => { state with thinkingLevel := level }
  | .modelChange provider modelId => { state with model := some ⟨provider, modelId⟩ }
  | .message (.assistant m) => { state with model := some ⟨m.provider, m.model⟩ }
  | .activeToolsChange names => { state with activeToolNames := some names }
  | _ => state

/-- `deriveSessionContextState` -/
def deriveSessionContextState (pathEntries : List TreeEntry) : ContextState :=
  pathEntries.foldl ContextState.apply .initial

/-- The latest compaction entry of a path. -/
def lastCompaction? (pathEntries : List TreeEntry) : Option (TreeEntry × CompactionData) :=
  pathEntries.reverse.findSome? fun entry => entry.compaction?.map fun data => (entry, data)

/-- The entries from the first one with a given id on; `none` and the empty id keep nothing. -/
def keptFrom (firstKeptEntryId : Option String) (entries : List TreeEntry) : List TreeEntry :=
  let id := firstKeptEntryId.getD ""
  if id = "" then [] else entries.dropWhile (·.id ≠ id)

/-- `defaultContextEntryTransform` -/
def defaultContextEntryTransform (pathEntries : List TreeEntry) : List TreeEntry :=
  match lastCompaction? pathEntries with
  | none => pathEntries
  | some (compaction, data) =>
    let compactionIdx := pathEntries.findIdx fun entry =>
      entry.isCompaction && entry.id = compaction.id
    let kept := if data.retainedTail.isSome then []
      else keptFrom data.firstKeptEntryId (pathEntries.take compactionIdx)
    compaction :: (kept ++ pathEntries.drop (compactionIdx + 1))

/-- `CustomEntryContextMessageProjector`, on the entry, its index and all entries. -/
abbrev Projector := TreeEntry → Nat → List TreeEntry → Option (List AgentMessage)

/-- `SessionContextBuildOptions.entryProjectors` -/
abbrev Projectors := String → Option Projector

/-- `sessionEntryToContextMessages` -/
def sessionEntryToContextMessages (projectors : Projectors) (entries : List TreeEntry)
    (entry : TreeEntry) (index : Nat) : List AgentMessage :=
  match entry.body with
  | .message m => [m]
  | .customMessage customType content details display =>
    [createCustomMessage customType content display details entry.timestamp]
  | .compaction data =>
    createCompactionSummaryMessage data.summary data.tokensBefore entry.timestamp ::
      data.retainedTail.getD []
  | .branchSummary data =>
    if data.summary = "" then []
    else [createBranchSummaryMessage data.summary data.fromId entry.timestamp]
  | .custom customType _ =>
    ((projectors customType).bind fun project => project entry index entries).getD []
  | _ => []

/-- `contextEntries.flatMap(...)` -/
def contextMessages (projectors : Projectors) (contextEntries : List TreeEntry) :
    List AgentMessage :=
  contextEntries.zipIdx.flatMap fun pair =>
    sessionEntryToContextMessages projectors contextEntries pair.1 pair.2

/-- `SessionContext` -/
structure SessionContext where
  messages : List AgentMessage
  state : ContextState
  deriving DecidableEq, Repr

/-- `buildSessionContext`, with no transforms beyond the default one. -/
def buildSessionContext (projectors : Projectors) (pathEntries : List TreeEntry) :
    SessionContext where
  messages := contextMessages projectors (defaultContextEntryTransform pathEntries)
  state := deriveSessionContextState pathEntries

end BeauPi.Harness
