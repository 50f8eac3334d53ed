import BeauPi.Machine.OrderedMap
import BeauPi.Sessions.Messages

/-!
# The entries of a session and the context built from them

* `SessionEntry` — one node of the session tree.
* `buildSessionPath` — the way from the root to a leaf.
* `buildContextEntries`, `buildSessionContext` — what the model is shown of that way.
-/

namespace BeauPi.Sessions

open Llm Machine

/-! ## Entries -/

/-- `Message | CustomMessage | BashExecutionMessage`: the messages that `appendMessage` takes.
Summaries are entries of their own and never the message of an entry. -/
inductive SessionMessage
  | user (message : UserMessage)
  | assistant (message : AssistantMessage)
  | toolResult (message : ToolResultMessage)
  | custom (message : CustomMessage)
  | bashExecution (message : BashExecutionMessage)
  deriving DecidableEq, Repr

/-- The message of a session as an `AgentMessage`. -/
def SessionMessage.toAgentMessage : SessionMessage → AgentMessage
  | .user m => .user m
  | .assistant m => .assistant m
  | .toolResult m => .toolResult m
  | .custom m => .custom m
  | .bashExecution m => .bashExecution m

/-- The fields of a `CompactionEntry`. -/
structure CompactionData where
  summary : String
  firstKeptEntryId : String
  tokensBefore : Nat
  details : Option Json
  usage : Option Usage
  fromHook : Option Bool
  deriving DecidableEq, Repr

/-- The fields of a `BranchSummaryEntry`. -/
structure BranchSummaryData where
  fromId : String
  summary : String
  details : Option Json
  usage : Option Usage
  fromHook : Option Bool
  deriving DecidableEq, Repr

/-- What an entry says, by its `type`. -/
inductive EntryBody
  | message (message : SessionMessage)
  | thinkingLevelChange (thinkingLevel : String)
  | modelChange (provider modelId : String)
  | compaction (data : CompactionData)
  | branchSummary (data : BranchSummaryData)
  | custom (customType : String) (data : Option Json)
  | customMessage (customType : String) (content : Option Content) (details : Option Json)
      (display : Bool)
  | label (targetId : String) (label : Option String)
  | sessionInfo (name : Option String)
  deriving DecidableEq, Repr

/-- `SessionEntry` -/
structure SessionEntry where
  id : String
  parentId : Option String
  timestamp : String
  body : EntryBody
  deriving DecidableEq, Repr

/-- The fields of a compaction entry. -/
def SessionEntry.compaction? (entry : SessionEntry) : Option CompactionData :=
  match entry.body with
  | .compaction data => some data
  | _ => none

/-- `entry.type === "compaction"` -/
def SessionEntry.isCompaction (entry : SessionEntry) : Bool := entry.compaction?.isSome

/-! ## The path to a leaf -/

/-- `Map<string, SessionEntry>` -/
abbrev EntryIndex := OrderedMap String SessionEntry

/-- `buildEntryIndex` -/
def buildEntryIndex (entries : List SessionEntry) (byId : Option EntryIndex) : EntryIndex :=
  byId.getD (entries.foldl (fun index entry => index.set entry.id entry) .empty)

/-- `current.parentId ? index.get(current.parentId) : undefined` -/
def parentOf (index : EntryIndex) (entry : SessionEntry) : Option SessionEntry :=
  match entry.parentId with
  | none => none
  | some id => if id = "" then none else index.get? id

/-- The loop that follows parents, latest entry first. -/
def ancestors (index : EntryIndex) : Nat → Option SessionEntry → List SessionEntry
  | 0, _ => []
  | _, none => []
  | fuel + 1, some entry => entry :: ancestors index fuel (parentOf index entry)

/-- `buildSessionPath`; a `leafId` of `none` is `undefined` and of `some none` is `null`.  A way
without repetitions is no longer than the index has entries. -/
def buildSessionPath (entries : List SessionEntry) (leafId : Option (Option String))
    (byId : Option EntryIndex) : List SessionEntry :=
  let index := buildEntryIndex entries byId
  if leafId = some none then []
  else
    let named := match leafId with
      | some (some id) => if id = "" then none else index.get? id
      | _ => none
    (ancestors index (index.size + 1) (named.or entries.getLast?)).reverse

/-! ## The context -/

/-- The provider and the id of a model. -/
structure ModelRef where
  provider : String
  modelId : String
  deriving DecidableEq, Repr

/-- `SessionContext` -/
structure SessionContext where
  messages : List AgentMessage
  thinkingLevel : String
  model : Option ModelRef
  deriving DecidableEq, Repr

/-- What one entry does to the settings of the context. -/
def applySettings (settings : String × Option ModelRef) (entry : SessionEntry) :
    String × Option ModelRef :=
  match entry.body with
  | .thinkingLevelChange level => (level, settings.2)
  | .modelChange provider modelId => (settings.1, some ⟨provider, modelId⟩)
  | .message (.assistant m) => (settings.1, some ⟨m.provider, m.model⟩)
  | _ => settings

/-- `getSessionContextSettings` -/
def getSessionContextSettings (path : List SessionEntry) : String × Option ModelRef :=
  path.foldl applySettings ("off", none)

/-- `sessionEntryToContextMessages` -/
def sessionEntryToContextMessages (entry : SessionEntry) : List AgentMessage :=
  match entry.body with
  | .message m => [m.toAgentMessage.withContent]
  | .customMessage customType content details display =>
    [createCustomMessage customType (content.getD (.blocks [])) display details entry.timestamp]
  | .branchSummary data =>
    if data.summary = "" then []
    else [createBranchSummaryMessage data.summary data.fromId entry.timestamp]
  | .compaction data =>
    [createCompactionSummaryMessage data.summary data.tokensBefore entry.timestamp]
  | _ => []

/-- The latest compaction entry of a path. -/
def lastCompaction? (path : List SessionEntry) : Option SessionEntry :=
  path.reverse.find? (·.isCompaction)

/-- The entries from the first one with a given id on. -/
def keptFrom (firstKeptEntryId : String) (entries : List SessionEntry) : List SessionEntry :=
  entries.dropWhile (·.id ≠ firstKeptEntryId)

/-- `buildContextEntries` on a path. -/
def contextEntries (path : List SessionEntry) : List SessionEntry :=
  match lastCompaction? path with
  | none => path
  | some compaction =>
    match compaction.compaction?, path.findIdx? (·.id = compaction.id) with
    | some data, some compactionIdx =>
      compaction :: (keptFrom data.firstKeptEntryId (path.take compactionIdx) ++
        path.drop (compactionIdx + 1))
    | _, _ => path

/-- `buildContextEntries` -/
def buildContextEntries (entries : List SessionEntry) (leafId : Option (Option String))
    (byId : Option EntryIndex) : List SessionEntry :=
  contextEntries (buildSessionPath entries leafId byId)

/-- `buildSessionContext` -/
def buildSessionContext (entries : List SessionEntry) (leafId : Option (Option String))
    (byId : Option EntryIndex) : SessionContext :=
  let settings := getSessionContextSettings (buildSessionPath entries leafId byId)
  { messages := (buildContextEntries entries leafId byId).flatMap sessionEntryToContextMessages
    thinkingLevel := settings.1
    model := settings.2 }

end BeauPi.Sessions
