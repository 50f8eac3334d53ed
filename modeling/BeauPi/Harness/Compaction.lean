import BeauPi.Harness.Session

/-!
# Compaction in the agent harness

* `findCutPoint` — the entry from which recent history is kept.
* `prepareCompaction` — what a compaction summarizes and what it retains.
* `compact` — the compaction made from the answers of the summarizer.
-/

namespace BeauPi.Harness

open Llm Sessions Machine
open Compaction (CompactionSettings FileOperations CompactionDetails estimateTokens
  estimateContextTokens createFileOps extractFileOpsFromMessage addTo detailsList
  computeFileLists formatFileOperations combineUsage defaultCompactionSettings)

/-! ## The cut point -/

/-- The test of `findValidCutPoints` on one entry. -/
def isCutPointEntry (entry : TreeEntry) : Bool :=
  match entry.body with
  | .message (.toolResult _) => false
  | .message _ => true
  | .branchSummary _ => true
  | .customMessage .. => true
  | _ => false

/-- `findValidCutPoints` -/
def findValidCutPoints (entries : List TreeEntry) (startIndex endIndex : Nat) : List Nat :=
  (List.range' startIndex (endIndex - startIndex)).filter fun i =>
    (entries[i]?).any isCutPointEntry

/-- The test of `findTurnStartIndex` on one entry. -/
def isTurnStartEntry (entry : TreeEntry) : Bool :=
  match entry.body with
  | .message (.user _) => true
  | .message (.bashExecution _) => true
  | .branchSummary _ => true
  | .customMessage .. => true
  | _ => false

/-- `findTurnStartIndex`; `none` is `-1`. -/
def findTurnStartIndex (entries : List TreeEntry) (startIndex : Nat) : Nat → Option Nat
  | 0 => if startIndex = 0 ∧ (entries[0]?).any isTurnStartEntry then some 0 else none
  | i + 1 =>
    if i + 1 < startIndex then none
    else if (entries[i + 1]?).any isTurnStartEntry then some (i + 1)
    else findTurnStartIndex entries startIndex i

/-- The message of the entry at an index, if it is a `message` entry. -/
def messageAt (entries : List TreeEntry) (i : Nat) : Option AgentMessage :=
  (entries[i]?).bind (·.message?)

/-- The walk back from the newest entry, which counts `message` entries only. -/
def budgetIndex (entries : List TreeEntry) (startIndex endIndex : Nat)
    (keepRecentTokens : ℚ) : Option Nat :=
  reachBack (fun i => ((messageAt entries i).map estimateTokens).getD 0)
    (fun i => (messageAt entries i).isSome) keepRecentTokens startIndex endIndex 0

/-- The cut before it is moved back. -/
def chosenCut (entries : List TreeEntry) (startIndex endIndex : Nat) (keepRecentTokens : ℚ)
    (cutPoints : List Nat) (first : Nat) : Nat :=
  match budgetIndex entries startIndex endIndex keepRecentTokens with
  | none => first
  | some i => (cutPoints.find? (i ≤ ·)).getD first

/-- Does the entry end the walk that moves the cut back? -/
def endsMoveBack (entry : TreeEntry) : Bool := entry.isCompaction || entry.message?.isSome

/-- The loop that moves the cut back to just after a compaction or a message. -/
def moveBack (entries : List TreeEntry) (startIndex : Nat) : Nat → Nat
  | 0 => 0
  | i + 1 =>
    if startIndex < i + 1 ∧ !(entries[i]?).any endsMoveBack then moveBack entries startIndex i
    else i + 1

/-- `CutPointResult` -/
structure CutPointResult where
  firstKeptEntryIndex : Nat
  turnStartIndex : Option Nat
  isSplitTurn : Bool
  deriving DecidableEq, Repr

/-- `entry.type === "message" && entry.message.role === "user"` -/
def isUserMessage (entry : TreeEntry) : Bool :=
  match entry.body with
  | .message (.user _) => true
  | _ => false

/-- `findCutPoint` -/
def findCutPoint (entries : List TreeEntry) (startIndex endIndex : Nat)
    (keepRecentTokens : ℚ) : CutPointResult :=
  match findValidCutPoints entries startIndex endIndex with
  | [] => ⟨startIndex, none, false⟩
  | first :: rest =>
    let cutIndex := moveBack entries startIndex
      (chosenCut entries startIndex endIndex keepRecentTokens (first :: rest) first)
    let isUserMessage := (entries[cutIndex]?).any isUserMessage
    let turnStartIndex := if isUserMessage then none
      else findTurnStartIndex entries startIndex cutIndex
    ⟨cutIndex, turnStartIndex, !isUserMessage && turnStartIndex.isSome⟩

/-! ## Preparation -/

/-- The error that a compaction function returns. -/
inductive CompactionError
  | invalidSession (message : String)
  | aborted (message : String)
  | summarizationFailed (message : String)
  deriving DecidableEq, Repr

/-- `CompactionPreparation` -/
structure CompactionPreparation where
  firstKeptEntryId : String
  messagesToSummarize : List AgentMessage
  turnPrefixMessages : List AgentMessage
  retainedTail : List AgentMessage
  isSplitTurn : Bool
  tokensBefore : Nat
  previousSummary : Option String
  fileOps : FileOperations
  settings : CompactionSettings
  deriving DecidableEq, Repr

/-- `getMessageFromEntryForCompaction` -/
def getMessageFromEntryForCompaction (entry : TreeEntry) : Option AgentMessage :=
  match entry.body with
  | .message m => some m
  | .customMessage customType content details display =>
    some (createCustomMessage customType content display details entry.timestamp)
  | .branchSummary data =>
    some (createBranchSummaryMessage data.summary data.fromId entry.timestamp)
  | _ => none

/-- The messages of the entries from one index to another. -/
def messagesBetween (entries : List TreeEntry) (startIndex endIndex : Nat) :
    List AgentMessage :=
  ((entries.drop startIndex).take (endIndex - startIndex)).filterMap
    getMessageFromEntryForCompaction

/-- The file operations of the previous compaction, if this program made it. -/
def previousFileOps : Option CompactionData → FileOperations
  | some previous =>
    match previous.fromHook, previous.details with
    | some true, _ => createFileOps
    | _, some details =>
      ⟨(detailsList "readFiles" details).foldl addTo [], [],
        (detailsList "modifiedFiles" details).foldl addTo []⟩
    | _, none => createFileOps
  | none => createFileOps

/-- `extractFileOperations` -/
def extractFileOperations (messages : List AgentMessage) (previous : Option CompactionData) :
    FileOperations :=
  messages.foldl extractFileOpsFromMessage (previousFileOps previous)

/-- The latest compaction of a path and its index. -/
def prevCompaction? (pathEntries : List TreeEntry) : Option (Nat × CompactionData) :=
  pathEntries.zipIdx.reverse.findSome? fun pair =>
    pair.1.compaction?.map fun data => (pair.2, data)

/-- `pathEntries.findIndex((entry) => entry.id === firstKeptEntryId)`, if there is such an id. -/
def firstKeptEntryIndex? (pathEntries : List TreeEntry) (firstKeptEntryId : Option String) :
    Option Nat :=
  let id := firstKeptEntryId.getD ""
  if id = "" then none else pathEntries.findIdx? (·.id = id)

/-- The index at which the messages not yet summarized start. -/
def boundaryStart (pathEntries : List TreeEntry) : Nat :=
  match prevCompaction? pathEntries with
  | none => 0
  | some (index, data) =>
    (firstKeptEntryIndex? pathEntries data.firstKeptEntryId).getD (index + 1)

/-- `prepareCompaction` -/
def prepareCompaction (pathEntries : List TreeEntry) (settings : CompactionSettings) :
    Except CompactionError (Option CompactionPreparation) :=
  if pathEntries = [] ∨ (pathEntries.getLast?).any (·.isCompaction) = true then .ok none
  else
    let previous := (prevCompaction? pathEntries).map Prod.snd
    let boundaryStart := boundaryStart pathEntries
    let boundaryEnd := pathEntries.length
    let tokensBefore :=
      (estimateContextTokens (buildSessionContext (fun _ => none) pathEntries).messages).tokens
    let cutPoint := findCutPoint pathEntries boundaryStart boundaryEnd settings.keepRecentTokens
    let firstKeptEntryId := ((pathEntries[cutPoint.firstKeptEntryIndex]?).map (·.id)).getD ""
    if firstKeptEntryId = "" then
      .error (.invalidSession "First kept entry has no UUID - session may need migration")
    else
      let historyEnd := (if cutPoint.isSplitTurn then cutPoint.turnStartIndex else none).getD
        cutPoint.firstKeptEntryIndex
      let messagesToSummarize := messagesBetween pathEntries boundaryStart historyEnd
      let turnPrefixMessages := if cutPoint.isSplitTurn then
          messagesBetween pathEntries historyEnd cutPoint.firstKeptEntryIndex
        else []
      let retainedTail :=
        messagesBetween pathEntries cutPoint.firstKeptEntryIndex boundaryEnd
      let fileOps := extractFileOperations messagesToSummarize previous
      .ok (some {
        firstKeptEntryId := firstKeptEntryId
        messagesToSummarize := messagesToSummarize
        turnPrefixMessages := turnPrefixMessages
        retainedTail := retainedTail
        isSplitTurn := cutPoint.isSplitTurn
        tokensBefore := tokensBefore
        previousSummary := previous.map (·.summary)
        fileOps := if cutPoint.isSplitTurn then
            turnPrefixMessages.foldl extractFileOpsFromMessage fileOps
          else fileOps
        settings := settings })

/-- Where the summarized history ends: at the turn that the cut splits or at the cut. -/
def CutPointResult.historyEnd (cutPoint : CutPointResult) : Nat :=
  (if cutPoint.isSplitTurn then cutPoint.turnStartIndex else none).getD
    cutPoint.firstKeptEntryIndex

/-- What holds of a preparation. -/
structure Prepared (path : List TreeEntry) (settings : CompactionSettings)
    (preparation : CompactionPreparation) : Prop where
  nonempty : path ≠ []
  notLast : (path.getLast?).any (·.isCompaction) = false
  named : preparation.firstKeptEntryId ≠ ""
  cut : ∃ cutPoint, cutPoint =
      findCutPoint path (boundaryStart path) path.length settings.keepRecentTokens ∧
    (path[cutPoint.firstKeptEntryIndex]?).map (·.id) = some preparation.firstKeptEntryId ∧
    preparation.messagesToSummarize =
      messagesBetween path (boundaryStart path) cutPoint.historyEnd ∧
    preparation.turnPrefixMessages = (if cutPoint.isSplitTurn then
      messagesBetween path cutPoint.historyEnd cutPoint.firstKeptEntryIndex else []) ∧
    preparation.retainedTail = messagesBetween path cutPoint.firstKeptEntryIndex path.length

theorem prepareCompaction_spec {path : List TreeEntry} {settings : CompactionSettings}
    {preparation : CompactionPreparation}
    (h : prepareCompaction path settings = .ok (some preparation)) :
    Prepared path settings preparation := by
  unfold prepareCompaction at h
  split at h
  · cases h
  · next hskip =>
    rw [not_or, Bool.not_eq_true] at hskip
    dsimp only at h
    split at h
    · cases h
    · next hid =>
      rw [Except.ok.injEq, Option.some.injEq] at h
      subst h
      refine ⟨hskip.1, hskip.2, hid, _, rfl, ?_, rfl, rfl, rfl⟩
      revert hid
      cases path[(findCutPoint path (boundaryStart path) path.length
        settings.keepRecentTokens).firstKeptEntryIndex]? <;> simp

/-! ## The compaction -/

/-- `CompactionResult` -/
structure CompactionResult where
  summary : String
  firstKeptEntryId : Option String
  tokensBefore : Nat
  usage : Option Usage
  retainedTail : Option (List AgentMessage)
  details : Option Json
  deriving DecidableEq, Repr

/-- The answers of the model: `generateSummaryWithUsage` on the messages and the previous summary,
and `generateTurnPrefixSummary` on the messages. -/
structure Summarizer where
  history : List AgentMessage → Option String → Except CompactionError (String × Usage)
  turnPrefix : List AgentMessage → Except CompactionError (String × Usage)

/-- The summary of a split turn. -/
def splitSummary (historyText turnPrefixText : String) : String :=
  historyText ++ "\n\n---\n\n**Turn Context (split turn):**\n\n" ++ turnPrefixText

/-- The summary and its usage before the file lists are added. -/
def summarize (summarizer : Summarizer) (preparation : CompactionPreparation) :
    Except CompactionError (String × Usage) :=
  if preparation.isSplitTurn = true ∧ preparation.turnPrefixMessages ≠ [] then do
    if preparation.messagesToSummarize ≠ [] then
      let history ← summarizer.history preparation.messagesToSummarize preparation.previousSummary
      let turnPrefix ← summarizer.turnPrefix preparation.turnPrefixMessages
      return (splitSummary history.1 turnPrefix.1, combineUsage history.2 turnPrefix.2)
    else
      let turnPrefix ← summarizer.turnPrefix preparation.turnPrefixMessages
      return (splitSummary "No prior history." turnPrefix.1, turnPrefix.2)
  else summarizer.history preparation.messagesToSummarize preparation.previousSummary

/-- `compact` -/
def compact (summarizer : Summarizer) (preparation : CompactionPreparation) :
    Except CompactionError CompactionResult :=
  if preparation.firstKeptEntryId = "" then
    .error (.invalidSession "First kept entry has no UUID - session may need migration")
  else do
    let (summary, usage) ← summarize summarizer preparation
    let details := computeFileLists preparation.fileOps
    return {
      summary := summary ++ formatFileOperations details
      firstKeptEntryId := some preparation.firstKeptEntryId
      tokensBefore := preparation.tokensBefore
      usage := some usage
      retainedTail := some preparation.retainedTail
      details := some details.toJson }

/-- The fields of the entry that is appended for a result. -/
def CompactionResult.toData (result : CompactionResult) (fromHook : Bool) : CompactionData where
  summary := result.summary
  firstKeptEntryId := result.firstKeptEntryId
  tokensBefore := result.tokensBefore
  retainedTail := result.retainedTail
  details := result.details
  usage := result.usage
  fromHook := some fromHook

/-- The error that `AgentHarness.compact` throws. -/
inductive HarnessError
  | session (error : SessionError)
  | compaction (error : CompactionError)
  | nothingToCompact
  deriving DecidableEq, Repr

/-- The compaction of the hook, or else that of `compact`. -/
def compactResult (summarizer : Summarizer) (preparation : CompactionPreparation) :
    Option CompactionResult → Except HarnessError CompactionResult
  | some provided => .ok provided
  | none => (compact summarizer preparation).mapError .compaction

/-- `AgentHarness.compact` with a model set and no hook that cancels: the preparation and the
session after it.  `id` is what `generateEntryId` returns, and `provided` the compaction of a
`session_before_compact` hook. -/
def Storage.compact (s : Storage) (id timestamp : String) (summarizer : Summarizer)
    (provided : Option CompactionResult) :
    Except HarnessError (CompactionPreparation × Storage) := do
  let branchEntries ← s.getBranch.mapError .session
  match ← (prepareCompaction branchEntries defaultCompactionSettings).mapError .compaction with
  | none => throw .nothingToCompact
  | some preparation =>
    let result ← compactResult summarizer preparation provided
    let parentId ← s.getLeafId.mapError .session
    return (preparation,
      s.appendEntry ⟨id, parentId, timestamp, .compaction (result.toData provided.isSome)⟩)

end BeauPi.Harness
