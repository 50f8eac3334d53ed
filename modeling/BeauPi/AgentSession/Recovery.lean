import BeauPi.AgentLoop.Agent
import BeauPi.Compaction.Prepare

/-!
# Automatic recovery

After a run of the agent the session retries a failed response, or compacts its context, and
continues the agent then.  The messages of the agent and the entries of the session are two
different lists: **a failed response is removed from the messages only**.

* `isContextOverflow` — responses for which the context was too long.
* `LiveSession` — the messages of the agent, the path of the session, and the recovery state.
* `receive` — what the session does for a message that the agent has ended.
* `checkCompaction`, `runAutoCompaction`, `prepareRetry` — the steps of recovery.
* `handlePostAgentRun` — is the agent to be continued?
-/

namespace BeauPi.AgentSession

open Llm Sessions AgentLoop Compaction

/-! ## Settings -/

/-- `Model`, as far as recovery reads it. -/
structure Model where
  provider : String
  id : String
  contextWindow : Nat
  deriving DecidableEq, Repr

/-- `RetrySettings`; the delay of a retry is not looked at. -/
structure RetrySettings where
  enabled : Bool
  maxRetries : Nat
  deriving DecidableEq, Repr

/-- The settings, the model, and the patterns of error messages. -/
structure Config where
  model : Option Model
  retry : RetrySettings
  compaction : CompactionSettings
  isOverflowText : String → Bool
  isRetryableText : String → Bool

/-- `this.model?.contextWindow ?? 0` -/
def Config.contextWindow (config : Config) : Nat := config.model.elim 0 (·.contextWindow)

/-! ## Kinds of responses -/

/-- Does an error message that is not empty match a pattern? -/
def errorMatches (pattern : String → Bool) (message : AssistantMessage) : Bool :=
  match message.errorMessage with
  | some text => message.stopReason = .error && text ≠ "" && pattern text
  | none => false

/-- `isContextOverflow` -/
def isContextOverflow (config : Config) (message : AssistantMessage) (contextWindow : Nat) : Bool :=
  let inputTokens := message.usage.input + message.usage.cacheRead
  errorMatches config.isOverflowText message ||
    (contextWindow ≠ 0 && message.stopReason = .stop && contextWindow < inputTokens) ||
    (contextWindow ≠ 0 && message.stopReason = .length && message.usage.output = 0 &&
      99 * contextWindow ≤ 100 * inputTokens)

/-- `_isRetryableError` -/
def isRetryableError (config : Config) (message : AssistantMessage) : Bool :=
  !isContextOverflow config message config.contextWindow &&
    errorMatches config.isRetryableText message

/-- `sameModel`: is a response from the model that is used now? -/
def isSameModel (config : Config) (message : AssistantMessage) : Bool :=
  config.model.any fun model => message.provider = model.provider && message.model = model.id

/-- Is a response one that is removed and made again after a compaction? -/
def isRecoverable (config : Config) (message : AssistantMessage) : Bool :=
  config.compaction.enabled && isSameModel config message &&
    isContextOverflow config message config.contextWindow && message.stopReason ≠ .stop

/-! ## The session -/

/-- The id and the time of a new entry. -/
structure Stamp where
  id : String
  timestamp : String
  deriving DecidableEq, Repr

/-- `AgentSession`, as far as recovery goes: `state.messages` of the agent, and the way to the leaf
of the session manager. -/
structure LiveSession where
  messages : List AgentMessage
  path : List SessionEntry
  lastAssistantMessage : Option AssistantMessage
  retryAttempt : Nat
  overflowRecoveryAttempted : Bool
  deriving DecidableEq, Repr

/-- `buildSessionContext().messages`, of a path. -/
def contextMessages (path : List SessionEntry) : List AgentMessage :=
  (contextEntries path).flatMap sessionEntryToContextMessages

/-- A message of an assistant that ended in an error? -/
def isErroredAssistant : AgentMessage → Bool
  | .assistant message => message.stopReason = .error
  | _ => false

/-- The messages without the last one if it is of this kind. -/
def dropLastIf (kind : AgentMessage → Bool) (messages : List AgentMessage) : List AgentMessage :=
  if messages.getLast?.any kind then messages.dropLast else messages

/-- The body of the entry that is appended for a message of the agent. -/
def entryBody? : AgentMessage → Option EntryBody
  | .user message => some (.message (.user message))
  | .assistant message => some (.message (.assistant message))
  | .toolResult message => some (.message (.toolResult message))
  | .custom message =>
    some (.customMessage message.customType (some message.content) message.details message.display)
  | _ => none

namespace LiveSession

variable (config : Config) (session : LiveSession)

/-- Appends an entry to the path. -/
def append (body : EntryBody) (stamp : Stamp) : LiveSession :=
  { session with path := session.path ++
      [⟨stamp.id, session.path.getLast?.map (·.id), stamp.timestamp, body⟩] }

/-- Appends the entry of a message, if it is one that is persisted by events. -/
def persist (message : AgentMessage) (stamp : Stamp) : LiveSession :=
  match entryBody? message with
  | some body => session.append body stamp
  | none => session

/-- `_handleAgentEvent`, for the start of a message. -/
def handleMessageStart (message : AgentMessage) : LiveSession :=
  match message with
  | .user _ => { session with overflowRecoveryAttempted := false }
  | _ => session

/-- `_handleAgentEvent`, for the end of a message that the agent has pushed on its messages. -/
def handleMessageEnd (message : AgentMessage) (stamp : Stamp) : LiveSession :=
  let session := { session with messages := session.messages ++ [message] }.persist message stamp
  match message with
  | .assistant response =>
    if response.stopReason ≠ .error then
      { session with
        lastAssistantMessage := some response
        overflowRecoveryAttempted := false
        retryAttempt := 0 }
    else { session with lastAssistantMessage := some response }
  | _ => session

/-- A message starts and ends. -/
def receive (message : AgentMessage × Stamp) : LiveSession :=
  (session.handleMessageStart message.1).handleMessageEnd message.1 message.2

/-- Some messages start and end, one after the other. -/
def receiveAll (messages : List (AgentMessage × Stamp)) : LiveSession :=
  messages.foldl receive session

/-! ## Recovery -/

/-- What happens while a run is settled: is the delay of a retry aborted, how does a compaction end
(without a result if there is no authentication or nothing to compact, or if it is cancelled or
fails), and are messages queued at the end? -/
structure PostRun where
  sleepAborted : Bool
  compaction : Option (CompactionData × Stamp)
  queued : Bool
  deriving DecidableEq, Repr

variable (post : PostRun)

/-- `_prepareRetry` -/
def prepareRetry : LiveSession × Bool :=
  if !config.retry.enabled then (session, false)
  else if session.retryAttempt + 1 > config.retry.maxRetries then (session, false)
  else
    let messages := dropLastIf (·.isAssistant) session.messages
    if post.sleepAborted then ({ session with messages := messages, retryAttempt := 0 }, false)
    else ({ session with messages := messages, retryAttempt := session.retryAttempt + 1 }, true)

/-- `_runAutoCompaction` -/
def runAutoCompaction (willRetry : Bool) : LiveSession × Bool :=
  match config.model, post.compaction with
  | some _, some (data, stamp) =>
    let session := session.append (.compaction data) stamp
    let session := { session with messages := contextMessages session.path }
    if willRetry then
      ({ session with messages := dropLastIf isErroredAssistant session.messages }, true)
    else (session, post.queued)
  | _, _ => (session, false)

/-- `shouldCompact` -/
def shouldCompact (contextTokens : Nat) : Bool :=
  config.compaction.enabled &&
    decide ((config.contextWindow : ℚ) - config.compaction.reserveTokens < contextTokens)

/-- Is a message not younger than the latest compaction? -/
def isFromBeforeCompaction (message : AssistantMessage) : Bool :=
  match lastCompaction? session.path with
  | some entry => (Js.getTime entry.timestamp).any fun time => decide (message.timestamp ≤ time)
  | none => false

/-- The tokens of the context, for the check of the threshold. -/
def contextTokens? (message : AssistantMessage) : Option Nat :=
  let directContextTokens := calculateContextTokens message.usage
  if message.stopReason = .error ∨ directContextTokens = 0 then
    let estimate := estimateContextTokens session.messages
    match estimate.lastUsageIndex.bind (session.messages[·]?) with
    | none => none
    | some (.assistant usageMessage) =>
      if session.isFromBeforeCompaction usageMessage then none else some estimate.tokens
    | some _ => some estimate.tokens
  else some directContextTokens

/-- `_checkCompaction` -/
def checkCompaction (message : AssistantMessage) (skipAbortedCheck : Bool) : LiveSession × Bool :=
  if !config.compaction.enabled then (session, false)
  else if skipAbortedCheck ∧ message.stopReason = .aborted then (session, false)
  else if session.isFromBeforeCompaction message then (session, false)
  else
    if isSameModel config message && isContextOverflow config message config.contextWindow then
      if message.stopReason = .stop then session.runAutoCompaction config post false
      else if session.overflowRecoveryAttempted then (session, false)
      else
        let session := { session with
          overflowRecoveryAttempted := true
          messages := dropLastIf (·.isAssistant) session.messages }
        session.runAutoCompaction config post true
    else if (session.contextTokens? message).any (shouldCompact config) then
      session.runAutoCompaction config post false
    else (session, false)

/-- `_handlePostAgentRun`, after the retry: the compaction and the queue. -/
def settle (message : AssistantMessage) : LiveSession × Bool :=
  let session := if message.stopReason = .error then { session with retryAttempt := 0 } else session
  let (session, continues) := session.checkCompaction config post message true
  (session, continues || post.queued)

/-- `_handlePostAgentRun`: is the agent to be continued? -/
def handlePostAgentRun : LiveSession × Bool :=
  match session.lastAssistantMessage with
  | none => (session, false)
  | some message =>
    let session := { session with lastAssistantMessage := none }
    if isRetryableError config message then
      let (session, retries) := session.prepareRetry config post
      if retries then (session, true) else session.settle config post message
    else session.settle config post message

end LiveSession
end BeauPi.AgentSession
