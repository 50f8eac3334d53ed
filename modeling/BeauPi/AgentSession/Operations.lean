import BeauPi.AgentSession.Recovery

/-!
# Operations of an idle session

Each operation changes the messages of the agent and the entries of the session by its own pair of
statements.

* `runAgentPrompt`, `prompt` — runs of the agent, with their recovery and the deferred commands.
* `sendCustomMessage`, `recordBashResult` — messages without a run.
* `compact` — the messages are built again from a compacted path.
* `TreeSession.navigateTree` — the messages are built again from another path.
* `Operation`, `TreeSession.step` — one operation after the other.
-/

namespace BeauPi.AgentSession

open Llm Sessions

namespace LiveSession

variable (config : Config) (session : LiveSession)

/-- `agent.state.messages.push(message)` -/
def push (message : AgentMessage) : LiveSession :=
  { session with messages := session.messages ++ [message] }

/-! ## Commands of the user -/

/-- `recordBashResult`, of an idle session -/
def recordBashResult (message : BashExecutionMessage × Stamp) : LiveSession :=
  (session.push (.bashExecution message.1)).append (.message (.bashExecution message.1)) message.2

/-- `_flushPendingBashMessages` -/
def flushPendingBashMessages (pending : List (BashExecutionMessage × Stamp)) : LiveSession :=
  pending.foldl recordBashResult session

/-! ## Prompts -/

/-- The messages that end in a run of the agent, and what happens while it is settled. -/
structure AgentRun where
  messages : List (AgentMessage × Stamp)
  post : PostRun
  deriving DecidableEq, Repr

/-- `await agent.prompt(…); while (await _handlePostAgentRun()) await agent.continue()`; without a
further run, `continue` throws. -/
def runAgent : LiveSession → List AgentRun → LiveSession
  | session, [] => session
  | session, run :: runs =>
    let (session, continues) :=
      (session.receiveAll run.messages).handlePostAgentRun config run.post
    if continues then runAgent session runs else session

/-- `_runAgentPrompt` -/
def runAgentPrompt (runs : List AgentRun) (pending : List (BashExecutionMessage × Stamp)) :
    LiveSession :=
  (session.runAgent config runs).flushPendingBashMessages pending

/-- `_findLastAssistantMessage` -/
def findLastAssistantMessage : Option AssistantMessage :=
  session.messages.reverse.findSome? fun
    | .assistant message => some message
    | _ => none

/-- A call of `prompt`: the commands that are flushed before, the compaction before the run (there
is none if the model or its authentication is missing), the runs, and the commands that are
deferred until their end. -/
structure Prompt where
  flushed : List (BashExecutionMessage × Stamp)
  checked : Option PostRun
  runs : List AgentRun
  pending : List (BashExecutionMessage × Stamp)
  deriving DecidableEq, Repr

/-- The compaction before a prompt. -/
def checkBeforePrompt (post : PostRun) : LiveSession :=
  match session.findLastAssistantMessage with
  | some message => (session.checkCompaction config post message false).1
  | none => session

/-- `prompt` -/
def prompt (call : Prompt) : LiveSession :=
  let session := session.flushPendingBashMessages call.flushed
  match call.checked with
  | some post =>
    (session.checkBeforePrompt config post).runAgentPrompt config call.runs call.pending
  | none => session

/-! ## Custom messages and compactions -/

/-- The arguments of `sendCustomMessage`. -/
structure CustomArguments where
  customType : String
  content : Option Content
  display : Bool
  details : Option Json
  deriving DecidableEq, Repr

/-- `sendCustomMessage`, of an idle session and without a turn; `now` is the time of the message. -/
def sendCustomMessage (message : CustomArguments) (now : ℚ) (stamp : Stamp) : LiveSession :=
  let appMessage : CustomMessage := {
    customType := message.customType
    content := message.content.getD (.blocks [])
    display := message.display
    details := message.details
    timestamp := some now }
  (session.push (.custom appMessage)).append
    (.customMessage message.customType message.content message.details message.display) stamp

/-- `compact`, with its result if there is one. -/
def compact (result : Option (CompactionData × Stamp)) : LiveSession :=
  match result with
  | some (data, stamp) =>
    let session := session.append (.compaction data) stamp
    { session with messages := contextMessages session.path }
  | none => session

end LiveSession

/-! ## The tree of a session -/

/-- A session with all its entries, in the order of its file. -/
structure TreeSession where
  live : LiveSession
  entries : List SessionEntry
  deriving DecidableEq, Repr

/-- What extensions and the summarizer answer to a navigation. -/
structure Navigation where
  summary : Option (BranchSummaryData × Stamp)
  label : Option (String × Stamp)
  deriving DecidableEq, Repr

namespace TreeSession

variable (session : TreeSession)

/-- `sessionManager.getLeafId()` -/
def leafId : Option String := session.live.path.getLast?.map (·.id)

/-- `sessionManager.buildSessionContext()` -/
def buildSessionContext : SessionContext :=
  Sessions.buildSessionContext session.entries (some session.leafId) none

/-- The entries that are appended to the path are entries of the session. -/
def advance (next : LiveSession) : TreeSession :=
  ⟨next, session.entries ++ next.path.drop session.live.path.length⟩

/-- `branch`, `resetLeaf` -/
def branch (leafId : Option String) : TreeSession :=
  { session with live :=
      { session.live with path := buildSessionPath session.entries (some leafId) none } }

/-- The leaf that a target stands for: a message that is written again is taken off. -/
def newLeafId (target : SessionEntry) : Option String :=
  match target.body with
  | .message (.user _) | .customMessage .. => target.parentId
  | _ => some target.id

/-- `branchWithSummary`, `branch` or `resetLeaf`, and the label. -/
def switchLeaf (target : SessionEntry) (answer : Navigation) : TreeSession :=
  let newLeafId := newLeafId target
  let session := session.branch newLeafId
  let summary := answer.summary.filter (·.1.summary ≠ "")
  let label := answer.label.filter (·.1 ≠ "")
  let session := match summary with
    | some (data, stamp) => session.advance (session.live.append
        (.branchSummary { data with fromId := newLeafId.getD "root" }) stamp)
    | none => session
  match label with
  | some (label, stamp) =>
    let labelled := (summary.map (·.2.id)).getD target.id
    session.advance (session.live.append (.label labelled (some label)) stamp)
  | none => session

/-- `navigateTree`; without an answer it is cancelled, or the summary fails. -/
def navigateTree (targetId : String) (answer : Option Navigation) : TreeSession :=
  if some targetId = session.leafId then session
  else match session.entries.find? (·.id = targetId), answer with
    | some target, some answer =>
      if (newLeafId target).all fun id => session.entries.any (·.id = id) then
        let session := session.switchLeaf target answer
        { session with live := { session.live with messages := contextMessages session.live.path } }
      else session
    | _, _ => session

/-! ## Operations -/

/-- An entry that says nothing to the model. -/
def isSilent : EntryBody → Bool
  | .thinkingLevelChange _ | .modelChange .. | .custom .. | .label .. | .sessionInfo _ => true
  | _ => false

/-- The operations, with what happens meanwhile. -/
inductive Operation
  | prompt (call : LiveSession.Prompt)
  | triggerTurn (runs : List LiveSession.AgentRun) (pending : List (BashExecutionMessage × Stamp))
  | sendCustomMessage (message : LiveSession.CustomArguments) (now : ℚ) (stamp : Stamp)
  | recordBashResult (message : BashExecutionMessage × Stamp)
  | compact (result : Option (CompactionData × Stamp))
  | navigateTree (targetId : String) (answer : Option Navigation)
  | appendEntry (body : EntryBody) (stamp : Stamp)
  deriving DecidableEq, Repr

/-- One operation. -/
def step (config : Config) : Operation → TreeSession
  | .prompt call => session.advance (session.live.prompt config call)
  | .triggerTurn runs pending => session.advance (session.live.runAgentPrompt config runs pending)
  | .sendCustomMessage message now stamp =>
    session.advance (session.live.sendCustomMessage message now stamp)
  | .recordBashResult message => session.advance (session.live.recordBashResult message)
  | .compact result => session.advance (session.live.compact result)
  | .navigateTree targetId answer => session.navigateTree targetId answer
  | .appendEntry body stamp =>
    if isSilent body then session.advance (session.live.append body stamp) else session

end TreeSession
end BeauPi.AgentSession
