import BeauPi.AgentLoop.Agent
import BeauPi.Machine.BranchTree
import BeauPi.Machine.Runs

/-!
# What a session does at a time

Prompts, runs of the agent, the review after a run and changes of the context are asynchronous.
They know of each other by flags and counters only, and **every `await` lets the others go on**.

* `PromptCall`, `RunCall`, `AgentRun` — the calls of `prompt` and `_runAgentPrompt`, and the run of
  the agent.
* `Surgery` — `compact` and `navigateTree`.
* `Activity` — the session with its flags and the calls that are in progress.
* `Activity.step` — a call, or one that goes on after an `await`.
-/

namespace BeauPi.AgentSession

open Llm Sessions AgentLoop Machine

/-! ## Calls in progress -/

/-- `deliverAs` and `streamingBehavior` -/
inductive Delivery
  | steer
  | followUp
  deriving DecidableEq, Repr

/-- What a call of `prompt` awaits. -/
inductive PromptStage
  /-- `_tryExecuteExtensionCommand` -/
  | command
  /-- The handlers of the `input` event. -/
  | input
  /-- The authentication, the compaction before the prompt, and its handlers. -/
  | preparing
  deriving DecidableEq, Repr

/-- A call of `prompt` that has not started its run; `starts` tells whether it will. -/
structure PromptCall where
  message : AgentMessage
  streamingBehavior : Option Delivery
  wasBusyAtPromptStart : Bool
  tracksPreflight : Bool
  stage : PromptStage
  starts : Bool
  deriving DecidableEq, Repr

/-- What a call of `_runAgentPrompt` awaits. -/
inductive CallPhase
  /-- `agent.prompt` or `agent.continue` -/
  | running
  /-- `_handlePostAgentRun` -/
  | handling
  /-- `_handlePostAgentRun` has returned `true`. -/
  | continuing
  /-- `_handlePostAgentRun` has returned `false`, or the agent has thrown. -/
  | exiting
  deriving DecidableEq, Repr

/-- A call of `_runAgentPrompt` with its `runId`. -/
structure RunCall where
  runId : Nat
  phase : CallPhase
  deriving DecidableEq, Repr

/-- A run of the agent: the messages it is to announce, the one whose end is handled, and those that
have ended and their entries. -/
structure AgentRun where
  waiting : List AgentMessage
  persisting : Option AgentMessage
  ended : List AgentMessage
  persisted : List Nat
  deriving DecidableEq, Repr

/-- A call that changes the context. -/
inductive Surgery
  | compact
  | navigateTree
  deriving DecidableEq, Repr

/-- The entries of the session; an entry without a message is any other one. -/
abbrev EntryTree := BranchTree (Option AgentMessage)

/-- `AgentSession`, as far as its concurrent calls go. -/
structure Activity where
  /-- `this.dynamicTaskRuntime !== undefined` -/
  hasTaskRuntime : Bool
  isAgentRunActive : Bool
  isTaskReviewActive : Bool
  runCounter : Nat
  /-- Does the session listen to the agent? -/
  connected : Bool
  prompts : List PromptCall
  calls : List RunCall
  /-- The reviews in progress. -/
  reviews : Nat
  surgeries : List Surgery
  /-- The active run of the agent. -/
  agentRun : Option AgentRun
  /-- The runs that are over. -/
  runs : List AgentRun
  steeringQueue : PendingMessageQueue
  followUpQueue : PendingMessageQueue
  pendingBashMessages : List AgentMessage
  /-- Every message that was pushed on the messages of the agent. -/
  transcript : List AgentMessage
  session : EntryTree
  /-- Every message that was accepted. -/
  accepted : List AgentMessage

namespace Activity

variable (s : Activity)

/-! ## Flags -/

/-- `_promptPreflightCount` -/
def promptPreflightCount : Nat := s.prompts.countP (·.tracksPreflight)

/-- `_extensionCommandExecutionDepth` -/
def extensionCommandExecutionDepth : Nat := s.prompts.countP (·.stage = .command)

/-- `isStreaming` -/
def isStreaming : Bool :=
  s.isAgentRunActive || s.isTaskReviewActive || decide (0 < s.promptPreflightCount)

/-! ## Messages -/

/-- A message is pushed on those of the agent, and appended to the session. -/
def push (message : AgentMessage) : Activity :=
  { s with
    transcript := s.transcript ++ [message]
    session := s.session.append (some message) }

/-- `_flushPendingBashMessages` -/
def flushPendingBashMessages : Activity :=
  { s.pendingBashMessages.foldl push s with pendingBashMessages := [] }

/-- The caller is told that a message was taken. -/
def accept (messages : List AgentMessage) : Activity :=
  { s with accepted := s.accepted ++ messages }

/-- `agent.steer` or `agent.followUp` -/
def enqueue (delivery : Delivery) (message : AgentMessage) : Activity :=
  match delivery with
  | .steer => { s with steeringQueue := s.steeringQueue.enqueue message }
  | .followUp => { s with followUpQueue := s.followUpQueue.enqueue message }

/-- The agent starts a run with some messages. -/
def startRun (messages : List AgentMessage) : Activity :=
  { s with agentRun := some ⟨messages, none, [], []⟩ }

/-- `_runAgentPrompt`, to its first `await`: `agent.prompt` throws while a run is active. -/
def runAgentPrompt (messages : List AgentMessage) : Activity :=
  let runId := s.runCounter + 1
  let s := { s with runCounter := runId, isAgentRunActive := true }
  if s.agentRun.isSome then { s with calls := s.calls ++ [RunCall.mk runId .exiting] }
  else ({ s with calls := s.calls ++ [RunCall.mk runId .running] }.startRun messages).accept messages

/-! ## Prompts -/

/-- `prompt`, to its first `await` -/
def prompt (message : AgentMessage) (isCommand : Bool) (streamingBehavior : Option Delivery)
    (starts : Bool) : Activity :=
  let call : PromptCall := {
    message := message
    streamingBehavior := streamingBehavior
    wasBusyAtPromptStart := s.isAgentRunActive ||
      (decide (0 < s.promptPreflightCount) && s.extensionCommandExecutionDepth = 0)
    tracksPreflight := !s.isAgentRunActive
    stage := if isCommand then .command else .input
    starts := starts }
  { s with prompts := s.prompts ++ [call] }

/-- A call of `prompt` at a stage. -/
def promptAt (i : Nat) (stage : PromptStage) : Option PromptCall :=
  s.prompts[i]?.filter (·.stage = stage)

/-- `releasePreflight`, and the call is over or starts its run. -/
def releasePreflight (i : Nat) : Activity := { s with prompts := s.prompts.eraseIdx i }

/-- A call of `prompt` is over without a run. -/
def endPrompt (i : Nat) (call : PromptCall) : Option Activity :=
  if call.starts then none else some (s.releasePreflight i)

/-- A call of `prompt` goes on to a stage. -/
def moveTo (i : Nat) (call : PromptCall) (stage : PromptStage) : Activity :=
  { s with prompts := s.prompts.set i { call with stage := stage } }

/-- Is the message of a prompt queued? -/
def isBusyFor (call : PromptCall) : Bool :=
  s.isAgentRunActive || (call.tracksPreflight && call.wasBusyAtPromptStart)

/-- `prompt`, after the handlers of `input`: the message is queued, the call throws, or it goes on
to prepare its run. -/
def decide (i : Nat) (call : PromptCall) : Option Activity :=
  if s.isBusyFor call then
    match call.streamingBehavior with
    | none => s.endPrompt i call
    | some delivery =>
      ((s.enqueue delivery call.message).accept [call.message]).endPrompt i call
  else some (s.flushPendingBashMessages.moveTo i call .preparing)

/-! ## Custom messages and commands of the user -/

/-- `sendCustomMessage` -/
def sendCustomMessage (message : AgentMessage) (deliverAs : Delivery) (triggerTurn : Bool) :
    Activity :=
  if s.isStreaming then (s.enqueue deliverAs message).accept [message]
  else if triggerTurn then s.runAgentPrompt [message]
  else (s.push message).accept [message]

/-- `recordBashResult` -/
def recordBashResult (message : AgentMessage) : Activity :=
  if s.isStreaming then
    { s with pendingBashMessages := s.pendingBashMessages ++ [message] }.accept [message]
  else (s.push message).accept [message]

/-! ## Runs of the agent -/

/-- The run, if it handles no end of a message. -/
def runAtRest : Option AgentRun := s.agentRun.filter (·.persisting = none)

/-- A poll of a queue. -/
def poll (delivery : Delivery) (run : AgentRun) : Activity :=
  match delivery with
  | .steer =>
    { s with
      agentRun := some { run with waiting := s.steeringQueue.drained }
      steeringQueue := s.steeringQueue.rest }
  | .followUp =>
    { s with
      agentRun := some { run with waiting := s.followUpQueue.drained }
      followUpQueue := s.followUpQueue.rest }

/-- A message ends: it is pushed on the messages of the agent, and the listeners are called. -/
def endMessage (run : AgentRun) (message : AgentMessage) : Activity :=
  { s with
    transcript := s.transcript ++ [message]
    agentRun := some { run with
      persisting := if s.connected then some message else none
      ended := run.ended ++ [message] } }

/-- Does a message call a tool with this id? -/
def callsTool (toolCallId : String) : AgentMessage → Bool
  | .assistant message => message.toolCalls.any (·.id = toolCallId)
  | _ => false

/-- Is it a response, or the result of a call that the run has seen? -/
def isResponse (run : AgentRun) : AgentMessage → Bool
  | .assistant _ => true
  | .toolResult message => run.ended.any (callsTool message.toolCallId)
  | _ => false

/-- `_handleAgentEvent` appends the message. -/
def persist (run : AgentRun) (message : AgentMessage) : Activity :=
  { s with
    session := s.session.append (some message)
    agentRun := some { run with
      persisting := none
      persisted := run.persisted ++ [s.session.nodes.length] } }

/-- The run of the agent is over, and the call that awaits it goes on. -/
def endRun (run : AgentRun) : Activity :=
  { s with
    agentRun := none
    runs := s.runs ++ [run]
    calls := s.calls.map fun call =>
      if call.phase = .running then { call with phase := .handling } else call }

/-! ## Calls of `_runAgentPrompt` -/

/-- A call at a phase. -/
def callAt (i : Nat) (phase : CallPhase) : Option RunCall :=
  s.calls[i]?.filter (·.phase = phase)

/-- A call goes on to a phase. -/
def goTo (i : Nat) (call : RunCall) (phase : CallPhase) : Activity :=
  { s with calls := s.calls.set i { call with phase := phase } }

/-- `agent.hasQueuedMessages` -/
def hasQueuedMessages : Bool := !s.steeringQueue.messages.isEmpty || !s.followUpQueue.messages.isEmpty

/-- `_handlePostAgentRun`: it retries or recovers, or looks for queued messages. -/
def handlePostAgentRun (i : Nat) (call : RunCall) (recovers : Bool) : Activity :=
  s.goTo i call (if recovers || s.hasQueuedMessages then .continuing else .exiting)

/-- `agent.continue` -/
def continueRun (i : Nat) (call : RunCall) (endsWithAssistant : Bool) : Activity :=
  if s.agentRun.isSome then s.goTo i call .exiting
  else if !endsWithAssistant then (s.goTo i call .running).startRun []
  else if s.steeringQueue.drained ≠ [] then
    { s with steeringQueue := s.steeringQueue.rest }.goTo i call .running |>.startRun
      s.steeringQueue.drained
  else if s.followUpQueue.drained ≠ [] then
    { s with followUpQueue := s.followUpQueue.rest }.goTo i call .running |>.startRun
      s.followUpQueue.drained
  else s.goTo i call .exiting

/-- `_runAgentPrompt`, its `finally`, to the review. -/
def finish (i : Nat) (call : RunCall) : Activity :=
  let s := { s with calls := s.calls.eraseIdx i, isAgentRunActive := false }
  if call.runId = s.runCounter then
    let s := s.flushPendingBashMessages
    { s with
      isTaskReviewActive := s.hasTaskRuntime
      reviews := s.reviews + if s.hasTaskRuntime then 1 else 0 }
  else s

/-! ## Changes of the context -/

/-- `compact`, to its first `await` -/
def compact : Activity := { s with connected := false, surgeries := s.surgeries ++ [.compact] }

/-- `compact` is over: a compaction was appended or not. -/
def compacted (i : Nat) (succeeds : Bool) : Activity :=
  { s with
    session := if succeeds then s.session.append none else s.session
    surgeries := s.surgeries.eraseIdx i
    connected := true }

/-- `navigateTree` is over: it was cancelled, or the leaf was moved and a summary appended. -/
def navigated (i : Nat) (summarized : Bool) (leaf : Option (Option (Fin s.session.nodes.length))) :
    Activity :=
  let s' := { s with surgeries := s.surgeries.eraseIdx i }
  match leaf with
  | none => s'
  | some leaf =>
    let session := s.session.moveTo (leaf.map (·.val)) (by
      intro l h
      obtain ⟨node, -, rfl⟩ := Option.map_eq_some_iff.1 h
      exact node.isLt)
    { s' with session := if summarized then session.append none else session }

/-! ## Steps -/

/-- What happens to a session. -/
inductive Event
  | prompt (message : AgentMessage) (isCommand : Bool) (streamingBehavior : Option Delivery)
      (starts : Bool)
  /-- An extension command has run, or there is none of that name. -/
  | commandDone (i : Nat) (handled : Bool)
  /-- A handler of `input` has handled the prompt. -/
  | intercepted (i : Nat)
  | decided (i : Nat)
  /-- There is no model or no authentication, or a handler throws. -/
  | refused (i : Nat)
  /-- The run starts, with the messages of extensions. -/
  | ready (i : Nat) (others : List AgentMessage)
  | sendCustomMessage (message : AgentMessage) (deliverAs : Delivery) (triggerTurn : Bool)
  | recordBashResult (message : AgentMessage)
  | poll (delivery : Delivery)
  /-- A message that waits ends. -/
  | announced
  | responded (message : AgentMessage)
  | persisted
  | runEnded
  | handled (i : Nat) (recovers : Bool)
  | continued (i : Nat) (endsWithAssistant : Bool)
  | finished (i : Nat)
  | reviewed
  /-- Any other entry is appended. -/
  | entryAppended
  | compact
  | compacted (i : Nat) (succeeds : Bool)
  | navigateTree
  | navigated (i : Nat) (summarized : Bool) (leaf : Option (Option Nat))
  deriving Repr

/-- A step; a call that throws at once is none. -/
def step : Event → Option Activity
  | .prompt message isCommand streamingBehavior starts =>
    some (s.prompt message isCommand streamingBehavior starts)
  | .commandDone i handled => do
    let call ← s.promptAt i .command
    if handled then s.endPrompt i call else some (s.moveTo i call .input)
  | .intercepted i => do s.endPrompt i (← s.promptAt i .input)
  | .decided i => do s.decide i (← s.promptAt i .input)
  | .refused i => do s.endPrompt i (← s.promptAt i .preparing)
  | .ready i others => do
    let call ← s.promptAt i .preparing
    if call.starts then some ((s.releasePreflight i).runAgentPrompt (call.message :: others))
    else none
  | .sendCustomMessage message deliverAs triggerTurn =>
    some (s.sendCustomMessage message deliverAs triggerTurn)
  | .recordBashResult message => some (s.recordBashResult message)
  | .poll delivery => do
    let run ← s.runAtRest
    if run.waiting = [] then some (s.poll delivery run) else none
  | .announced => do
    let run ← s.runAtRest
    match run.waiting with
    | [] => none
    | message :: waiting => some (s.endMessage { run with waiting := waiting } message)
  | .responded message => do
    let run ← s.runAtRest
    if run.waiting = [] ∧ isResponse run message then some (s.endMessage run message) else none
  | .persisted => do
    let run ← s.agentRun
    let message ← run.persisting
    some (s.persist run message)
  | .runEnded => do
    let run ← s.runAtRest
    if run.waiting = [] then some (s.endRun run) else none
  | .handled i recovers => do s.handlePostAgentRun i (← s.callAt i .handling) recovers
  | .continued i endsWithAssistant => do
    s.continueRun i (← s.callAt i .continuing) endsWithAssistant
  | .finished i => do s.finish i (← s.callAt i .exiting)
  | .reviewed =>
    if 0 < s.reviews then some { s with reviews := s.reviews - 1, isTaskReviewActive := false }
    else none
  | .entryAppended => some { s with session := s.session.append none }
  | .compact => some s.compact
  | .compacted i succeeds =>
    if s.surgeries[i]? = some .compact then some (s.compacted i succeeds) else none
  | .navigateTree =>
    if s.isStreaming then none else some { s with surgeries := s.surgeries ++ [.navigateTree] }
  | .navigated i summarized leaf =>
    if s.surgeries[i]? = some .navigateTree then
      match leaf with
      | none => some (s.navigated i summarized none)
      | some none => some (s.navigated i summarized (some none))
      | some (some l) =>
        if h : l < s.session.nodes.length then some (s.navigated i summarized (some (some ⟨l, h⟩)))
        else none
    else none

/-- A session that is opened, or new. -/
def opened (hasTaskRuntime : Bool) (steeringMode followUpMode : QueueMode) (session : EntryTree) :
    Activity where
  hasTaskRuntime := hasTaskRuntime
  isAgentRunActive := false
  isTaskReviewActive := false
  runCounter := 0
  connected := true
  prompts := []
  calls := []
  reviews := 0
  surgeries := []
  agentRun := none
  runs := []
  steeringQueue := ⟨[], steeringMode⟩
  followUpQueue := ⟨[], followUpMode⟩
  pendingBashMessages := []
  transcript := []
  session := session
  accepted := []

/-! ## Examples -/

/-- A message of an extension. -/
def notice : AgentMessage := .custom ⟨"notice", .str "build finished", true, none, some 0⟩

/-- The prompt of a user. -/
def request : AgentMessage := .user ⟨some (.str "fix the test"), 0⟩

/-- A response that calls no tool. -/
def response : AgentMessage := .assistant ⟨some [.text "done"], "p", "m", .zero, .stop, none, 0⟩

/-- A session without entries. -/
def emptySession : Activity := opened false .oneAtATime .oneAtATime .empty

end Activity
end BeauPi.AgentSession
