import BeauPi.AgentLoop.Tools

/-!
# The agent loop

One call of `runAgentLoop` or `runAgentLoopContinue` as a state machine.  A step runs the code up to
the next `await`; what the awaited promise gives is its input.

* `Task` — the execution of one prepared tool call.
* `PC` — where the loop stands.
* `Loop.step` — one step of the loop or of a task, and the event it emits.
-/

namespace BeauPi.AgentLoop

open Llm Sessions

/-! ## Events -/

/-- `AgentEvent` -/
inductive AgentEvent
  | agentStart
  | agentEnd (messages : List AgentMessage)
  | turnStart
  | turnEnd (message : AssistantMessage) (toolResults : List ToolResultMessage)
  | messageStart (message : AgentMessage)
  | messageUpdate (message : AgentMessage)
  | messageEnd (message : AgentMessage)
  | toolExecutionStart (toolCall : ToolCall)
  | toolExecutionUpdate (toolCall : ToolCall) (partialResult : ToolResult)
  | toolExecutionEnd (finalized : Finalized)
  deriving DecidableEq, Repr

/-! ## Tasks -/

/-- The promise of one update event. -/
inductive UpdateStatus
  | pending
  | delivered
  | rejected
  deriving DecidableEq, Repr

/-- Where the execution of a call stands. -/
inductive TaskPhase
  /-- The function is made but not called. -/
  | ready
  /-- `tool.execute` is under way and updates are accepted. -/
  | executing
  /-- The tool has returned or thrown, and its updates are awaited. -/
  | settling (returned : Except Thrown ToolResult)
  /-- `afterToolCall` is awaited. -/
  | finalizing (executed : Executed)
  /-- `tool_execution_end` is emitted and its listeners are awaited. -/
  | ending (finalized : Finalized)
  | done (finalized : Finalized)
  | rejected
  deriving Repr

/-- `FinalizedToolCallEntry`: a call that is answered at once is `done`. -/
structure Task where
  toolCall : ToolCall
  phase : TaskPhase
  updates : List UpdateStatus
  deriving Repr

/-- What happens to a task. -/
inductive TaskInput
  | update (partialResult : ToolResult)
  | updateDelivered (index : Nat)
  | updateRejected (index : Nat)
  | returned (result : Except Thrown ToolResult)
  | updatesSettled (durationMs : ℚ)
  | updatesReject
  | after (answer : HookAnswer AfterToolCallResult)
  | endDelivered
  | endRejected
  deriving Repr

/-- The update at an index settles. -/
def Task.settleUpdate (t : Task) (index : Nat) (status : UpdateStatus) : Option Task :=
  if t.updates[index]? = some .pending then
    some { t with updates := t.updates.set index status }
  else none

/-- One step of `executePreparedToolCall`, `finalizeExecutedToolCall` and
`emitToolExecutionEnd`. -/
def Task.step (t : Task) : TaskInput → Option (Task × List AgentEvent)
  | .update partialResult =>
    match t.phase with
    | .executing => some ({ t with updates := t.updates ++ [.pending] },
        [.toolExecutionUpdate t.toolCall partialResult])
    | _ => none
  | .updateDelivered index => (t.settleUpdate index .delivered).map (·, [])
  | .updateRejected index => (t.settleUpdate index .rejected).map (·, [])
  | .returned result =>
    match t.phase with
    | .executing => some ({ t with phase := .settling result }, [])
    | _ => none
  | .updatesSettled durationMs =>
    match t.phase with
    | .settling returned =>
      if t.updates.all (· = .delivered) then
        some ({ t with phase := .finalizing (executedOutcome returned durationMs) }, [])
      else none
    | _ => none
  | .updatesReject =>
    match t.phase with
    | .settling _ =>
      if t.updates.any (· = .rejected) then some ({ t with phase := .rejected }, []) else none
    | _ => none
  | .after answer =>
    match t.phase with
    | .finalizing executed =>
      let finalized := finalizeExecutedToolCall t.toolCall executed answer
      some ({ t with phase := .ending finalized }, [.toolExecutionEnd finalized])
    | _ => none
  | .endDelivered =>
    match t.phase with
    | .ending finalized => some ({ t with phase := .done finalized }, [])
    | _ => none
  | .endRejected =>
    match t.phase with
    | .ending _ => some ({ t with phase := .rejected }, [])
    | _ => none

/-- The outcome of a task that is done. -/
def Task.outcome? (t : Task) : Option Finalized :=
  match t.phase with
  | .done finalized => some finalized
  | _ => none

/-- Has the promise of the task been rejected? -/
def Task.isRejected (t : Task) : Bool :=
  match t.phase with
  | .rejected => true
  | _ => false

/-- Calls the function of an entry. -/
def Task.launch (t : Task) : Task :=
  match t.phase with
  | .ready => { t with phase := .executing }
  | _ => t

/-! ## The loop -/

/-- How the tool calls of a message are answered. -/
inductive BatchMode
  /-- `failToolCallsFromTruncatedMessage` -/
  | truncated
  /-- `executeToolCallsSequential` -/
  | sequential
  /-- `executeToolCallsParallel` -/
  | parallel
  deriving DecidableEq, Repr

/-- The tool calls of one message while they are answered. -/
structure Batch where
  message : AssistantMessage
  mode : BatchMode
  /-- The calls after the current one. -/
  rest : List ToolCall
  /-- `finalizedCalls` of the sequential mode. -/
  finalized : List Finalized
  /-- `messages` -/
  results : List ToolResultMessage
  deriving Repr

/-- Where the loop stands: the `await` it has reached.  `pendingMessages` are the arguments of the
places between a poll and the model's response. -/
inductive PC
  /-- The function is called with these prompts. -/
  | start (prompts : List AgentMessage)
  /-- `agent_start` is emitted. -/
  | started (prompts : List AgentMessage)
  /-- The `turn_start` before the prompts is emitted. -/
  | opened (prompts : List AgentMessage)
  /-- `message_start` is emitted for a prompt. -/
  | promptStarted (message : AgentMessage) (rest : List AgentMessage)
  /-- `message_end` is emitted for a prompt. -/
  | promptEnded (rest : List AgentMessage)
  /-- The first poll of the steering messages. -/
  | initialPoll
  /-- `turn_start` is emitted. -/
  | turnStarted (pending : List AgentMessage)
  /-- `message_start` is emitted for a pending message. -/
  | injectStarted (message : AgentMessage) (rest : List AgentMessage)
  /-- `message_end` is emitted for a pending message. -/
  | injectEnded (message : AgentMessage) (rest : List AgentMessage)
  /-- The response is requested and has not started. -/
  | stream
  /-- The response streams, and its partial message is the last of the context. -/
  | streaming (partialMessage : AssistantMessage)
  /-- `message_start` is emitted for a response that had not started. -/
  | finalStarted (final : AssistantMessage)
  /-- `message_end` is emitted for the response. -/
  | received (final : AssistantMessage)
  /-- `turn_end` is emitted for a response that ended in error or aborted. -/
  | failed
  /-- `tool_execution_start` is emitted for a call. -/
  | preparing (batch : Batch) (toolCall : ToolCall)
  /-- `tool_execution_end` is emitted for a call that was answered at once. -/
  | ended (batch : Batch) (finalized : Finalized)
  /-- The task of a call is awaited. -/
  | running (batch : Batch) (toolCall : ToolCall)
  /-- `Promise.all` awaits the tasks of all calls. -/
  | joining (batch : Batch)
  /-- `message_start` is emitted for a result; the others are still to be announced. -/
  | announced (batch : Batch) (result : ToolResultMessage) (finalized : Finalized)
      (others : List Finalized)
  /-- `message_end` is emitted for a result. -/
  | recorded (batch : Batch) (result : ToolResultMessage) (finalized : Finalized)
      (others : List Finalized)
  /-- `turn_end` is emitted, and `prepareNextTurn` is awaited next. -/
  | turnEnded (hasMoreToolCalls : Bool)
  /-- `shouldStopAfterTurn` is awaited. -/
  | stopTest (hasMoreToolCalls : Bool)
  /-- The poll of the steering messages after a turn. -/
  | pollSteering (hasMoreToolCalls : Bool)
  /-- The poll of the follow-up messages. -/
  | pollFollowUp
  /-- `agent_end` is emitted. -/
  | finished
  | returned
  | rejected
  deriving Repr

/-- The state of one call of the loop. -/
structure Loop where
  /-- `currentContext.messages` -/
  messages : List AgentMessage
  /-- `currentContext.tools` -/
  tools : List Tool
  /-- `config.toolExecution === "sequential"` -/
  sequential : Bool
  newMessages : List AgentMessage
  /-- `signal.aborted` -/
  aborted : Bool
  /-- The tasks of the latest batch. -/
  tasks : List Task
  pc : PC
  deriving Repr

/-- What the loop waits for.  A response starts at most once, as the protocol of a stream says. -/
inductive Input
  /-- The listeners of the last event are done; the time is read where it is needed. -/
  | resume (now : ℚ)
  /-- A listener of the last event rejects. -/
  | listenerRejects
  /-- A callback of the configuration or the stream throws. -/
  | callbackThrows
  | steering (messages : List AgentMessage)
  | followUps (messages : List AgentMessage)
  | streamStart (message : AssistantMessage)
  | streamUpdate (message : AssistantMessage)
  | streamEnd (final : AssistantMessage)
  | prepared (args : Except Thrown Unit) (before : HookAnswer BeforeToolCallResult)
  | nextTurn (context : Option (List AgentMessage × List Tool))
  | stopAfterTurn (stop : Bool)
  /-- The task or tasks awaited are done. -/
  | joined (now : ℚ)
  /-- A task awaited is rejected. -/
  | joinRejects
  | abort
  | task (index : Nat) (input : TaskInput)
  deriving Repr

/-- The state and the event after a step. -/
abbrev Stepped := Option (Loop × List AgentEvent)

/-- Moves on without an event. -/
def Loop.goto (l : Loop) (pc : PC) : Stepped := some ({ l with pc := pc }, [])

/-- Emits an event and moves on. -/
def Loop.emit (l : Loop) (event : AgentEvent) (pc : PC) : Stepped :=
  some ({ l with pc := pc }, [event])

/-- The prompts that are still to be announced, and then the first poll. -/
def Loop.nextPrompt (l : Loop) : List AgentMessage → Stepped
  | [] => l.goto .initialPoll
  | m :: rest => l.emit (.messageStart m) (.promptStarted m rest)

/-- The pending messages that are still to be injected, and then the request. -/
def Loop.inject (l : Loop) : List AgentMessage → Stepped
  | [] => l.goto .stream
  | m :: rest => l.emit (.messageStart m) (.injectStarted m rest)

/-- The end of a turn, with the tool results that go to the context. -/
def Loop.endTurn (l : Loop) (message : AssistantMessage) (toolResults : List ToolResultMessage)
    (hasMoreToolCalls : Bool) : Stepped :=
  let results := toolResults.map AgentMessage.toolResult
  { l with messages := l.messages ++ results, newMessages := l.newMessages ++ results }.emit
    (.turnEnd message toolResults) (.turnEnded hasMoreToolCalls)

/-- The loop over the calls has ended. -/
def Loop.endCalls (l : Loop) (b : Batch) : Stepped :=
  match b.mode with
  | .truncated => l.endTurn b.message b.results true
  | .sequential => l.endTurn b.message b.results (!shouldTerminateToolBatch b.finalized)
  | .parallel => { l with tasks := l.tasks.map Task.launch }.goto (.joining b)

/-- The next call of the loop over the calls. -/
def Loop.nextCall (l : Loop) (b : Batch) : Stepped :=
  match b.rest with
  | [] => l.endCalls b
  | call :: rest => l.emit (.toolExecutionStart call) (.preparing { b with rest := rest } call)

/-- The next call, unless the signal is aborted. -/
def Loop.nextUnlessAborted (l : Loop) (b : Batch) : Stepped :=
  if l.aborted then l.endCalls b else l.nextCall b

/-- `executeToolCalls`: is one call after the other executed? -/
def Loop.runsSequentially (l : Loop) (toolCalls : List ToolCall) : Bool :=
  l.sequential || toolCalls.any fun call =>
    (l.tools.find? fun tool => tool.name = call.name).any (·.sequential)

/-- Answers the tool calls of a message. -/
def Loop.answerCalls (l : Loop) (message : AssistantMessage) : Stepped :=
  let mode := if message.stopReason = .length then BatchMode.truncated
    else if l.runsSequentially message.toolCalls then .sequential else .parallel
  { l with tasks := [] }.nextCall ⟨message, mode, message.toolCalls, [], []⟩

/-- `message_start` for the result of a call. -/
def Loop.announce (l : Loop) (b : Batch) (finalized : Finalized) (others : List Finalized)
    (now : ℚ) : Stepped :=
  let result := createToolResultMessage finalized now
  l.emit (.messageStart (.toolResult result)) (.announced b result finalized others)

/-- The results of a parallel batch that are still to be announced. -/
def Loop.nextResult (l : Loop) (b : Batch) (all others : List Finalized) (now : ℚ) : Stepped :=
  match others with
  | [] => l.endTurn b.message b.results (!shouldTerminateToolBatch all)
  | finalized :: others => l.announce b finalized others now

/-- The outcomes of the tasks, if all are done. -/
def Loop.outcomes? (l : Loop) : Option (List Finalized) := l.tasks.mapM Task.outcome?

/-- `processed` is what the response leads to. -/
def Loop.processed (l : Loop) (message : AssistantMessage) : Stepped :=
  let l := { l with newMessages := l.newMessages ++ [AgentMessage.assistant message] }
  if message.stopReason = .error ∨ message.stopReason = .aborted then
    l.emit (.turnEnd message []) .failed
  else if message.toolCalls = [] then l.endTurn message [] false
  else l.answerCalls message

/-- The listeners of the last event are done. -/
def Loop.resume (l : Loop) (now : ℚ) : Stepped :=
  match l.pc with
  | .start prompts => l.emit .agentStart (.started prompts)
  | .started prompts => l.emit .turnStart (.opened prompts)
  | .opened prompts => l.nextPrompt prompts
  | .promptStarted m rest => l.emit (.messageEnd m) (.promptEnded rest)
  | .promptEnded rest => l.nextPrompt rest
  | .turnStarted pending => l.inject pending
  | .injectStarted m rest => l.emit (.messageEnd m) (.injectEnded m rest)
  | .injectEnded m rest =>
    { l with messages := l.messages ++ [m], newMessages := l.newMessages ++ [m] }.inject rest
  | .finalStarted final => l.emit (.messageEnd (.assistant final)) (.received final)
  | .received final => l.processed final
  | .failed => l.emit (.agentEnd l.newMessages) .finished
  | .preparing b call =>
    match b.mode with
    | .truncated =>
      let finalized := truncatedOutcome call
      l.emit (.toolExecutionEnd finalized) (.ended b finalized)
    | _ => none
  | .ended b finalized =>
    match b.mode with
    | .parallel =>
      let entry : Task := ⟨finalized.toolCall, .done finalized, []⟩
      { l with tasks := l.tasks ++ [entry] }.nextUnlessAborted b
    | _ => l.announce b finalized [] now
  | .announced b result finalized others =>
    l.emit (.messageEnd (.toolResult result)) (.recorded b result finalized others)
  | .recorded b result finalized others =>
    let b := { b with results := b.results ++ [result], finalized := b.finalized ++ [finalized] }
    match b.mode with
    | .truncated => l.nextCall b
    | .sequential => { l with tasks := [] }.nextUnlessAborted b
    | .parallel => l.nextResult b b.finalized others now
  | .finished => l.goto .returned
  | _ => none

/-- Has the loop been rejected? -/
def PC.isRejected : PC → Bool
  | .rejected => true
  | _ => false

/-- Is the loop waiting for listeners? -/
def PC.emitted : PC → Bool
  | .start _ | .initialPoll | .stream | .running .. | .joining _ | .stopTest _ | .pollSteering _
  | .pollFollowUp | .returned | .rejected => false
  | _ => true

/-- Is the loop waiting for a callback of the configuration or for the stream?  The tool hooks are
left out: what they throw is caught. -/
def PC.calling : PC → Bool
  | .initialPoll | .stream | .streaming _ | .turnEnded _ | .stopTest _ | .pollSteering _
  | .pollFollowUp => true
  | _ => false

/-- Another round of the inner loop, or its end. -/
def Loop.nextTurn (l : Loop) (hasMoreToolCalls : Bool) (pending : List AgentMessage) : Stepped :=
  if hasMoreToolCalls ∨ pending ≠ [] then l.emit .turnStart (.turnStarted pending)
  else l.goto .pollFollowUp

/-- The partial message in the context is replaced. -/
def Loop.replaceLast (l : Loop) (message : AssistantMessage) : Loop :=
  { l with messages := l.messages.dropLast ++ [AgentMessage.assistant message] }

/-- One step of the loop or of a task. -/
def Loop.step (l : Loop) : Input → Stepped
  | .resume now => l.resume now
  | .listenerRejects => if l.pc.emitted then l.goto .rejected else none
  | .callbackThrows => if l.pc.calling then l.goto .rejected else none
  | .steering messages =>
    match l.pc with
    | .initialPoll => l.inject messages
    | .pollSteering hasMoreToolCalls => l.nextTurn hasMoreToolCalls messages
    | _ => none
  | .followUps messages =>
    match l.pc with
    | .pollFollowUp =>
      if messages = [] then l.emit (.agentEnd l.newMessages) .finished
      else l.nextTurn true messages
    | _ => none
  | .streamStart message =>
    match l.pc with
    | .stream => { l with messages := l.messages ++ [AgentMessage.assistant message] }.emit
        (.messageStart (.assistant message)) (.streaming message)
    | _ => none
  | .streamUpdate message =>
    match l.pc with
    | .stream => l.goto .stream
    | .streaming _ =>
      (l.replaceLast message).emit (.messageUpdate (.assistant message)) (.streaming message)
    | _ => none
  | .streamEnd final =>
    match l.pc with
    | .stream => { l with messages := l.messages ++ [AgentMessage.assistant final] }.emit
        (.messageStart (.assistant final)) (.finalStarted final)
    | .streaming _ =>
      (l.replaceLast final).emit (.messageEnd (.assistant final)) (.received final)
    | _ => none
  | .prepared args before =>
    match l.pc with
    | .preparing b call =>
      match b.mode, prepareToolCall l.tools call args before l.aborted with
      | .truncated, _ => none
      | _, some result =>
        let finalized : Finalized := ⟨call, result, true⟩
        l.emit (.toolExecutionEnd finalized) (.ended b finalized)
      | .sequential, none =>
        { l with tasks := [Task.mk call .executing []] }.goto (.running b call)
      | .parallel, none =>
        { l with tasks := l.tasks ++ [Task.mk call .ready []] }.nextUnlessAborted b
    | _ => none
  | .nextTurn context =>
    match l.pc with
    | .turnEnded hasMoreToolCalls =>
      match context with
      | some (messages, tools) =>
        { l with messages := messages, tools := tools }.goto (.stopTest hasMoreToolCalls)
      | none => l.goto (.stopTest hasMoreToolCalls)
    | _ => none
  | .stopAfterTurn stop =>
    match l.pc with
    | .stopTest hasMoreToolCalls =>
      if stop then l.emit (.agentEnd l.newMessages) .finished
      else l.goto (.pollSteering hasMoreToolCalls)
    | _ => none
  | .joined now =>
    match l.pc, l.outcomes? with
    | .running b _, some [finalized] => l.announce b finalized [] now
    | .joining b, some finalized => l.nextResult b finalized finalized now
    | _, _ => none
  | .joinRejects =>
    match l.pc with
    | .running .. | .joining _ => if l.tasks.any Task.isRejected then l.goto .rejected else none
    | _ => none
  | .abort => some ({ l with aborted := true }, [])
  | .task index input => do
    let t ← l.tasks[index]?
    let (t, events) ← t.step input
    return ({ l with tasks := l.tasks.set index t }, events)

/-! ## The two entry points -/

/-- `runAgentLoop` -/
def runAgentLoop (prompts messages : List AgentMessage) (tools : List Tool) (sequential : Bool) :
    Loop where
  messages := messages ++ prompts
  tools := tools
  sequential := sequential
  newMessages := prompts
  aborted := false
  tasks := []
  pc := .start prompts

/-- `runAgentLoopContinue` -/
def runAgentLoopContinue (messages : List AgentMessage) (tools : List Tool) (sequential : Bool) :
    Except String Loop :=
  match messages.getLast? with
  | none => .error "Cannot continue: no messages in context"
  | some last =>
    if last.isAssistant then .error "Cannot continue from message role: assistant"
    else .ok {
      messages := messages
      tools := tools
      sequential := sequential
      newMessages := []
      aborted := false
      tasks := []
      pc := .start [] }

end BeauPi.AgentLoop
