import BeauPi.AgentLoop.Loop

/-!
# The transcript of the agent loop

* `Run` — a run of the loop, its inputs and the events it has emitted.
* `Started` — the two ways to call the loop.
* `Segment` — a message that was injected, or a turn: a response and its tool results.
* `Core` — how the context, `newMessages` and the events agree, up to what is under way.
* `Sound` — the invariant: `Core` for the place where the loop stands.
-/

namespace BeauPi.AgentLoop

open Llm Sessions List

/-! ## Runs -/

/-- The events emitted so far, each with the signal at that moment. -/
abbrev Log := List (AgentEvent × Bool)

/-- The log of some events, emitted under one signal. -/
def entries (events : List AgentEvent) (aborted : Bool) : Log := events.map fun e => (e, aborted)

/-- A run of the loop from a state, with its inputs and its log. -/
inductive Run (start : Loop) : List Input → Log → Loop → Prop
  | nil : Run start [] [] start
  | snoc {inputs : List Input} {log : Log} {l l' : Loop} {input : Input}
      {events : List AgentEvent} : Run start inputs log l → l.step input = some (l', events) →
      Run start (inputs ++ [input]) (log ++ entries events l'.aborted) l'

/-- A call of the loop, with the context of the caller and the prompts. -/
inductive Started (context : List AgentMessage) : List AgentMessage → Loop → Prop
  | prompt (prompts : List AgentMessage) (tools : List Tool) (sequential : Bool) :
      Started context prompts (runAgentLoop prompts context tools sequential)
  | resume {tools : List Tool} {sequential : Bool} {l : Loop} :
      runAgentLoopContinue context tools sequential = .ok l → Started context [] l

/-- Is it not that a listener rejects? -/
def TaskInput.listenersAnswer : TaskInput → Bool
  | .updateRejected _ | .endRejected => false
  | _ => true

/-- Is it not that a listener rejects? -/
def Input.listenersAnswer : Input → Bool
  | .listenerRejects => false
  | .task _ input => input.listenersAnswer
  | _ => true

/-- Does `prepareNextTurn` return a context? -/
def Input.replacesContext : Input → Bool
  | .nextTurn (some _) => true
  | _ => false

/-! ## What the log says -/

/-- The messages of `message_end` events. -/
def messageEnds (log : Log) : List AgentMessage :=
  log.filterMap fun
    | (.messageEnd m, _) => some m
    | _ => none

/-- The calls of `tool_execution_start` events. -/
def toolStarts (log : Log) : List ToolCall :=
  log.filterMap fun
    | (.toolExecutionStart call, _) => some call
    | _ => none

/-- The calls of `tool_execution_end` events. -/
def toolEnds (log : Log) : List ToolCall :=
  log.filterMap fun
    | (.toolExecutionEnd finalized, _) => some finalized.toolCall
    | _ => none

/-- A response, its tool results, and the signal when its `turn_end` is emitted. -/
abbrev TurnEnd := AssistantMessage × List ToolResultMessage × Bool

/-- The turns of `turn_end` events. -/
def turnEnds (log : Log) : List TurnEnd :=
  log.filterMap fun
    | (.turnEnd message toolResults, aborted) => some (message, toolResults, aborted)
    | _ => none

/-- Is the event an `agent_end`? -/
def AgentEvent.isAgentEnd : AgentEvent → Bool
  | .agentEnd _ => true
  | _ => false

/-- The responses that the inputs of a run have brought. -/
def responses (inputs : List Input) : List AssistantMessage :=
  inputs.filterMap fun
    | .streamEnd final => some final
    | _ => none

section Projections

variable (log log' : Log) (e : AgentEvent) (aborted : Bool)

@[simp] theorem entries_nil : entries [] aborted = [] := rfl

@[simp] theorem messageEnds_append : messageEnds (log ++ log') =
    messageEnds log ++ messageEnds log' := filterMap_append

@[simp] theorem toolStarts_append : toolStarts (log ++ log') =
    toolStarts log ++ toolStarts log' := filterMap_append

@[simp] theorem toolEnds_append : toolEnds (log ++ log') =
    toolEnds log ++ toolEnds log' := filterMap_append

@[simp] theorem turnEnds_append : turnEnds (log ++ log') =
    turnEnds log ++ turnEnds log' := filterMap_append

@[simp] theorem responses_append (inputs inputs' : List Input) :
    responses (inputs ++ inputs') = responses inputs ++ responses inputs' :=
  filterMap_append

end Projections

/-! ## Segments -/

/-- A part of the transcript. -/
inductive Segment
  /-- A prompt, a steering or a follow-up message. -/
  | injected (message : AgentMessage)
  | turn (message : AssistantMessage) (results : List ToolResultMessage)

/-- The messages of a segment. -/
def Segment.messages : Segment → List AgentMessage
  | .injected m => [m]
  | .turn m results => .assistant m :: results.map .toolResult

/-- The turn of a segment. -/
def Segment.turn? : Segment → Option (AssistantMessage × List ToolResultMessage)
  | .injected _ => none
  | .turn m results => some (m, results)

/-- The messages of some segments. -/
def transcriptOf (segments : List Segment) : List AgentMessage :=
  segments.flatMap Segment.messages

/-- What a tool result says of its call. -/
def ToolResultMessage.key (result : ToolResultMessage) : String × String :=
  (result.toolCallId, result.toolName)

/-- The id and the name of a call. -/
def ToolCall.key (call : ToolCall) : String × String := (call.id, call.name)

/-- A response that ended in error or aborted has no results.  Any other is answered by one result
for each of its calls, in their order, or for the first of them if the signal is aborted. -/
def Answered (turn : TurnEnd) : Prop :=
  let (message, results, aborted) := turn
  if message.stopReason = .error ∨ message.stopReason = .aborted then results = []
  else ∃ cut, results.map ToolResultMessage.key ++ cut = message.toolCalls.map ToolCall.key ∧
    (cut ≠ [] → aborted = true)

/-! ## The invariant -/

/-- What is under way. -/
structure Frame where
  /-- The end of the context that is no segment yet. -/
  tail : List AgentMessage
  /-- The end of `newMessages` that is no segment yet. -/
  openNew : List AgentMessage
  /-- The response that is not yet answered. -/
  awaiting : List AssistantMessage
  /-- The prompts that are still to be announced. -/
  upcoming : List AgentMessage
  /-- The messages announced that are not yet in `newMessages`. -/
  lag : List AgentMessage
  /-- The call that is being prepared. -/
  current : List ToolCall
  /-- `agent_end` is emitted. -/
  closed : Bool

/-- Nothing is under way. -/
def Frame.idle : Frame := ⟨[], [], [], [], [], [], false⟩

/-- A batch is under way, with results announced. -/
def Batch.frame (b : Batch) (announced : List ToolResultMessage) (current : List ToolCall) :
    Frame where
  tail := [.assistant b.message]
  openNew := [.assistant b.message]
  awaiting := [b.message]
  upcoming := []
  lag := announced.map .toolResult
  current := current
  closed := false

/-- What is under way where the loop stands. -/
def PC.frame : PC → Frame
  | .start prompts | .started prompts | .opened prompts => { Frame.idle with upcoming := prompts }
  | .promptStarted m rest => { Frame.idle with upcoming := m :: rest }
  | .promptEnded rest => { Frame.idle with upcoming := rest }
  | .injectEnded m _ => { Frame.idle with lag := [m] }
  | .streaming partialMessage => { Frame.idle with tail := [.assistant partialMessage] }
  | .finalStarted final =>
    { Frame.idle with tail := [.assistant final], awaiting := [final] }
  | .received final =>
    { Frame.idle with
      tail := [.assistant final], awaiting := [final], lag := [.assistant final] }
  | .preparing b call => b.frame b.results [call]
  | .ended b _ | .running b _ | .joining b | .announced b _ _ _ => b.frame b.results []
  | .recorded b result _ _ => b.frame (b.results ++ [result]) []
  | .finished | .returned => { Frame.idle with closed := true }
  | _ => .idle

/-- Has `tool_execution_end` been emitted for the task? -/
def Task.hasEnded (t : Task) : Bool :=
  match t.phase with
  | .ending _ | .done _ => true
  | _ => false

/-- The calls of tasks that have not ended. -/
def openCalls (tasks : List Task) : List ToolCall :=
  (tasks.filter fun t => !t.hasEnded).map (·.toolCall)

/-- The part of the context that is not of this run, and the segments before it: the context of the
caller, until `prepareNextTurn` returns another. -/
inductive ContextBase (start : Loop) : List Input → List AgentMessage → List Segment → Prop
  | caller {context prompts : List AgentMessage} : Started context prompts start →
      ContextBase start [] context []
  | replaced {inputs : List Input} {log : Log} {l : Loop} {context : List AgentMessage}
      {tools : List Tool} {segments : List Segment} : Run start inputs log l →
      l.newMessages = transcriptOf segments →
      ContextBase start (inputs ++ [.nextTurn (some (context, tools))]) context segments
  | same {inputs : List Input} {input : Input} {base : List AgentMessage}
      {earlier : List Segment} : ContextBase start inputs base earlier →
      input.replacesContext = false → ContextBase start (inputs ++ [input]) base earlier

/-- How the context, `newMessages` and the log agree, up to what is under way. -/
structure Core (start : Loop) (inputs : List Input) (log : Log)
    (messages newMessages : List AgentMessage) (tasks : List Task) (f : Frame) : Prop where
  segments : ∃ base earlier since, ContextBase start inputs base earlier ∧
    messages = base ++ transcriptOf since ++ f.tail ∧
    newMessages = transcriptOf (earlier ++ since) ++ f.openNew ∧
    (earlier ++ since).filterMap Segment.turn? =
      (turnEnds log).map fun turn => (turn.1, turn.2.1)
  responses : responses inputs = (turnEnds log).map Prod.fst ++ f.awaiting
  answered : ∀ turn ∈ turnEnds log, Answered turn
  announced : messageEnds log ++ f.upcoming = newMessages ++ f.lag
  calls : (toolStarts log).Perm (toolEnds log ++ f.current ++ openCalls tasks)
  closing : if f.closed then
      ∃ pre aborted, log = pre ++ [(.agentEnd newMessages, aborted)] ∧
        ∀ entry ∈ pre, entry.1.isAgentEnd = false
    else ∀ entry ∈ log, entry.1.isAgentEnd = false

/-- What a task keeps to while no listener rejects. -/
structure Task.Ok (t : Task) : Prop where
  own : ∀ finalized, t.phase = .ending finalized ∨ t.phase = .done finalized →
    finalized.toolCall = t.toolCall
  alive : t.isRejected = false
  updates : ∀ status ∈ t.updates, status ≠ .rejected

/-- The calls of a batch that have been dealt with, and the one at hand, are the first ones. -/
structure Batch.Answers (b : Batch) (dealt : List (String × String)) (current : List ToolCall) :
    Prop where
  keys : dealt ++ current.map ToolCall.key ++ b.rest.map ToolCall.key =
    b.message.toolCalls.map ToolCall.key
  ok : ¬(b.message.stopReason = .error ∨ b.message.stopReason = .aborted)

/-- The calls that a batch has dealt with while it goes through them. -/
def Loop.dealt (l : Loop) (b : Batch) : List (String × String) :=
  match b.mode with
  | .parallel => l.tasks.map fun t => ToolCall.key t.toolCall
  | _ => b.results.map ToolResultMessage.key

/-- Nothing is left over from a batch that goes through its calls one by one. -/
def Loop.Clean (l : Loop) (b : Batch) : Prop :=
  match b.mode with
  | .parallel => b.results = []
  | _ => l.tasks = []

/-- The batch at the place where the loop stands. -/
def Loop.BatchAt (l : Loop) : Prop :=
  match l.pc with
  | .preparing b call => b.Answers (l.dealt b) [call] ∧ l.Clean b
  | .ended b finalized => b.Answers (l.dealt b) [finalized.toolCall] ∧ l.Clean b
  | .running b call =>
    b.mode = .sequential ∧ b.Answers (b.results.map ToolResultMessage.key) [call] ∧
      ∃ t, l.tasks = [t] ∧ t.toolCall = call
  | .joining b => b.mode = .parallel ∧ b.Answers (l.dealt b) [] ∧ b.results = [] ∧
    (b.rest ≠ [] → l.aborted = true)
  | .announced b result _ others | .recorded b result _ others =>
    b.Answers (b.results.map ToolResultMessage.key ++
      (ToolResultMessage.key result :: others.map fun f => ToolCall.key f.toolCall)) [] ∧
    (b.mode ≠ .parallel → others = []) ∧ (b.mode = .truncated → l.tasks = []) ∧
    (b.mode = .parallel → b.rest ≠ [] → l.aborted = true) ∧ openCalls l.tasks = []
  | _ => openCalls l.tasks = []

/-- At most the partial message of a response. -/
def UnderWay (tail : List AgentMessage) : Prop :=
  ∃ response : Option AssistantMessage, tail = response.toList.map .assistant

/-- The invariant of the loop. -/
structure Sound (start : Loop) (inputs : List Input) (log : Log) (l : Loop) : Prop where
  tasks : ∀ t ∈ l.tasks, t.Ok
  batch : l.BatchAt
  core : ∃ tail, Core start inputs log l.messages l.newMessages l.tasks
      { l.pc.frame with tail := tail } ∧ match l.pc with
    | .rejected => UnderWay tail
    | pc => tail = pc.frame.tail

end BeauPi.AgentLoop
