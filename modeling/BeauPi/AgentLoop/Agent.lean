import BeauPi.AgentLoop.Loop

/-!
# The agent

`Agent` holds the transcript and the queues, and runs the loop over them, one call at a time.

* `PendingMessageQueue` — the queue of the steering or of the follow-up messages.
* `RunPhase` — the loop of a run, or the events that announce its failure.
* `Agent.step` — one call of a method, or one step of the run, and the events it emits.
-/

namespace BeauPi.AgentLoop

open Llm Sessions

/-! ## Queues -/

/-- `QueueMode` -/
inductive QueueMode
  | all
  | oneAtATime
  deriving DecidableEq, Repr

/-- `PendingMessageQueue` -/
structure PendingMessageQueue where
  messages : List AgentMessage
  mode : QueueMode
  deriving DecidableEq, Repr

namespace PendingMessageQueue

/-- `enqueue` -/
def enqueue (queue : PendingMessageQueue) (message : AgentMessage) : PendingMessageQueue :=
  { queue with messages := queue.messages ++ [message] }

/-- How many messages a poll takes. -/
def take (queue : PendingMessageQueue) : Nat :=
  match queue.mode with
  | .all => queue.messages.length
  | .oneAtATime => 1

/-- `drain`: what it returns. -/
def drained (queue : PendingMessageQueue) : List AgentMessage :=
  queue.messages.take queue.take

/-- `drain`: what it leaves. -/
def rest (queue : PendingMessageQueue) : PendingMessageQueue :=
  { queue with messages := queue.messages.drop queue.take }

/-- `clear` -/
def clear (queue : PendingMessageQueue) : PendingMessageQueue := { queue with messages := [] }

/-- What a poll takes and what it leaves are the queue. -/
theorem drained_append_rest (queue : PendingMessageQueue) :
    queue.drained ++ queue.rest.messages = queue.messages :=
  List.take_append_drop _ _

end PendingMessageQueue

/-! ## Runs -/

/-- The last event of a failure that has been emitted. -/
inductive FailureStage
  | messageStarted
  | messageEnded
  | turnEnded
  | agentEnded
  deriving DecidableEq, Repr

/-- Where a run stands. -/
inductive RunPhase
  /-- The executor: the first poll of the steering messages may be skipped. -/
  | looping (loop : Loop) (skipInitialSteeringPoll : Bool)
  /-- `handleRunFailure` -/
  | failing (failureMessage : AssistantMessage) (stage : FailureStage)
  deriving Repr

/-- `Agent` -/
structure Agent where
  /-- `state.messages` -/
  messages : List AgentMessage
  /-- `state.tools` -/
  tools : List Tool
  /-- `state.model.provider` -/
  provider : String
  /-- `state.model.id` -/
  model : String
  /-- `toolExecution === "sequential"` -/
  sequential : Bool
  steeringQueue : PendingMessageQueue
  followUpQueue : PendingMessageQueue
  activeRun : Option RunPhase
  deriving Repr

/-- What happens to an agent. -/
inductive AgentInput
  | steer (message : AgentMessage)
  | followUp (message : AgentMessage)
  | clearAllQueues
  | abort
  /-- `state.messages` is assigned. -/
  | setMessages (messages : List AgentMessage)
  | prompt (messages : List AgentMessage)
  | continueRun
  /-- The poll that the loop awaits is answered from its queue. -/
  | poll
  /-- A step of the loop that is no poll. -/
  | loop (input : Input)
  /-- The executor has thrown. -/
  | fail (errorMessage : String) (now : ℚ)
  /-- The listeners of an event of `handleRunFailure` are done. -/
  | failed
  /-- One of them rejects. -/
  | failureRejects
  /-- The executor has returned. -/
  | finishRun
  deriving Repr

namespace Agent

/-- The state and the events after a step. -/
abbrev Result := Option (Agent × List AgentEvent)

/-- `processEvents`, but for the listeners. -/
def processEvents (agent : Agent) (events : List AgentEvent) : Agent :=
  { agent with messages := agent.messages ++ events.filterMap fun event =>
      match event with
      | .messageEnd message => some message
      | _ => none }

/-- The run goes on, and its events are processed. -/
def proceed (agent : Agent) (phase : RunPhase) (events : List AgentEvent) : Result :=
  some ({ agent with activeRun := some phase }.processEvents events, events)

/-- `runPromptMessages` -/
def runPromptMessages (agent : Agent) (messages : List AgentMessage)
    (skipInitialSteeringPoll : Bool) : Agent :=
  { agent with activeRun := some (.looping
      (runAgentLoop messages agent.messages agent.tools agent.sequential)
      skipInitialSteeringPoll) }

/-- `prompt`: it throws while a run is active. -/
def prompt (agent : Agent) (messages : List AgentMessage) : Result :=
  match agent.activeRun with
  | some _ => none
  | none => some (agent.runPromptMessages messages false, [])

/-- `continue`: it throws while a run is active, or if there is nothing to continue from. -/
def continueRun (agent : Agent) : Result :=
  match agent.activeRun, agent.messages.getLast? with
  | some _, _ => none
  | none, none => none
  | none, some lastMessage =>
    if lastMessage.isAssistant then
      if agent.steeringQueue.drained ≠ [] then
        some ({ agent with steeringQueue := agent.steeringQueue.rest }.runPromptMessages
          agent.steeringQueue.drained true, [])
      else if agent.followUpQueue.drained ≠ [] then
        some ({ agent with followUpQueue := agent.followUpQueue.rest }.runPromptMessages
          agent.followUpQueue.drained false, [])
      else none
    else
      match runAgentLoopContinue agent.messages agent.tools agent.sequential with
      | .ok loop => some ({ agent with activeRun := some (.looping loop false) }, [])
      | .error _ => none

/-- A poll of the loop: `getSteeringMessages` or `getFollowUpMessages`. -/
def poll (agent : Agent) : Result :=
  match agent.activeRun with
  | some (.looping loop skipInitialSteeringPoll) =>
    match loop.pc with
    | .initialPoll =>
      if skipInitialSteeringPoll then do
        let (loop, events) ← loop.step (.steering [])
        agent.proceed (.looping loop false) events
      else do
        let (loop, events) ← loop.step (.steering agent.steeringQueue.drained)
        { agent with steeringQueue := agent.steeringQueue.rest }.proceed (.looping loop false) events
    | .pollSteering _ => do
      let (loop, events) ← loop.step (.steering agent.steeringQueue.drained)
      { agent with steeringQueue := agent.steeringQueue.rest }.proceed (.looping loop false) events
    | .pollFollowUp => do
      let (loop, events) ← loop.step (.followUps agent.followUpQueue.drained)
      { agent with followUpQueue := agent.followUpQueue.rest }.proceed (.looping loop false) events
    | _ => none
  | _ => none

/-- Is the input one that the agent answers itself? -/
def answers : Input → Bool
  | .steering _ | .followUps _ | .abort => true
  | _ => false

/-- A step of the loop that is no poll. -/
def stepLoop (agent : Agent) (input : Input) : Result :=
  match agent.activeRun with
  | some (.looping loop skip) =>
    if answers input then none
    else do
      let (loop, events) ← loop.step input
      agent.proceed (.looping loop skip) events
  | _ => none

/-- The message of `handleRunFailure`. -/
def failureMessage (agent : Agent) (aborted : Bool) (errorMessage : String) (now : ℚ) :
    AssistantMessage :=
  { content := some [.text ""]
    provider := agent.provider
    model := agent.model
    usage := Usage.zero
    stopReason := if aborted then .aborted else .error
    errorMessage := some errorMessage
    timestamp := now }

/-- `handleRunFailure`, to its first event. -/
def fail (agent : Agent) (errorMessage : String) (now : ℚ) : Result :=
  match agent.activeRun with
  | some (.looping loop _) =>
    if loop.pc.isRejected then
      let message := agent.failureMessage loop.aborted errorMessage now
      agent.proceed (.failing message .messageStarted) [.messageStart (.assistant message)]
    else none
  | _ => none

/-- `finishRun` -/
def finishRun (agent : Agent) : Agent := { agent with activeRun := none }

/-- `handleRunFailure`, after one of its events. -/
def failed (agent : Agent) : Result :=
  match agent.activeRun with
  | some (.failing message stage) =>
    match stage with
    | .messageStarted =>
      agent.proceed (.failing message .messageEnded) [.messageEnd (.assistant message)]
    | .messageEnded => agent.proceed (.failing message .turnEnded) [.turnEnd message []]
    | .turnEnded =>
      agent.proceed (.failing message .agentEnded) [.agentEnd [.assistant message]]
    | .agentEnded => some (agent.finishRun, [])
  | _ => none

/-- Has the executor returned? -/
def hasReturned (agent : Agent) : Bool :=
  match agent.activeRun with
  | some (.looping loop _) =>
    match loop.pc with
    | .returned => true
    | _ => false
  | _ => false

/-- Is a failure announced? -/
def isFailing (agent : Agent) : Bool :=
  match agent.activeRun with
  | some (.failing _ _) => true
  | _ => false

/-- `abort` -/
def abort (agent : Agent) : Agent :=
  match agent.activeRun with
  | some (.looping loop skip) =>
    { agent with activeRun := some (.looping { loop with aborted := true } skip) }
  | _ => agent

/-- One call of a method, or one step of the run.  A call that throws is no step. -/
def step (agent : Agent) : AgentInput → Result
  | .steer message => some ({ agent with steeringQueue := agent.steeringQueue.enqueue message }, [])
  | .followUp message =>
    some ({ agent with followUpQueue := agent.followUpQueue.enqueue message }, [])
  | .clearAllQueues =>
    some ({ agent with
      steeringQueue := agent.steeringQueue.clear
      followUpQueue := agent.followUpQueue.clear }, [])
  | .abort => some (agent.abort, [])
  | .setMessages messages => some ({ agent with messages := messages }, [])
  | .prompt messages => agent.prompt messages
  | .continueRun => agent.continueRun
  | .poll => agent.poll
  | .loop input => agent.stepLoop input
  | .fail errorMessage now => agent.fail errorMessage now
  | .failed => agent.failed
  | .failureRejects => if agent.isFailing then some (agent.finishRun, []) else none
  | .finishRun => if agent.hasReturned then some (agent.finishRun, []) else none

end Agent
end BeauPi.AgentLoop
