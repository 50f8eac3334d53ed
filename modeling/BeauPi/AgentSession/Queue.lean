import BeauPi.AgentLoop.Waiting

/-!
# The queue that a session shows

A session keeps the texts of the messages that it has queued beside the queues of its agent, and
removes a text **when any user message with that text starts**.

* `QueueSession` — the agent with the two lists of texts.
* `messageStarted` — the removal of a text.
* `QueueSession.step`, `run` — the calls of a session and the steps of its runs.
-/

namespace BeauPi.AgentSession

open Llm Sessions AgentLoop

/-! ## Texts -/

/-- `contentText(message.content, "")` -/
def textOf (message : UserMessage) : String := message.content.elim "" (contentText "")

/-- The texts of the user messages of some messages. -/
def texts (messages : List AgentMessage) : List String := (users messages).map textOf

/-- The user message of a queued text. -/
def queuedMessage (text : String) (images : List (String × String)) (timestamp : ℚ) :
    AgentMessage :=
  .user
    { content := some (.blocks (.text text :: images.map fun (data, mimeType) =>
        .image data mimeType))
      timestamp := timestamp }

/-! ## The session -/

/-- `AgentSession`, as far as its queues go. -/
structure QueueSession where
  agent : Agent
  /-- `_steeringMessages` -/
  steeringMessages : List String
  /-- `_followUpMessages` -/
  followUpMessages : List String
  deriving Repr

/-- What happens to a session. -/
inductive SessionInput
  /-- `steer`, or `prompt` with `streamingBehavior: "steer"` while it is busy. -/
  | queueSteer (text : String) (images : List (String × String)) (timestamp : ℚ)
  /-- `followUp`, or `prompt` with `streamingBehavior: "followUp"` while it is busy. -/
  | queueFollowUp (text : String) (images : List (String × String)) (timestamp : ℚ)
  /-- `sendCustomMessage` while it is busy. -/
  | sendCustomMessage (message : CustomMessage) (followUp : Bool)
  | clearQueue
  /-- The agent starts a run, or its run takes a step. -/
  | agent (input : AgentInput)
  deriving Repr

namespace QueueSession

/-- `_handleAgentEvent`, when a user message starts: the first text that is equal is removed, of the
steering texts or else of the follow-up texts. -/
def messageStarted (session : QueueSession) (message : UserMessage) : QueueSession :=
  let messageText := textOf message
  if messageText = "" then session
  else if messageText ∈ session.steeringMessages then
    { session with steeringMessages := session.steeringMessages.erase messageText }
  else { session with followUpMessages := session.followUpMessages.erase messageText }

/-- `_handleAgentEvent`, for the events of a step. -/
def handleAgentEvents (session : QueueSession) (events : List AgentEvent) : QueueSession :=
  (startedUsers events).foldl messageStarted session

/-- What `clearQueue` returns. -/
def clearedQueue (session : QueueSession) : List String × List String :=
  (session.steeringMessages, session.followUpMessages)

/-- `pendingMessageCount` -/
def pendingMessageCount (session : QueueSession) : Nat :=
  session.steeringMessages.length + session.followUpMessages.length

/-- The agent takes a step, and its events are handled. -/
def stepAgent (session : QueueSession) (input : AgentInput) : Option QueueSession := do
  let (agent, events) ← session.agent.step input
  return { session with agent := agent }.handleAgentEvents events

/-- Does the session itself call the method? -/
def ownCall : AgentInput → Bool
  | .steer _ | .followUp _ | .clearAllQueues => true
  | _ => false

/-- One call of a method, or one step of a run. -/
def step (session : QueueSession) : SessionInput → Option QueueSession
  | .queueSteer text images timestamp =>
    { session with steeringMessages := session.steeringMessages ++ [text] }.stepAgent
      (.steer (queuedMessage text images timestamp))
  | .queueFollowUp text images timestamp =>
    { session with followUpMessages := session.followUpMessages ++ [text] }.stepAgent
      (.followUp (queuedMessage text images timestamp))
  | .sendCustomMessage message followUp =>
    session.stepAgent (if followUp then .followUp (.custom message) else .steer (.custom message))
  | .clearQueue =>
    { session with steeringMessages := [], followUpMessages := [] }.stepAgent .clearAllQueues
  | .agent input => if ownCall input then none else session.stepAgent input

/-- The session after a step, or as it was if the call throws. -/
def next (session : QueueSession) (input : SessionInput) : QueueSession :=
  (session.step input).getD session

/-- A run of the session. -/
def run (session : QueueSession) (inputs : List SessionInput) : QueueSession :=
  inputs.foldl next session

/-- A session of an agent with empty queues. -/
def start (agent : Agent) : QueueSession := ⟨agent, [], []⟩

end QueueSession
end BeauPi.AgentSession
