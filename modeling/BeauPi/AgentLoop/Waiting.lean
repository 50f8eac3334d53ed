import BeauPi.AgentLoop.Agent

/-!
# The messages that wait for their start

Prompts and polled messages wait in the loop until they are announced, one after the other.

* `PC.waiting` — the messages that are still to be announced.
* `Started` — at most one user message is announced in a step, and it is the first that waits.
* `starts_step`, `step_moves` — every step does that, unless a listener rejects.
-/

namespace BeauPi.AgentLoop

open Llm Sessions
open Option (bind_eq_bind bind_eq_some_iff)

/-! ## User messages -/

/-- The user message of a message. -/
def user? : AgentMessage → Option UserMessage
  | .user message => some message
  | _ => none

/-- The user messages of some messages. -/
def users (messages : List AgentMessage) : List UserMessage := messages.filterMap user?

/-- The user message that an event announces. -/
def AgentEvent.startedUser? : AgentEvent → Option UserMessage
  | .messageStart message => user? message
  | _ => none

/-- The user messages that some events announce. -/
def startedUsers (events : List AgentEvent) : List UserMessage :=
  events.filterMap AgentEvent.startedUser?

@[simp] theorem users_nil : users [] = [] := rfl

@[simp] theorem users_append (messages messages' : List AgentMessage) :
    users (messages ++ messages') = users messages ++ users messages' := List.filterMap_append

@[simp] theorem startedUsers_nil : startedUsers [] = [] := rfl

/-- Of the users that wait, at most the first is announced, and the others wait on. -/
def StartsFirst (waiting started waiting' : List UserMessage) : Prop :=
  started = [] ∧ waiting' = waiting ∨ ∃ message, started = [message] ∧ waiting = message :: waiting'

theorem StartsFirst.refl (waiting : List UserMessage) : StartsFirst waiting [] waiting :=
  .inl ⟨rfl, rfl⟩

/-! ## Waiting messages -/

/-- The messages that the loop is still to announce. -/
def PC.waiting : PC → List AgentMessage
  | .start prompts | .started prompts | .opened prompts => prompts
  | .promptStarted _ rest | .promptEnded rest => rest
  | .turnStarted pending => pending
  | .injectStarted _ rest | .injectEnded _ rest => rest
  | _ => []

/-- Is it a rejection of the listeners of the loop? -/
def Input.isListenerRejects : Input → Bool
  | .listenerRejects => true
  | _ => false

/-- Does the loop poll the steering messages? -/
def PC.isSteeringPoll : PC → Bool
  | .initialPoll | .pollSteering _ => true
  | _ => false

/-- Announces nothing that waits, and leaves nothing waiting. -/
def Quiet (stepped : Stepped) : Prop :=
  ∀ l events, stepped = some (l, events) → startedUsers events = [] ∧ l.pc.waiting = []

section Quiet

variable {l : Loop}

variable {pc : PC}

theorem quiet_goto (h : pc.waiting = []) : Quiet (l.goto pc) := by
  intro l' events hstep
  cases hstep
  exact ⟨rfl, h⟩

theorem quiet_emit {event : AgentEvent} (he : event.startedUser? = none) (h : pc.waiting = []) :
    Quiet (l.emit event pc) := by
  intro l' events hstep
  cases hstep
  exact ⟨by simp [startedUsers, he], h⟩

theorem quiet_none : Quiet none := by
  intro l' events hstep
  cases hstep

theorem quiet_endTurn (message : AssistantMessage) (results : List ToolResultMessage)
    (more : Bool) : Quiet (l.endTurn message results more) :=
  quiet_emit rfl rfl

theorem quiet_endCalls (b : Batch) : Quiet (l.endCalls b) := by
  unfold Loop.endCalls
  split
  · exact quiet_endTurn _ _ _
  · exact quiet_endTurn _ _ _
  · exact quiet_goto rfl

theorem quiet_nextCall (b : Batch) : Quiet (l.nextCall b) := by
  unfold Loop.nextCall
  split
  · exact quiet_endCalls b
  · exact quiet_emit rfl rfl

theorem quiet_nextUnlessAborted (b : Batch) : Quiet (l.nextUnlessAborted b) := by
  unfold Loop.nextUnlessAborted
  split
  · exact quiet_endCalls b
  · exact quiet_nextCall b

theorem quiet_announce (b : Batch) (finalized : Finalized) (others : List Finalized) (now : ℚ) :
    Quiet (l.announce b finalized others now) :=
  quiet_emit rfl rfl

theorem quiet_nextResult (b : Batch) (all others : List Finalized) (now : ℚ) :
    Quiet (l.nextResult b all others now) := by
  unfold Loop.nextResult
  split
  · exact quiet_endTurn _ _ _
  · exact quiet_announce _ _ _ _

theorem quiet_processed (message : AssistantMessage) : Quiet (l.processed message) := by
  unfold Loop.processed
  split
  · exact quiet_emit rfl rfl
  · split
    · exact quiet_endTurn _ _ _
    · exact quiet_nextCall _

end Quiet

/-! ## Steps of the loop -/

/-- A step announces the first that waits, if it announces a user message. -/
def Starts (waiting : List AgentMessage) (stepped : Stepped) : Prop :=
  ∀ l events, stepped = some (l, events) →
    StartsFirst (users waiting) (startedUsers events) (users l.pc.waiting)

section Starts

variable {l : Loop}

theorem Quiet.starts {stepped : Stepped} (h : Quiet stepped) : Starts [] stepped := by
  intro l events hstep
  obtain ⟨hstarted, hwaiting⟩ := h l events hstep
  rw [hstarted, hwaiting]
  exact StartsFirst.refl _

variable {pc : PC}

theorem starts_emit {event : AgentEvent} (he : event.startedUser? = none) :
    Starts pc.waiting (l.emit event pc) := by
  intro l' events hstep
  cases hstep
  exact .inl ⟨by simp [startedUsers, he], rfl⟩

/-- The message that is announced is the first that waits. -/
theorem starts_messageStart {message : AgentMessage} {rest : List AgentMessage}
    (h : pc.waiting = rest) : Starts (message :: rest) (l.emit (.messageStart message) pc) := by
  intro l' events hstep
  cases hstep
  cases hm : user? message with
  | none => exact .inl ⟨by simp [startedUsers, AgentEvent.startedUser?, hm], by simp [users, hm, h]⟩
  | some user =>
    exact .inr ⟨user, by simp [startedUsers, AgentEvent.startedUser?, hm], by simp [users, hm, h]⟩

theorem starts_nextPrompt (prompts : List AgentMessage) : Starts prompts (l.nextPrompt prompts) := by
  cases prompts with
  | nil => exact (quiet_goto rfl).starts
  | cons message rest => exact starts_messageStart rfl

theorem starts_inject (pending : List AgentMessage) : Starts pending (l.inject pending) := by
  cases pending with
  | nil => exact (quiet_goto rfl).starts
  | cons message rest => exact starts_messageStart rfl

variable {l' : Loop} {events : List AgentEvent}

theorem startedUsers_nextTurn {more : Bool} {pending : List AgentMessage}
    (h : l.nextTurn more pending = some (l', events)) :
    startedUsers events = [] := by
  unfold Loop.nextTurn at h
  split at h
  · cases h
    rfl
  · cases h
    rfl

theorem starts_nextTurn (more : Bool) (pending : List AgentMessage) :
    Starts pending (l.nextTurn more pending) := by
  unfold Loop.nextTurn
  split
  next => exact starts_emit rfl
  next hend =>
    have hpending : pending = [] := by
      by_contra hsome
      exact hend (.inr hsome)
    rw [hpending]
    exact (quiet_goto rfl).starts

/-- The listeners of an event are done. -/
theorem starts_resume (now : ℚ) : Starts l.pc.waiting (l.resume now) := by
  unfold Loop.resume
  cases hpc : l.pc with
  | start | started | promptStarted | injectStarted => exact starts_emit rfl
  | opened prompts => exact starts_nextPrompt prompts
  | promptEnded rest => exact starts_nextPrompt rest
  | turnStarted pending => exact starts_inject pending
  | injectEnded message rest => exact starts_inject rest
  | finalStarted | failed | announced => exact (quiet_emit rfl rfl).starts
  | received final => exact (quiet_processed final).starts
  | preparing b call =>
    simp only
    split
    · exact (quiet_emit rfl rfl).starts
    · exact quiet_none.starts
  | ended b finalized =>
    simp only
    split
    · exact (quiet_nextUnlessAborted b).starts
    · exact (quiet_announce b finalized [] now).starts
  | recorded b result finalized others =>
    simp only
    split
    · exact (quiet_nextCall _).starts
    · exact (quiet_nextUnlessAborted _).starts
    · exact (quiet_nextResult _ _ _ _).starts
  | finished => exact (quiet_goto rfl).starts
  | _ => exact fun l' events hstep => by cases hstep

/-- A callback is called, or a task awaited, when nothing waits. -/
theorem waiting_of_calling (h : pc.calling = true) : pc.waiting = [] := by
  cases pc <;> first | rfl | cases h

theorem starts_prepared (args : Except Thrown Unit) (before : HookAnswer BeforeToolCallResult) :
    Starts l.pc.waiting (l.step (.prepared args before)) := by
  simp only [Loop.step]
  cases hpc : l.pc with
  | preparing b call =>
    simp only
    split
    · exact quiet_none.starts
    · exact (quiet_emit rfl rfl).starts
    · exact (quiet_goto rfl).starts
    · exact (quiet_nextUnlessAborted b).starts
  | _ => exact fun l' events hstep => by cases hstep

theorem starts_task (index : Nat) (input : TaskInput) :
    Starts l.pc.waiting (l.step (.task index input)) := by
  intro l' events hstep
  simp only [Loop.step, bind_eq_bind, bind_eq_some_iff, Option.pure_def,
    Option.some.injEq, Prod.mk.injEq] at hstep
  obtain ⟨t, -, ⟨t', taskEvents⟩, htask, rfl, rfl⟩ := hstep
  suffices startedUsers taskEvents = [] from .inl ⟨this, rfl⟩
  cases input with
  | update | returned | after | endDelivered | endRejected =>
    simp only [Task.step] at htask
    split at htask
    · cases htask
      rfl
    · cases htask
  | updateDelivered | updateRejected =>
    simp only [Task.step, Option.map_eq_some_iff, Prod.mk.injEq] at htask
    obtain ⟨-, -, -, rfl⟩ := htask
    rfl
  | updatesSettled | updatesReject =>
    simp only [Task.step] at htask
    split at htask
    · split at htask
      · cases htask
        rfl
      · cases htask
    · cases htask

/-- Every step but a poll or the rejection of a listener announces the first that waits. -/
theorem starts_step {input : Input} (hown : Agent.answers input = false)
    (hlistener : input.isListenerRejects = false) : Starts l.pc.waiting (l.step input) := by
  cases input with
  | resume now => exact starts_resume now
  | listenerRejects => cases hlistener
  | callbackThrows =>
    simp only [Loop.step]
    split
    next hcalling =>
      rw [waiting_of_calling hcalling]
      exact (quiet_goto rfl).starts
    next => exact fun l' events hstep => by cases hstep
  | steering messages => cases hown
  | followUps messages => cases hown
  | streamStart message =>
    simp only [Loop.step]
    cases hpc : l.pc with
    | stream => exact (quiet_emit rfl rfl).starts
    | _ => exact fun l' events hstep => by cases hstep
  | streamUpdate message =>
    simp only [Loop.step]
    cases hpc : l.pc with
    | stream => exact (quiet_goto rfl).starts
    | streaming partialMessage => exact (quiet_emit rfl rfl).starts
    | _ => exact fun l' events hstep => by cases hstep
  | streamEnd final =>
    simp only [Loop.step]
    cases hpc : l.pc with
    | stream | streaming => exact (quiet_emit rfl rfl).starts
    | _ => exact fun l' events hstep => by cases hstep
  | prepared args before => exact starts_prepared args before
  | nextTurn context =>
    simp only [Loop.step]
    cases hpc : l.pc with
    | turnEnded more =>
      cases context with
      | none | some => exact (quiet_goto rfl).starts
    | _ => exact fun l' events hstep => by cases hstep
  | stopAfterTurn stop =>
    simp only [Loop.step]
    cases hpc : l.pc with
    | stopTest more =>
      simp only
      split
      · exact (quiet_emit rfl rfl).starts
      · exact (quiet_goto rfl).starts
    | _ => exact fun l' events hstep => by cases hstep
  | joined now =>
    simp only [Loop.step]
    split
    next hpc _ =>
      rw [hpc]
      exact (quiet_announce _ _ _ _).starts
    next hpc _ =>
      rw [hpc]
      exact (quiet_nextResult _ _ _ _).starts
    next => exact fun l' events hstep => by cases hstep
  | joinRejects =>
    simp only [Loop.step]
    split
    next hpc =>
      rw [hpc]
      split
      · exact (quiet_goto rfl).starts
      · exact quiet_none.starts
    next hpc =>
      rw [hpc]
      split
      · exact (quiet_goto rfl).starts
      · exact quiet_none.starts
    next => exact fun l' events hstep => by cases hstep
  | abort => cases hown
  | task index input => exact starts_task index input

/-- A rejected listener ends the loop. -/
theorem listenerRejects_step (h : l.step .listenerRejects = some (l', events)) :
    events = [] ∧ l'.pc.waiting = [] := by
  simp only [Loop.step] at h
  split at h
  · cases h
    exact ⟨rfl, rfl⟩
  · cases h

variable {messages : List AgentMessage}

/-- The steering messages of a poll wait, but for the first one if it is announced at once. -/
theorem starts_steering (h : l.pc.isSteeringPoll = true) :
    Starts messages (l.step (.steering messages)) := by
  simp only [Loop.step]
  cases hpc : l.pc with
  | initialPoll => exact starts_inject messages
  | pollSteering more => exact starts_nextTurn more messages
  | _ => simp [hpc, PC.isSteeringPoll] at h

/-- The follow-up messages of a poll wait. -/
theorem starts_followUps :
    Starts messages (l.step (.followUps messages)) := by
  simp only [Loop.step]
  cases hpc : l.pc with
  | pollFollowUp =>
    simp only
    split
    next hnone =>
      rw [hnone]
      exact (quiet_emit rfl rfl).starts
    next => exact starts_nextTurn true messages
  | _ => exact fun l' events hstep => by cases hstep

end Starts

/-! ## Steps of the agent -/

namespace Agent

/-- The messages that the run is still to announce. -/
def waiting (agent : Agent) : List AgentMessage :=
  match agent.activeRun with
  | some (.looping loop _) => loop.pc.waiting
  | _ => []

/-- Is the run about to poll the steering messages for the first time?  It announces the first of
them at once. -/
def pollsFirst (agent : Agent) : Bool :=
  match agent.activeRun with
  | some (.looping loop skipInitialSteeringPoll) =>
    match loop.pc with
    | .initialPoll => !skipInitialSteeringPoll
    | _ => false
  | _ => false

/-- Where the messages come from that wait after a step. -/
inductive Source
  /-- They have waited before. -/
  | waiting
  /-- They are the prompts of a new run. -/
  | prompts (messages : List AgentMessage)
  /-- They are taken from the steering queue. -/
  | steering
  /-- They are taken from the follow-up queue. -/
  | followUp
  deriving DecidableEq, Repr

/-- The messages of a source. -/
def Source.messages (agent : Agent) : Source → List AgentMessage
  | .waiting => agent.waiting
  | .prompts messages => messages
  | .steering => agent.steeringQueue.drained
  | .followUp => agent.followUpQueue.drained

/-- What a step does to the queues and to the messages that wait. -/
structure Moves (agent agent' : Agent) (events : List AgentEvent) (source : Source) : Prop where
  steeringQueue : agent'.steeringQueue =
    if source = .steering then agent.steeringQueue.rest else agent.steeringQueue
  followUpQueue : agent'.followUpQueue =
    if source = .followUp then agent.followUpQueue.rest else agent.followUpQueue
  starts : StartsFirst (users (source.messages agent)) (startedUsers events) (users agent'.waiting)
  idle : source ≠ .waiting → agent.waiting = []
  first : agent.pollsFirst = true → source = .waiting ∨ source = .steering
  announces : startedUsers events ≠ [] → source = .waiting ∨ agent.pollsFirst = true

/-- Is the input a step of a run, or its start, but no rejection of a listener? -/
def moves : AgentInput → Bool
  | .steer _ | .followUp _ | .clearAllQueues => false
  | .loop input => !input.isListenerRejects
  | _ => true

section Moves

variable {agent agent' : Agent} {events : List AgentEvent}

/-- A step that keeps the queues and announces the first that waits. -/
theorem moves_waiting (hsteering : agent'.steeringQueue = agent.steeringQueue)
    (hfollowUp : agent'.followUpQueue = agent.followUpQueue)
    (h : StartsFirst (users agent.waiting) (startedUsers events) (users agent'.waiting)) :
    Moves agent agent' events .waiting where
  steeringQueue := hsteering
  followUpQueue := hfollowUp
  starts := h
  idle := fun hsource => absurd rfl hsource
  first := fun _ => .inl rfl
  announces := fun _ => .inl rfl

/-- A step without an announcement that changes neither the queues nor the run. -/
theorem moves_still (hsteering : agent'.steeringQueue = agent.steeringQueue)
    (hfollowUp : agent'.followUpQueue = agent.followUpQueue) (h : agent'.waiting = agent.waiting) :
    Moves agent agent' [] .waiting :=
  moves_waiting hsteering hfollowUp (by rw [h]; exact StartsFirst.refl _)

theorem moves_prompt {messages : List AgentMessage}
    (h : agent.prompt messages = some (agent', events)) :
    Moves agent agent' events (.prompts messages) := by
  unfold prompt at h
  split at h
  · cases h
  next hidle =>
    cases h
    exact ⟨rfl, rfl, StartsFirst.refl _, fun _ => by simp [waiting, hidle],
      fun hfirst => by simp [pollsFirst, hidle] at hfirst, fun hstarted => absurd rfl hstarted⟩

theorem moves_continue (h : agent.continueRun = some (agent', events)) :
    ∃ source, Moves agent agent' events source := by
  unfold continueRun at h
  split at h
  · cases h
  · cases h
  next lastMessage hidle hlast =>
    have hwaiting : agent.waiting = [] := by simp [waiting, hidle]
    have hlater : agent.pollsFirst = false := by simp [pollsFirst, hidle]
    split at h
    · split at h
      · cases h
        exact ⟨.steering, rfl, rfl, StartsFirst.refl _, fun _ => hwaiting, fun _ => .inr rfl,
          fun hstarted => absurd rfl hstarted⟩
      · split at h
        · cases h
          exact ⟨.followUp, rfl, rfl, StartsFirst.refl _, fun _ => hwaiting,
            fun hfirst => by simp [hlater] at hfirst, fun hstarted => absurd rfl hstarted⟩
        · cases h
    · split at h
      next loop hloop =>
        cases h
        have hpc : loop.pc = .start [] := by
          unfold runAgentLoopContinue at hloop
          split at hloop
          · cases hloop
          · split at hloop
            · cases hloop
            · cases hloop
              rfl
        exact ⟨.waiting, moves_still rfl rfl (by simp [waiting, hidle, hpc, PC.waiting])⟩
      · cases h

/-- A poll takes from its queue, unless it is skipped. -/
theorem moves_poll (h : agent.poll = some (agent', events)) :
    ∃ source, Moves agent agent' events source := by
  unfold poll at h
  split at h
  next loop skip hrun =>
    cases hpc : loop.pc with
    | initialPoll =>
      have hwaiting : agent.waiting = [] := by simp [waiting, hrun, hpc, PC.waiting]
      have hpoll : loop.pc.isSteeringPoll = true := by rw [hpc]; rfl
      simp only [hpc] at h
      split at h
      next hskip =>
        simp only [bind_eq_bind, bind_eq_some_iff] at h
        obtain ⟨⟨loop', events'⟩, hstep, hproceed⟩ := h
        cases hproceed
        refine ⟨.waiting, moves_waiting rfl rfl ?_⟩
        have hstarts := starts_steering hpoll loop' events' hstep
        rw [hwaiting]
        exact hstarts
      next hskip =>
        simp only [bind_eq_bind, bind_eq_some_iff] at h
        obtain ⟨⟨loop', events'⟩, hstep, hproceed⟩ := h
        cases hproceed
        have hfirst : agent.pollsFirst = true := by simp [pollsFirst, hrun, hpc, hskip]
        exact ⟨.steering, rfl, rfl, starts_steering hpoll loop' events' hstep, fun _ => hwaiting,
          fun _ => .inr rfl, fun _ => .inr hfirst⟩
    | pollSteering more =>
      have hwaiting : agent.waiting = [] := by simp [waiting, hrun, hpc, PC.waiting]
      have hpoll : loop.pc.isSteeringPoll = true := by rw [hpc]; rfl
      simp only [hpc, bind_eq_bind, bind_eq_some_iff] at h
      obtain ⟨⟨loop', events'⟩, hstep, hproceed⟩ := h
      cases hproceed
      have hquiet : startedUsers events' = [] := by
        simp only [Loop.step, hpc] at hstep
        exact startedUsers_nextTurn hstep
      exact ⟨.steering, rfl, rfl, starts_steering hpoll loop' events' hstep, fun _ => hwaiting,
        fun _ => .inr rfl, fun hstarted => absurd hquiet hstarted⟩
    | pollFollowUp =>
      have hwaiting : agent.waiting = [] := by simp [waiting, hrun, hpc, PC.waiting]
      simp only [hpc, bind_eq_bind, bind_eq_some_iff] at h
      obtain ⟨⟨loop', events'⟩, hstep, hproceed⟩ := h
      cases hproceed
      have hquiet : startedUsers events' = [] := by
        simp only [Loop.step, hpc] at hstep
        split at hstep
        · cases hstep
          rfl
        · exact startedUsers_nextTurn hstep
      exact ⟨.followUp, rfl, rfl, starts_followUps loop' events' hstep, fun _ => hwaiting,
        fun hfirst => by simp [pollsFirst, hrun, hpc] at hfirst,
        fun hstarted => absurd hquiet hstarted⟩
    | _ => simp [hpc] at h
  · cases h

theorem moves_stepLoop {input : Input} (hlistener : input.isListenerRejects = false)
    (h : agent.stepLoop input = some (agent', events)) :
    Moves agent agent' events .waiting := by
  unfold stepLoop at h
  split at h
  next loop skip hrun =>
    split at h
    · cases h
    next hown =>
      simp only [bind_eq_bind, bind_eq_some_iff] at h
      obtain ⟨⟨loop', events'⟩, hstep, hproceed⟩ := h
      cases hproceed
      refine moves_waiting rfl rfl ?_
      have hstarts := starts_step (by simpa using hown) hlistener loop' events' hstep
      have hwaiting : agent.waiting = loop.pc.waiting := by simp [waiting, hrun]
      rw [hwaiting]
      exact hstarts
  · cases h

/-- A run that fails, or that has returned, has nothing that waits. -/
theorem waiting_of_rejected {loop : Loop} {skip : Bool} (hrun : agent.activeRun = some (.looping
    loop skip))
    (h : loop.pc.isRejected = true) : agent.waiting = [] := by
  simp only [waiting, hrun]
  cases hpc : loop.pc <;> first | rfl | simp [hpc, PC.isRejected] at h

theorem moves_fail {errorMessage : String} {now : ℚ}
    (h : agent.fail errorMessage now = some (agent', events)) :
    Moves agent agent' events .waiting := by
  unfold fail at h
  split at h
  next loop skip hrun =>
    split at h
    next hrejected =>
      cases h
      refine moves_waiting rfl rfl ?_
      rw [waiting_of_rejected hrun hrejected]
      exact StartsFirst.refl _
    next => cases h
  · cases h

theorem moves_failed (h : agent.failed = some (agent', events)) :
    Moves agent agent' events .waiting := by
  unfold failed at h
  split at h
  next message stage hrun =>
    have hwaiting : agent.waiting = [] := by simp [waiting, hrun]
    cases stage with
    | messageStarted | messageEnded | turnEnded =>
      cases h
      exact moves_waiting rfl rfl (by rw [hwaiting]; exact StartsFirst.refl _)
    | agentEnded =>
      cases h
      exact moves_still rfl rfl (by rw [hwaiting]; rfl)
  · cases h

/-- Every step but a queued message, a cleared queue or the rejection of a listener takes from at
most one queue, and announces the first that waits. -/
theorem step_moves {input : AgentInput} (hmoves : moves input = true)
    (h : agent.step input = some (agent', events)) : ∃ source, Moves agent agent' events source := by
  cases input with
  | steer | followUp | clearAllQueues => cases hmoves
  | abort =>
    cases h
    refine ⟨.waiting, moves_still ?_ ?_ ?_⟩
    · unfold abort
      split <;> rfl
    · unfold abort
      split <;> rfl
    · unfold abort
      split
      next loop skip hrun => simp [waiting, hrun]
      next => rfl
  | setMessages messages =>
    cases h
    exact ⟨.waiting, moves_still rfl rfl rfl⟩
  | prompt messages => exact ⟨_, moves_prompt h⟩
  | continueRun => exact moves_continue h
  | poll => exact moves_poll h
  | loop input => exact ⟨_, moves_stepLoop (by simpa [moves] using hmoves) h⟩
  | fail errorMessage now => exact ⟨_, moves_fail h⟩
  | failed => exact ⟨_, moves_failed h⟩
  | failureRejects =>
    simp only [step] at h
    split at h
    next hfailing =>
      cases h
      refine ⟨.waiting, moves_still rfl rfl ?_⟩
      unfold isFailing at hfailing
      split at hfailing
      next message stage hrun => simp [waiting, hrun, finishRun]
      next => cases hfailing
    next => cases h
  | finishRun =>
    simp only [step] at h
    split at h
    next hreturned =>
      cases h
      refine ⟨.waiting, moves_still rfl rfl ?_⟩
      unfold hasReturned at hreturned
      split at hreturned
      next loop skip hrun =>
        cases hpc : loop.pc with
        | returned => simp [waiting, hrun, finishRun, hpc, PC.waiting]
        | _ => simp [hpc] at hreturned
      next => cases hreturned
    next => cases h

/-- A rejected listener leaves the queues alone, and nothing that waits. -/
theorem step_listenerRejects (h : agent.step (.loop .listenerRejects) = some (agent', events)) :
    agent'.steeringQueue = agent.steeringQueue ∧ agent'.followUpQueue = agent.followUpQueue ∧
      events = [] ∧ agent'.waiting = [] := by
  simp only [step, stepLoop] at h
  split at h
  next loop skip hrun =>
    simp only [answers, Bool.false_eq_true, if_false, bind_eq_bind,
      bind_eq_some_iff] at h
    obtain ⟨⟨loop', events'⟩, hstep, hproceed⟩ := h
    obtain ⟨hnone, hwaiting⟩ := listenerRejects_step hstep
    cases hproceed
    exact ⟨rfl, rfl, hnone, hwaiting⟩
  · cases h

end Moves

end Agent

end BeauPi.AgentLoop
