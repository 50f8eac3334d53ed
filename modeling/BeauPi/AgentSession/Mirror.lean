import BeauPi.AgentSession.Queue
import Mathlib.Tactic.Common

/-!
# When the queue that is shown is the queue

The texts are those of the queued messages as long as each message that starts takes its own text
away.

* `QueueSession.Mirrored` — the texts are those of the queues.
* `QueueSession.TakesOwn` — a message that starts takes its own text, and no other.
* `QueueSession.Meets` — no step takes a wrong text, and none loses a message.
* `run_mirrored` — the texts are those of the queues whenever no run is active.
-/

namespace BeauPi.AgentSession

open Llm Sessions AgentLoop List

/-! ## Texts of messages -/

@[simp] theorem texts_nil : texts [] = [] := rfl

@[simp] theorem texts_append (messages messages' : List AgentMessage) :
    texts (messages ++ messages') = texts messages ++ texts messages' := by
  simp [texts]

/-- The text of a queued message is the text that was queued. -/
@[simp] theorem texts_queuedMessage (text : String) (images : List (String × String))
    (timestamp : ℚ) : texts [queuedMessage text images timestamp] = [text] := by
  simp [texts, users, user?, queuedMessage, textOf, contentText, ContentBlock.text?, join]

@[simp] theorem texts_custom (message : CustomMessage) : texts [.custom message] = [] := rfl

namespace QueueSession

variable {session : QueueSession}

/-! ## The invariant -/

/-- The texts that the queues of the agent have. -/
def steeringTexts (session : QueueSession) : List String :=
  texts session.agent.steeringQueue.messages

/-- The texts that the queues of the agent have. -/
def followUpTexts (session : QueueSession) : List String :=
  texts session.agent.followUpQueue.messages

/-- The texts that wait in the run for their start. -/
def waitingTexts (session : QueueSession) : List String := texts session.agent.waiting

/-- The queue that is shown is the queue. -/
structure Mirrored (session : QueueSession) : Prop where
  steering : session.steeringMessages = session.steeringTexts
  followUp : session.followUpMessages = session.followUpTexts

/-- The texts that wait are still shown: as steering texts, as follow-up texts, or not at all. -/
inductive Shows (steeringMessages followUpMessages waiting steering followUp : List String) : Prop
  | steering (hsteering : steeringMessages = waiting ++ steering)
      (hfollowUp : followUpMessages = followUp)
  | followUp (hsteering : steeringMessages = steering)
    (hfollowUp : followUpMessages = waiting ++ followUp)
  | none (hsteering : steeringMessages = steering) (hfollowUp : followUpMessages = followUp)

/-- The invariant of a run. -/
def Shown (session : QueueSession) : Prop :=
  Shows session.steeringMessages session.followUpMessages session.waitingTexts
    session.steeringTexts session.followUpTexts

theorem Mirrored.shown (h : Mirrored session) : session.Shown := .none h.steering h.followUp

/-- If nothing waits, the queue that is shown is the queue. -/
theorem Shown.mirrored (h : session.Shown) (hwaiting : session.waitingTexts = []) :
    Mirrored session := by
  unfold Shown at h
  rw [hwaiting] at h
  cases h with
  | steering hsteering hfollowUp | followUp hsteering hfollowUp | none hsteering hfollowUp =>
    exact ⟨hsteering, hfollowUp⟩

/-! ## The condition -/

/-- Where a message is shown: by the steering texts, by the follow-up texts, or not at all. -/
inductive Mirror
  | steering
  | followUp
  | none
  deriving DecidableEq, Repr

/-- Where the next message that starts is shown: a list of texts that is longer than its queue shows
the messages that wait. -/
def kind (session : QueueSession) : Mirror :=
  if session.agent.pollsFirst then .steering
  else if session.steeringMessages ≠ session.steeringTexts then .steering
  else if session.followUpMessages ≠ session.followUpTexts then .followUp
  else .none

/-- A message with this text takes its own text away: a queued text is not empty, a follow-up is
no steering text, and a text that is not shown is no queued one. -/
def TakesOwn (session : QueueSession) (text : String) : Prop :=
  match session.kind with
  | .steering => text ≠ ""
  | .followUp => text ≠ "" ∧ text ∉ session.steeringMessages
  | .none => text = "" ∨ text ∉ session.steeringMessages ∧ text ∉ session.followUpMessages

instance (text : String) : Decidable (session.TakesOwn text) := by
  unfold TakesOwn
  split
  · infer_instance
  · infer_instance
  · infer_instance

/-- The user messages that a step of the agent announces. -/
def starting (session : QueueSession) (input : AgentInput) : List UserMessage :=
  (session.agent.step input).elim [] fun result => startedUsers result.2

/-- Does a listener of the run reject? -/
def rejects : AgentInput → Bool
  | .loop input => input.isListenerRejects
  | _ => false

/-- Each message that starts takes its own text, and no listener rejects while queued messages
wait. -/
def Meets (session : QueueSession) : SessionInput → Prop
  | .agent input =>
    (∀ message ∈ session.starting input, session.TakesOwn (textOf message)) ∧
      (rejects input = true → session.kind = .none ∨ session.waitingTexts = [])
  | _ => True

instance (input : SessionInput) : Decidable (session.Meets input) := by
  unfold Meets
  split
  · infer_instance
  · infer_instance

/-- All steps of a run meet the condition. -/
def MeetsAll (session : QueueSession) : List SessionInput → Prop
  | [] => True
  | input :: inputs => session.Meets input ∧ (session.next input).MeetsAll inputs

instance decidableMeetsAll :
    (inputs : List SessionInput) → (session : QueueSession) → Decidable (session.MeetsAll inputs)
  | [], _ => .isTrue trivial
  | input :: inputs, session =>
    have := decidableMeetsAll inputs (session.next input)
    inferInstanceAs (Decidable (session.Meets input ∧ (session.next input).MeetsAll inputs))

/-! ## Steps -/

/-- The texts of the messages that are polled and of those that stay. -/
theorem texts_drained (queue : PendingMessageQueue) :
    texts queue.messages = texts queue.drained ++ texts queue.rest.messages := by
  rw [← texts_append, queue.drained_append_rest]

/-- Of the texts that wait, at most the first starts. -/
theorem texts_starts {waiting started waiting' : List UserMessage}
    (h : StartsFirst waiting started waiting') :
    started = [] ∧ waiting'.map textOf = waiting.map textOf ∨
      ∃ message, started = [message] ∧
        waiting.map textOf = textOf message :: waiting'.map textOf := by
  rcases h with ⟨hnone, hsame⟩ | ⟨message, hone, hfirst⟩
  · exact .inl ⟨hnone, by rw [hsame]⟩
  · exact .inr ⟨message, hone, by rw [hfirst, map_cons]⟩

variable {message : UserMessage}

/-- A steering text that starts takes itself away. -/
theorem messageStarted_steering {rest : List String}
    (hsteering : session.steeringMessages = textOf message :: rest) (htext : textOf message ≠ "") :
    session.messageStarted message = { session with steeringMessages := rest } := by
  simp [messageStarted, htext, hsteering]

/-- A follow-up text that is no steering text takes itself away. -/
theorem messageStarted_followUp {rest : List String}
    (hfollowUp : session.followUpMessages = textOf message :: rest) (htext : textOf message ≠ "")
    (hother : textOf message ∉ session.steeringMessages) :
    session.messageStarted message = { session with followUpMessages := rest } := by
  simp [messageStarted, htext, hother, hfollowUp]

/-- A text that is not shown takes nothing away. -/
theorem messageStarted_none
    (h : textOf message = "" ∨ textOf message ∉ session.steeringMessages ∧ textOf message ∉
      session.followUpMessages) :
    session.messageStarted message = session := by
  rcases h with hempty | ⟨hsteering, hfollowUp⟩
  · simp [messageStarted, hempty]
  · simp [messageStarted, hsteering, erase_of_not_mem hfollowUp]

/-- Nothing waits while the steering messages are to be polled for the first time. -/
theorem waiting_of_pollsFirst {agent : Agent} (h : agent.pollsFirst = true) :
    agent.waiting = [] := by
  unfold Agent.pollsFirst at h
  split at h
  next loop skip hrun =>
    cases hpc : loop.pc with
    | initialPoll => simp [Agent.waiting, hrun, hpc, PC.waiting]
    | _ => simp [hpc] at h
  next => cases h

/-- A list with something before it is another list. -/
theorem cons_append_ne (text : String) (waiting rest : List String) :
    text :: waiting ++ rest ≠ rest := by
  intro heq
  have hlength := congrArg List.length heq
  simp only [cons_append, length_cons, length_append] at hlength
  omega

section Moves

variable {agent' : Agent} {events : List AgentEvent}

/-- The events of a step announce at most one user message. -/
theorem handleAgentEvents_one (h : startedUsers events = [message]) :
    session.handleAgentEvents events = session.messageStarted message := by
  simp [handleAgentEvents, h]

theorem handleAgentEvents_none (h : startedUsers events = []) :
    session.handleAgentEvents events = session := by
  simp [handleAgentEvents, h]

/-- The messages that wait go on waiting, but for the first one that may start. -/
theorem shown_waiting (h : session.Shown)
    (hm : Agent.Moves session.agent agent' events .waiting)
    (htakes : ∀ message ∈ startedUsers events, session.TakesOwn (textOf message)) :
    ({ session with agent := agent' }.handleAgentEvents events).Shown := by
  have hsteeringQueue : agent'.steeringQueue = session.agent.steeringQueue := hm.steeringQueue
  have hfollowUpQueue : agent'.followUpQueue = session.agent.followUpQueue := hm.followUpQueue
  rcases texts_starts hm.starts with ⟨hnone, hsame⟩ | ⟨message, hone, hfirst⟩
  · rw [handleAgentEvents_none hnone]
    have hwaiting : texts agent'.waiting = session.waitingTexts := hsame
    unfold Shown at h ⊢
    simp only [waitingTexts, steeringTexts, followUpTexts, hwaiting, hsteeringQueue,
      hfollowUpQueue] at h ⊢
    exact h
  · rw [handleAgentEvents_one hone]
    have hwaiting : session.waitingTexts = textOf message :: texts agent'.waiting := hfirst
    have htake := htakes message (by rw [hone]; exact mem_singleton_self _)
    have hpolled : session.agent.pollsFirst = false := by
      by_contra hpolls
      have hnone := waiting_of_pollsFirst (by simpa using hpolls)
      simp [waitingTexts, hnone] at hwaiting
    unfold Shown at h
    rw [hwaiting] at h
    unfold TakesOwn kind at htake
    rw [hpolled] at htake
    cases h with
    | steering hsteering hfollowUp =>
      have hother : session.steeringMessages ≠ session.steeringTexts := by
        rw [hsteering]
        exact cons_append_ne _ _ _
      have htext : textOf message ≠ "" := by simpa [hother] using htake
      rw [messageStarted_steering (by simpa using hsteering) htext]
      refine .steering ?_ ?_
      · simp [waitingTexts, steeringTexts, hsteeringQueue]
      · simpa [followUpTexts, hfollowUpQueue] using hfollowUp
    | followUp hsteering hfollowUp =>
      have hother : session.followUpMessages ≠ session.followUpTexts := by
        rw [hfollowUp]
        exact cons_append_ne _ _ _
      have htext : textOf message ≠ "" ∧ textOf message ∉ session.steeringMessages := by
        simpa [hsteering, hother] using htake
      have hstep : ({ session with agent := agent' } : QueueSession).messageStarted message =
          { session with
            agent := agent'
            followUpMessages := texts agent'.waiting ++ session.followUpTexts } :=
        messageStarted_followUp (by simpa using hfollowUp) htext.1 htext.2
      rw [hstep]
      refine .followUp ?_ ?_
      · simpa [steeringTexts, hsteeringQueue] using hsteering
      · simp [waitingTexts, followUpTexts, hfollowUpQueue]
    | none hsteering hfollowUp =>
      have htext : textOf message = "" ∨ textOf message ∉ session.steeringMessages ∧
          textOf message ∉ session.followUpMessages := by
        simpa [hsteering, hfollowUp] using htake
      have hstep : ({ session with agent := agent' } : QueueSession).messageStarted message =
          { session with agent := agent' } := messageStarted_none htext
      rw [hstep]
      refine .none ?_ ?_
      · simpa [steeringTexts, hsteeringQueue] using hsteering
      · simpa [followUpTexts, hfollowUpQueue] using hfollowUp

/-- The prompts of a new run are not shown. -/
theorem shown_prompts (h : session.Mirrored) {messages : List AgentMessage}
    (hm : Agent.Moves session.agent agent' events (.prompts messages)) :
    ({ session with agent := agent' }.handleAgentEvents events).Shown := by
  have hsteeringQueue : agent'.steeringQueue = session.agent.steeringQueue := hm.steeringQueue
  have hfollowUpQueue : agent'.followUpQueue = session.agent.followUpQueue := hm.followUpQueue
  have hquiet : startedUsers events = [] := by
    by_contra hstarted
    rcases hm.announces hstarted with hsource | hfirst
    · cases hsource
    · rcases hm.first hfirst with hsource | hsource
      · cases hsource
      · cases hsource
  rw [handleAgentEvents_none hquiet]
  refine .none ?_ ?_
  · simpa [steeringTexts, hsteeringQueue] using h.steering
  · simpa [followUpTexts, hfollowUpQueue] using h.followUp

/-- Polled steering messages are shown as steering texts until they start. -/
theorem shown_steering (h : session.Mirrored)
    (hm : Agent.Moves session.agent agent' events .steering)
    (htakes : ∀ message ∈ startedUsers events, session.TakesOwn (textOf message)) :
    ({ session with agent := agent' }.handleAgentEvents events).Shown := by
  have hsteeringQueue : agent'.steeringQueue = session.agent.steeringQueue.rest := hm.steeringQueue
  have hfollowUpQueue : agent'.followUpQueue = session.agent.followUpQueue := hm.followUpQueue
  have hsteering : session.steeringMessages =
      texts session.agent.steeringQueue.drained ++ texts agent'.steeringQueue.messages := by
    rw [h.steering, hsteeringQueue]
    exact texts_drained _
  have hfollowUp : session.followUpMessages = texts agent'.followUpQueue.messages := by
    rw [h.followUp, hfollowUpQueue]
    rfl
  rcases texts_starts hm.starts with ⟨hnone, hsame⟩ | ⟨message, hone, hfirst⟩
  · rw [handleAgentEvents_none hnone]
    have hwaiting : texts agent'.waiting = texts session.agent.steeringQueue.drained := hsame
    refine .steering ?_ hfollowUp
    simpa [waitingTexts, steeringTexts, hwaiting] using hsteering
  · rw [handleAgentEvents_one hone]
    have hdrained : texts session.agent.steeringQueue.drained =
        textOf message :: texts agent'.waiting := hfirst
    have hpolls : session.agent.pollsFirst = true := by
      rcases hm.announces (by rw [hone]; simp) with hsource | hpolls
      · cases hsource
      · exact hpolls
    have htext : textOf message ≠ "" := by
      have htake := htakes message (by rw [hone]; exact mem_singleton_self _)
      simpa [TakesOwn, kind, hpolls] using htake
    rw [hdrained] at hsteering
    rw [messageStarted_steering (by simpa using hsteering) htext]
    exact .steering rfl hfollowUp

/-- Polled follow-up messages are shown as follow-up texts until they start. -/
theorem shown_followUp (h : session.Mirrored)
    (hm : Agent.Moves session.agent agent' events .followUp) :
    ({ session with agent := agent' }.handleAgentEvents events).Shown := by
  have hsteeringQueue : agent'.steeringQueue = session.agent.steeringQueue := hm.steeringQueue
  have hfollowUpQueue : agent'.followUpQueue = session.agent.followUpQueue.rest := hm.followUpQueue
  have hquiet : startedUsers events = [] := by
    by_contra hstarted
    rcases hm.announces hstarted with hsource | hfirst
    · cases hsource
    · rcases hm.first hfirst with hsource | hsource
      · cases hsource
      · cases hsource
  have hwaiting : texts agent'.waiting = texts session.agent.followUpQueue.drained := by
    rcases texts_starts hm.starts with ⟨-, hsame⟩ | ⟨message, hone, -⟩
    · exact hsame
    · rw [hquiet] at hone
      cases hone
  have hsteering : session.steeringMessages = texts agent'.steeringQueue.messages := by
    rw [h.steering, hsteeringQueue]
    rfl
  rw [handleAgentEvents_none hquiet]
  refine .followUp hsteering ?_
  have hfollowUp := h.followUp
  rw [followUpTexts, texts_drained, ← hfollowUpQueue] at hfollowUp
  simpa [waitingTexts, followUpTexts, hwaiting] using hfollowUp

/-- Each source of the messages that wait. -/
theorem shown_moves (h : session.Shown) {source : Agent.Source}
    (hm : Agent.Moves session.agent agent' events source)
    (htakes : ∀ message ∈ startedUsers events, session.TakesOwn (textOf message)) :
    ({ session with agent := agent' }.handleAgentEvents events).Shown := by
  have hidle : source ≠ .waiting → session.Mirrored := by
    intro hsource
    exact h.mirrored (by rw [waitingTexts, hm.idle hsource, texts_nil])
  cases source with
  | waiting => exact shown_waiting h hm htakes
  | prompts messages => exact shown_prompts (hidle (by simp)) hm
  | steering => exact shown_steering (hidle (by simp)) hm htakes
  | followUp => exact shown_followUp (hidle (by simp)) hm

end Moves

/-! ## Calls of the session -/

/-- A queued text is shown behind the others. -/
theorem shown_queueSteer (h : session.Shown) (text : String) (images : List (String × String))
    (timestamp : ℚ) : (session.next (.queueSteer text images timestamp)).Shown := by
  have hqueue : texts (session.agent.steeringQueue.enqueue
      (queuedMessage text images timestamp)).messages = session.steeringTexts ++ [text] := by
    simp [PendingMessageQueue.enqueue, steeringTexts]
  change Shows (session.steeringMessages ++ [text]) session.followUpMessages session.waitingTexts
    (texts (session.agent.steeringQueue.enqueue (queuedMessage text images timestamp)).messages)
    session.followUpTexts
  rw [hqueue]
  cases h with
  | steering hsteering hfollowUp =>
    exact .steering (by rw [hsteering, append_assoc]) hfollowUp
  | followUp hsteering hfollowUp => exact .followUp (by rw [hsteering]) hfollowUp
  | none hsteering hfollowUp => exact .none (by rw [hsteering]) hfollowUp

theorem shown_queueFollowUp (h : session.Shown) (text : String) (images : List (String × String))
    (timestamp : ℚ) : (session.next (.queueFollowUp text images timestamp)).Shown := by
  have hqueue : texts (session.agent.followUpQueue.enqueue
      (queuedMessage text images timestamp)).messages = session.followUpTexts ++ [text] := by
    simp [PendingMessageQueue.enqueue, followUpTexts]
  change Shows session.steeringMessages (session.followUpMessages ++ [text]) session.waitingTexts
    session.steeringTexts
    (texts (session.agent.followUpQueue.enqueue (queuedMessage text images timestamp)).messages)
  rw [hqueue]
  cases h with
  | steering hsteering hfollowUp => exact .steering hsteering (by rw [hfollowUp])
  | followUp hsteering hfollowUp =>
    exact .followUp hsteering (by rw [hfollowUp, append_assoc])
  | none hsteering hfollowUp => exact .none hsteering (by rw [hfollowUp])

/-- A custom message has no text that is shown. -/
theorem shown_sendCustomMessage (h : session.Shown) (message : CustomMessage) (followUp : Bool) :
    (session.next (.sendCustomMessage message followUp)).Shown := by
  have htexts (queue : PendingMessageQueue) :
      texts (queue.enqueue (.custom message)).messages = texts queue.messages := by
    simp [PendingMessageQueue.enqueue]
  cases followUp with
  | false =>
    change Shows session.steeringMessages session.followUpMessages session.waitingTexts
      (texts (session.agent.steeringQueue.enqueue (.custom message)).messages) session.followUpTexts
    rw [htexts]
    exact h
  | true =>
    change Shows session.steeringMessages session.followUpMessages session.waitingTexts
      session.steeringTexts (texts (session.agent.followUpQueue.enqueue (.custom message)).messages)
    rw [htexts]
    exact h

/-- Nothing is shown after the queues are cleared; what the run has polled waits on. -/
theorem shown_clearQueue : (session.next .clearQueue).Shown := .none rfl rfl

/-- The agent's own steps keep the invariant if they meet the condition. -/
theorem shown_agent (h : session.Shown) {input : AgentInput}
    (hmeets : session.Meets (.agent input)) :
    (session.next (.agent input)).Shown := by
  obtain ⟨htakes, hrejects⟩ := hmeets
  simp only [next, step]
  split
  · exact h
  next hown =>
    unfold stepAgent
    cases hstep : session.agent.step input with
    | none => exact h
    | some result =>
      obtain ⟨agent', events⟩ := result
      have htakes' : ∀ message ∈ startedUsers events, session.TakesOwn (textOf message) := by
        intro message hmessage
        exact htakes message (by simpa [starting, hstep] using hmessage)
      change ({ session with agent := agent' }.handleAgentEvents events).Shown
      by_cases hlistener : rejects input = true
      · obtain ⟨loopInput, rfl⟩ : ∃ loopInput, input = .loop loopInput := by
          cases input <;> first | exact ⟨_, rfl⟩ | cases hlistener
        obtain rfl : loopInput = .listenerRejects := by
          cases loopInput <;> first | rfl | cases hlistener
        obtain ⟨hsteering, hfollowUp, hnone, hwaiting⟩ := Agent.step_listenerRejects hstep
        have hmirrored : session.Mirrored := by
          rcases hrejects hlistener with hkind | hnothing
          · unfold kind at hkind
            split at hkind
            · cases hkind
            · split at hkind
              · cases hkind
              next hsteering' =>
                split at hkind
                · cases hkind
                next hfollowUp' =>
                  exact ⟨Decidable.not_not.mp hsteering', Decidable.not_not.mp hfollowUp'⟩
          · exact h.mirrored hnothing
        rw [handleAgentEvents_none (by rw [hnone]; rfl)]
        refine .none ?_ ?_
        · simpa [steeringTexts, hsteering] using hmirrored.steering
        · simpa [followUpTexts, hfollowUp] using hmirrored.followUp
      · have hmoves : Agent.moves input = true := by
          cases input <;> simp_all [Agent.moves, ownCall, rejects]
        obtain ⟨source, hm⟩ := Agent.step_moves hmoves hstep
        exact shown_moves h hm htakes'

/-- Every step that meets the condition keeps the invariant. -/
theorem shown_next (h : session.Shown) {input : SessionInput} (hmeets : session.Meets input) :
    (session.next input).Shown := by
  cases input with
  | queueSteer text images timestamp => exact shown_queueSteer h text images timestamp
  | queueFollowUp text images timestamp => exact shown_queueFollowUp h text images timestamp
  | sendCustomMessage message followUp => exact shown_sendCustomMessage h message followUp
  | clearQueue => exact shown_clearQueue
  | agent input => exact shown_agent h hmeets

/-- The invariant holds after every run whose steps meet the condition. -/
theorem shown_run (h : session.Shown) {inputs : List SessionInput}
    (hmeets : session.MeetsAll inputs) : (session.run inputs).Shown := by
  induction inputs generalizing session with
  | nil => exact h
  | cons input inputs ih => exact ih (shown_next h hmeets.1) hmeets.2

/-! ## The queue that is shown -/

/-- Whenever no run is active after steps that meet the condition, **the texts that are shown are
those of the user messages that are queued**: their count is zero exactly if none is queued, and
`clearQueue` returns those that it removes. -/
theorem run_mirrored (agent : Agent) (hsteering : agent.steeringQueue.messages = [])
    (hfollowUp : agent.followUpQueue.messages = [])
    (inputs : List SessionInput) (hmeets : (start agent).MeetsAll inputs)
    (hnoRun : ((start agent).run inputs).agent.activeRun = none) :
    ((start agent).run inputs).Mirrored ∧
      (((start agent).run inputs).pendingMessageCount = 0 ↔
        users ((start agent).run inputs).agent.steeringQueue.messages = [] ∧
          users ((start agent).run inputs).agent.followUpQueue.messages = []) ∧
      ((start agent).run inputs).clearedQueue =
        (((start agent).run inputs).steeringTexts, ((start agent).run inputs).followUpTexts) := by
  have hstart : (start agent).Shown := by
    refine Mirrored.shown ⟨?_, ?_⟩
    · simp [start, steeringTexts, hsteering]
    · simp [start, followUpTexts, hfollowUp]
  have hmirrored : ((start agent).run inputs).Mirrored := by
    refine (shown_run hstart hmeets).mirrored ?_
    simp [waitingTexts, Agent.waiting, hnoRun]
  refine ⟨hmirrored, ?_, ?_⟩
  · simp [pendingMessageCount, hmirrored.steering, hmirrored.followUp, steeringTexts, followUpTexts,
      texts]
  · simp [clearedQueue, hmirrored.steering, hmirrored.followUp]

/-! ## Two runs -/

/-- An agent without messages. -/
def emptyAgent : Agent where
  messages := []
  tools := []
  provider := "faux"
  model := "faux-1"
  sequential := false
  steeringQueue := ⟨[], .oneAtATime⟩
  followUpQueue := ⟨[], .oneAtATime⟩
  activeRun := none

/-- A response without tool calls. -/
def answer : AssistantMessage :=
  ⟨some [.text "done"], "faux", "faux-1", Usage.zero, .stop, none, 0⟩

/-- The listeners of some events are done. -/
def resumes (n : Nat) : List SessionInput := List.replicate n (.agent (.loop (.resume 0)))

/-- A response arrives, and its turn ends. -/
def answers : List SessionInput :=
  [.agent (.loop (.streamEnd answer))] ++ resumes 2 ++
    [.agent (.loop (.nextTurn none)), .agent (.loop (.stopAfterTurn false))]

/-- A prompt is answered while a text is queued, which is delivered and answered then. -/
def queuedOnce (text : String) (images : List (String × String)) : List SessionInput :=
  [.agent (.prompt [queuedMessage "hello" [] 0])] ++ resumes 5 ++
    [.agent .poll, .queueSteer text images 0] ++ answers ++ [.agent .poll] ++ resumes 3 ++
      answers ++
    [.agent .poll, .agent .poll] ++ resumes 1 ++ [.agent .finishRun]

theorem run_mirrored_queuedOnce :
    ((start emptyAgent).run (queuedOnce "stop" [])).Mirrored := by
  have hmeets : (start emptyAgent).MeetsAll (queuedOnce "stop" []) := by decide
  have hnoRun : ((start emptyAgent).run (queuedOnce "stop" [])).agent.activeRun = none :=
    Option.isNone_iff_eq_none.mp (by decide)
  exact (run_mirrored emptyAgent rfl rfl (queuedOnce "stop" []) hmeets hnoRun).1

/-- The empty text of a message with an image is shown on after the message has been delivered. -/
theorem emptyText_not_mirrored :
    ¬∀ (agent : Agent), agent.steeringQueue.messages = [] → agent.followUpQueue.messages = [] →
      ∀ inputs : List SessionInput, ((start agent).run inputs).agent.activeRun = none →
        ((start agent).run inputs).Mirrored := by
  intro h
  have hmirrored := h emptyAgent rfl rfl (queuedOnce "" [("aGk=", "image/png")])
    (Option.isNone_iff_eq_none.mp (by decide +kernel))
  have hshown : ((start emptyAgent).run (queuedOnce "" [("aGk=", "image/png")])).steeringMessages =
      [""] := by decide +kernel
  have hqueued : ((start emptyAgent).run (queuedOnce "" [("aGk=", "image/png")])).steeringTexts =
      [] := by decide +kernel
  have hsame := hmirrored.steering
  rw [hshown, hqueued] at hsame
  cases hsame

end QueueSession
end BeauPi.AgentSession
