import BeauPi.Harness.Agent

/-!
# Queued messages that a run holds

* `PC.plain` — where the loop holds no message that it was given.
* `announced_resume`, `announced_poll` — what the loop holds after a step.
* `RunStage.queued` — the queued messages that a run holds.
* `RunStage.step_queued` — **a step moves queued messages between the queues, the run and the
  session, unless something throws where the run holds one**.
-/

namespace BeauPi

open Option (bind_eq_some_iff map_eq_some_iff some.inj)
namespace AgentLoop

open Llm Sessions List

/-! ## Messages that the loop holds -/

/-- The prompts that are not announced yet. -/
def PC.prompts : PC → List AgentMessage
  | .start prompts => prompts
  | .started prompts => prompts
  | .opened prompts => prompts
  | .promptStarted message rest => message :: rest
  | .promptEnded rest => rest
  | _ => []

/-- The messages of a poll that are not announced yet. -/
def PC.polled : PC → List AgentMessage
  | .turnStarted pending => pending
  | .injectStarted message rest => message :: rest
  | .injectEnded _ rest => rest
  | _ => []

/-- Does the loop hold no message that it was given? -/
def PC.plain : PC → Bool
  | .start _ | .started _ | .opened _ | .promptStarted .. | .promptEnded _ => false
  | .turnStarted _ | .injectStarted .. | .injectEnded .. => false
  | _ => true

/-- The step leads to where the loop holds no message. -/
def Plain (stepped : Stepped) : Prop := ∀ next ∈ stepped, next.1.pc.plain = true

variable {l : Loop}

variable {pc : PC}

theorem plain_goto (l : Loop) (hpc : pc.plain = true) : Plain (l.goto pc) := by
  intro next h
  obtain rfl := some.inj h
  exact hpc

theorem plain_emit (l : Loop) (event : AgentEvent) (hpc : pc.plain = true) :
    Plain (l.emit event pc) := by
  intro next h
  obtain rfl := some.inj h
  exact hpc

theorem plain_endTurn (l : Loop) (message : AssistantMessage)
    (toolResults : List ToolResultMessage) (more : Bool) :
    Plain (l.endTurn message toolResults more) := plain_emit _ _ rfl

theorem plain_endCalls (l : Loop) (b : Batch) : Plain (l.endCalls b) := by
  unfold Loop.endCalls
  split
  · exact plain_endTurn _ _ _ _
  · exact plain_endTurn _ _ _ _
  · exact plain_goto _ rfl

theorem plain_nextCall (l : Loop) (b : Batch) : Plain (l.nextCall b) := by
  unfold Loop.nextCall
  split
  · exact plain_endCalls l b
  · exact plain_emit _ _ rfl

theorem plain_nextUnlessAborted (l : Loop) (b : Batch) : Plain (l.nextUnlessAborted b) := by
  unfold Loop.nextUnlessAborted
  split
  · exact plain_endCalls l b
  · exact plain_nextCall l b

theorem plain_announce (l : Loop) (b : Batch) (finalized : Finalized) (others : List Finalized)
    (now : ℚ) : Plain (l.announce b finalized others now) := plain_emit _ _ rfl

theorem plain_nextResult (l : Loop) (b : Batch) (all others : List Finalized) (now : ℚ) :
    Plain (l.nextResult b all others now) := by
  unfold Loop.nextResult
  split
  · exact plain_endTurn _ _ _ _
  · exact plain_announce _ _ _ _ _

theorem plain_processed (l : Loop) (message : AssistantMessage) : Plain (l.processed message) := by
  unfold Loop.processed
  dsimp only
  split
  · exact plain_emit _ _ rfl
  · split
    · exact plain_endTurn _ _ _ _
    · exact plain_nextCall _ _

/-- Where the loop holds no message, it holds none after an event was handled either. -/
theorem plain_resume (hpc : l.pc.plain = true) (now : ℚ) : Plain (l.resume now) := by
  unfold Loop.resume
  cases hl : l.pc with
  | start | started | opened | promptStarted | promptEnded | turnStarted | injectStarted
  | injectEnded => rw [hl] at hpc; cases hpc
  | finalStarted | failed | announced => exact plain_emit _ _ rfl
  | received final => exact plain_processed l final
  | preparing b call =>
    dsimp only
    split
    · exact plain_emit _ _ rfl
    · exact fun next h => by cases h
  | ended b finalized =>
    dsimp only
    split
    · exact plain_nextUnlessAborted _ _
    · exact plain_announce _ _ _ _ _
  | recorded b result finalized others =>
    dsimp only
    split
    · exact plain_nextCall _ _
    · exact plain_nextUnlessAborted _ _
    · exact plain_nextResult _ _ _ _ _
  | finished => exact plain_goto _ rfl
  | _ => exact fun next h => by cases h

theorem plain_none : Plain none := fun next h => by cases h

/-- What the harness passes on to the loop finds it where it holds no message, and leaves it
there. -/
theorem plain_step {input : Input} (hpassed : Harness.passedOn l.pc input = true) :
    ∀ next ∈ l.step input, l.pc.plain = true ∧ next.1.pc.plain = true := by
  suffices h : Plain (l.step input) ∧ (l.step input ≠ none → l.pc.plain = true) by
    exact fun next hnext => ⟨h.2 (by rw [hnext]; simp), h.1 next hnext⟩
  cases input with
  | callbackThrows =>
    simp only [Harness.passedOn, Bool.and_eq_true] at hpassed
    unfold Loop.step
    dsimp only
    split
    · next hcalling =>
      refine ⟨plain_goto _ rfl, fun _ => ?_⟩
      cases hpc : l.pc <;> simp_all [PC.plain, PC.calling]
    · exact ⟨plain_none, fun h => absurd rfl h⟩
  | streamStart message =>
    unfold Loop.step
    dsimp only
    split
    · next hpc => exact ⟨plain_emit _ _ rfl, fun _ => by rw [hpc]; rfl⟩
    · exact ⟨plain_none, fun h => absurd rfl h⟩
  | streamUpdate message =>
    unfold Loop.step
    dsimp only
    split
    · next hpc => exact ⟨plain_goto _ rfl, fun _ => by rw [hpc]; rfl⟩
    · next hpc => exact ⟨plain_emit _ _ rfl, fun _ => by rw [hpc]; rfl⟩
    · exact ⟨plain_none, fun h => absurd rfl h⟩
  | streamEnd final =>
    unfold Loop.step
    dsimp only
    split
    · next hpc => exact ⟨plain_emit _ _ rfl, fun _ => by rw [hpc]; rfl⟩
    · next hpc => exact ⟨plain_emit _ _ rfl, fun _ => by rw [hpc]; rfl⟩
    · exact ⟨plain_none, fun h => absurd rfl h⟩
  | prepared args before =>
    unfold Loop.step
    dsimp only
    split
    · next hpc =>
      refine ⟨?_, fun _ => by rw [hpc]; rfl⟩
      split
      · exact plain_none
      · exact plain_emit _ _ rfl
      · exact plain_goto _ rfl
      · exact plain_nextUnlessAborted _ _
    · exact ⟨plain_none, fun h => absurd rfl h⟩
  | stopAfterTurn stop =>
    unfold Loop.step
    dsimp only
    split
    · next hpc =>
      refine ⟨?_, fun _ => by rw [hpc]; rfl⟩
      split
      · exact plain_emit _ _ rfl
      · exact plain_goto _ rfl
    · exact ⟨plain_none, fun h => absurd rfl h⟩
  | joined now =>
    unfold Loop.step
    dsimp only
    split
    · next hpc _ => exact ⟨plain_announce _ _ _ _ _, fun _ => by rw [hpc]; rfl⟩
    · next hpc _ => exact ⟨plain_nextResult _ _ _ _ _, fun _ => by rw [hpc]; rfl⟩
    · exact ⟨plain_none, fun h => absurd rfl h⟩
  | joinRejects =>
    unfold Loop.step
    dsimp only
    split
    · next hpc =>
      refine ⟨?_, fun _ => by rw [hpc]; rfl⟩
      split
      · exact plain_goto _ rfl
      · exact plain_none
    · next hpc =>
      refine ⟨?_, fun _ => by rw [hpc]; rfl⟩
      split
      · exact plain_goto _ rfl
      · exact plain_none
    · exact ⟨plain_none, fun h => absurd rfl h⟩
  | _ => cases hpassed

/-- The queued messages among the prompts and the messages of a poll that are not announced yet;
the last prompts are `own`. -/
def PC.held (own : Nat) (pc : PC) : List AgentMessage :=
  pc.prompts.take (pc.prompts.length - own) ++ pc.polled

/-- The message whose `message_end` is emitted, if it was queued. -/
def PC.recording (own : Nat) (m : AgentMessage) : PC → List AgentMessage
  | .promptEnded rest => if own ≤ rest.length then [m] else []
  | .injectEnded .. => [m]
  | _ => []

/-- The queued messages of a step of the loop: the one that is to be recorded, and those held. -/
def announced (own : Nat) (stepped : Loop × List AgentEvent) : List AgentMessage :=
  (match stepped.2.head? with
    | some (.messageEnd m) => stepped.1.pc.recording own m
    | _ => []) ++ stepped.1.pc.held own

theorem held_plain (hpc : pc.plain = true) (own : Nat) : pc.held own = [] := by
  cases pc <;> simp_all [PC.plain, PC.held, PC.prompts, PC.polled]

theorem recording_plain (hpc : pc.plain = true) (own : Nat) (m : AgentMessage) :
    pc.recording own m = [] := by
  cases pc <;> simp_all [PC.plain, PC.recording]

/-- Behind the prompts only messages of a poll are held. -/
theorem held_polled (hpc : pc.prompts = []) (own : Nat) : pc.held own = pc.polled := by
  simp [PC.held, hpc]

theorem announced_plain {stepped : Loop × List AgentEvent} (hpc : stepped.1.pc.plain = true)
    (own : Nat) : announced own stepped = [] := by
  unfold announced
  rw [held_plain hpc]
  split
  · rw [recording_plain hpc]
    rfl
  · rfl

variable {next : Loop × List AgentEvent}

/-- The next prompts are announced. -/
theorem announced_nextPrompt (l : Loop) (own : Nat) (prompts : List AgentMessage)
    (hs : l.nextPrompt prompts = some next) :
    announced own next = prompts.take (prompts.length - own) := by
  cases prompts with
  | nil =>
    obtain rfl := some.inj hs
    exact (held_polled rfl own).trans (take_nil ..).symm
  | cons m rest =>
    obtain rfl := some.inj hs
    exact append_nil _

/-- Messages of a poll are injected. -/
theorem announced_inject (l : Loop) (own : Nat) (pending : List AgentMessage)
    (hs : l.inject pending = some next) :
    announced own next = pending := by
  cases pending with
  | nil | cons =>
    obtain rfl := some.inj hs
    exact held_polled rfl own

/-- A prompt that is recorded and those after it. -/
theorem recording_prompt (own : Nat) (m : AgentMessage) (rest : List AgentMessage) :
    (if own ≤ rest.length then [m] else []) ++ (rest.take (rest.length - own) ++ []) =
      (m :: rest).take ((m :: rest).length - own) := by
  rw [append_nil, length_cons]
  split
  · next h => rw [Nat.succ_sub h, take_succ_cons, singleton_append]
  · next h =>
    rw [Nat.sub_eq_zero_of_le (by omega), Nat.sub_eq_zero_of_le (by omega)]
    rfl

/-- **The loop announces what it holds.** -/
theorem announced_resume (own : Nat) {now : ℚ} (hs : l.resume now = some next) :
    announced own next = l.pc.held own := by
  by_cases hplain : l.pc.plain = true
  · rw [announced_plain (plain_resume hplain now next hs), held_plain hplain]
  · unfold Loop.resume at hs
    cases hpc : l.pc <;> rw [hpc] at hs hplain <;> try exact absurd rfl hplain
    case start prompts =>
      obtain rfl := some.inj hs
      rfl
    case started prompts =>
      obtain rfl := some.inj hs
      rfl
    case opened prompts =>
      exact (announced_nextPrompt l own prompts hs).trans (append_nil _).symm
    case promptStarted m rest =>
      obtain rfl := some.inj hs
      exact (recording_prompt own m rest).trans (append_nil _).symm
    case promptEnded rest =>
      exact (announced_nextPrompt l own rest hs).trans (append_nil _).symm
    case turnStarted pending =>
      rw [held_polled rfl own]
      exact announced_inject l own pending hs
    case injectStarted m rest =>
      obtain rfl := some.inj hs
      rw [held_polled rfl own]
      exact congrArg (m :: ·) (held_polled rfl own)
    case injectEnded m rest =>
      rw [held_polled rfl own]
      exact announced_inject _ own rest hs

theorem announced_nextTurn (l : Loop) (own : Nat) (more : Bool) (messages : List AgentMessage)
    (hs : l.nextTurn more messages = some next) :
    announced own next = messages := by
  unfold Loop.nextTurn at hs
  split at hs
  · obtain rfl := some.inj hs
    exact held_polled rfl own
  · next hnone =>
    obtain rfl := some.inj hs
    rw [not_or, not_not] at hnone
    exact (held_polled rfl own).trans hnone.2.symm

/-- The answer to a poll is all that the loop holds afterwards. -/
theorem announced_poll (own : Nat) {name : Harness.QueueName} {messages : List AgentMessage}
    (hs : l.step (Harness.pollAnswer messages name) = some next) :
    announced own next = messages := by
  cases name with
  | steer =>
    unfold Harness.pollAnswer Loop.step at hs
    dsimp only at hs
    split at hs
    · exact announced_inject l own messages hs
    · next more _ => exact announced_nextTurn l own more messages hs
    · cases hs
  | followUp =>
    unfold Harness.pollAnswer Loop.step at hs
    dsimp only at hs
    split at hs
    · split at hs
      · next hnone =>
        obtain rfl := some.inj hs
        exact (held_polled rfl own).trans hnone.symm
      · exact announced_nextTurn l own true messages hs
    · cases hs

/-- The next turn is prepared where the loop holds no message. -/
theorem announced_prepared (own : Nat) {context : Option (List AgentMessage × List Tool)}
    (hs : l.step (.nextTurn context) = some next) :
    announced own next = [] := by
  unfold Loop.step at hs
  dsimp only at hs
  split at hs
  · split at hs
    · obtain rfl := some.inj hs
      exact held_polled rfl own
    · obtain rfl := some.inj hs
      exact held_polled rfl own
  · cases hs

end AgentLoop

namespace Harness

open Llm Sessions List
open AgentLoop (Loop AgentEvent announced announced_plain announced_resume announced_poll
  announced_prepared plain_step held_plain recording_plain)

variable {h h' : AgentHarness} {s s' : System} {moment : Moment} {own run : Nat}

/-! ## Messages that wait in queues -/

/-- The messages in the queues. -/
def AgentHarness.waiting (h : AgentHarness) : List AgentMessage :=
  h.steerQueue.messages ++ h.followUpQueue.messages ++ h.nextTurnQueue

/-- The messages in the queues but one. -/
def AgentHarness.others (h : AgentHarness) : QueueName → List AgentMessage
  | .steer => h.followUpQueue.messages ++ h.nextTurnQueue
  | .followUp => h.steerQueue.messages ++ h.nextTurnQueue

theorem waiting_perm (h : AgentHarness) (name : QueueName) :
    h.waiting.Perm ((h.queue name).messages ++ h.others name) := by
  rw [perm_iff_count]
  intro m
  cases name with
  | steer => simp [AgentHarness.waiting, AgentHarness.others, AgentHarness.queue]
  | followUp =>
    simp only [AgentHarness.waiting, AgentHarness.others, AgentHarness.queue, count_append]
    omega

theorem setQueue_perm (h : AgentHarness) (queue : Queue) (name : QueueName) :
    (h.setQueue queue name).waiting.Perm (queue.messages ++ h.others name) := by
  have hqueue : (h.setQueue queue name).queue name = queue := by cases name <;> rfl
  have hothers : (h.setQueue queue name).others name = h.others name := by cases name <;> rfl
  have hperm := waiting_perm (h.setQueue queue name) name
  rw [hqueue, hothers] at hperm
  exact hperm

theorem splice_perm (mode : QueueMode) (messages : List AgentMessage) :
    (splice mode messages).1 ++ (splice mode messages).2 = messages := by
  cases mode with
  | all => exact append_nil _
  | oneAtATime => exact take_append_drop 1 messages

/-- A poll takes messages out of a queue. -/
theorem waiting_splice (h : AgentHarness) (name : QueueName) :
    ((h.setQueue { h.queue name with
        messages := (splice (h.queueMode name) (h.queue name).messages).2 } name).waiting ++
      (splice (h.queueMode name) (h.queue name).messages).1).Perm h.waiting := by
  have hset : (h.setQueue { h.queue name with
      messages := (splice (h.queueMode name) (h.queue name).messages).2 } name).waiting.Perm
        ((splice (h.queueMode name) (h.queue name).messages).2 ++ h.others name) :=
    setQueue_perm h _ name
  have hsplice := splice_perm (h.queueMode name) (h.queue name).messages
  have hwaiting := waiting_perm h name
  rw [perm_iff_count] at hset hwaiting ⊢
  intro m
  have hcount := congrArg (List.count m) hsplice
  rw [count_append] at hcount ⊢
  rw [hset m, hwaiting m, count_append, count_append]
  omega

/-- A notification that throws puts the messages back, if the queue still has its array. -/
theorem waiting_unshift {name : QueueName} {array : Nat} (harray : (h.queue name).array = array)
    (messages : List AgentMessage) :
    (h.unshift name array messages).waiting.Perm (h.waiting ++ messages) := by
  unfold AgentHarness.unshift
  rw [if_pos harray]
  have hset : (h.setQueue { h.queue name with
      messages := messages ++ (h.queue name).messages } name).waiting.Perm
        (messages ++ (h.queue name).messages ++ h.others name) := setQueue_perm h _ name
  have hwaiting := waiting_perm h name
  rw [perm_iff_count] at hset hwaiting ⊢
  intro m
  rw [hset m, count_append, count_append, count_append, hwaiting m,
    count_append]
  omega

/-! ## Steps that leave the queues as they are -/

theorem Flush.step_waiting {flush : Flush} {input : FlushInput} {progress : Progress Flush}
    (hs : flush.step h input = some (h', progress)) : h'.waiting = h.waiting := by
  unfold Flush.step at hs
  split at hs
  · obtain ⟨⟨session, at'⟩, -, heq⟩ := map_eq_some_iff.1 hs
    cases at' <;> cases heq <;> rfl
  · cases hs
    rfl
  · cases hs

theorem handleAgentEvent_waiting (h : AgentHarness) (event : AgentEvent) :
    (h.handleAgentEvent event).1.waiting = h.waiting := by
  unfold AgentHarness.handleAgentEvent
  split
  · rfl
  · rfl
  · split
    · rfl
    · rfl
  · rfl

theorem report_waiting (h : AgentHarness) (events : List AgentEvent) :
    (h.report events).1.waiting = h.waiting := by
  cases events with
  | nil => rfl
  | cons event rest => exact handleAgentEvent_waiting h event

theorem fail_waiting (h : AgentHarness) (run : Nat) (model : ModelRef) (moment : Moment) :
    (h.fail run model moment).1.waiting = h.waiting := report_waiting h _

theorem react_waiting (h : AgentHarness) (run : Nat) (model : ModelRef) (moment : Moment)
    (stepped : Loop × List AgentEvent) :
    (h.react run model moment stepped).1.waiting = h.waiting := by
  unfold AgentHarness.react
  split
  · exact handleAgentEvent_waiting h _
  · split
    · rfl
    · exact fail_waiting h run model moment
    · rfl

theorem resumeLoop_waiting (h : AgentHarness) (run : Nat) (loop : Loop) (model : ModelRef)
    (moment : Moment) : (h.resumeLoop run loop model moment).1.waiting = h.waiting := by
  unfold AgentHarness.resumeLoop
  split
  · exact react_waiting h run model moment _
  · rfl

/-! ## Queued messages that a run holds -/

/-- The queued message that is being appended to the session. -/
def Handling.recording (own : Nat) (pc : AgentLoop.PC) : Handling → List AgentMessage
  | .appending m _ => pc.recording own m
  | _ => []

/-- The queued messages that a run holds; the last `own` prompts are its own. -/
def RunStage.queued (own : Nat) : RunStage → List AgentMessage
  | .updating _ queued _ => queued
  | .starting _ messages => messages.dropLast
  | .looping loop _ handling => handling.recording own loop.pc ++ loop.pc.held own
  | .draining _ _ _ _ messages => messages
  | _ => []

/-- The number of a run's own prompts after a step. -/
def RunStage.owned (own : Nat) : RunStage → RunInput → Nat
  | .starting .., .resume more => 1 + more.length
  | _, _ => own

/-- The queued message that is recorded when an append to the session is done. -/
def Handling.records (own : Nat) (pc : AgentLoop.PC) :
    Handling → HandlingInput → List AgentMessage
  | .appending m _, .append .written => pc.recording own m
  | _, _ => []

/-- The queued messages that a step records in the session. -/
def RunStage.records (own : Nat) : RunStage → RunInput → List AgentMessage
  | .looping loop _ handling, .handling input => handling.records own loop.pc input
  | _, _ => []

/-- Does what the handling of an event awaits throw? -/
def Handling.throws (h : AgentHarness) (handling : Handling) (input : HandlingInput) : Bool :=
  match handling.step h input with
  | some (_, .threw) => true
  | _ => false

/-- A step keeps the queued messages of a run: nothing that it awaits throws while it holds one,
except for the notification of a poll whose queue has not been replaced and that of `nextTurn`
messages. -/
def RunStage.keeps (h : AgentHarness) (own : Nat) (stage : RunStage) (input : RunInput) : Bool :=
  match stage, input with
  | .starting .., .rejects => (stage.queued own).isEmpty
  | .looping _ _ handling, .handling input =>
    (stage.queued own).isEmpty || !handling.throws h input
  | .draining _ _ name array _, .rejects => (h.queue name).array == array
  | _, _ => true

theorem queued_close (h : AgentHarness) (completed : Bool) (own : Nat) :
    (h.close completed).2.queued own = [] := rfl

theorem queued_report (h : AgentHarness) (events : List AgentEvent) (own : Nat) :
    (h.report events).2.queued own = [] := by
  cases events <;> rfl

theorem queued_fail (h : AgentHarness) (run : Nat) (model : ModelRef) (moment : Moment)
    (own : Nat) : (h.fail run model moment).2.queued own = [] := queued_report h _ own

theorem queued_react (h : AgentHarness) (run : Nat) (model : ModelRef) (moment : Moment)
    (stepped : Loop × List AgentEvent) (own : Nat) :
    (h.react run model moment stepped).2.queued own = announced own stepped := by
  unfold AgentHarness.react announced
  split
  · next loop event rest =>
    rw [head?_cons]
    cases event with
    | agentEnd messages =>
      unfold AgentHarness.handleAgentEvent
      dsimp only
      split <;> rfl
    | _ => rfl
  · next loop =>
    split
    · next hpc => rw [queued_close, held_plain (by rw [hpc]; rfl)]; rfl
    · next hpc => rw [queued_fail, held_plain (by rw [hpc]; rfl)]; rfl
    · rfl

theorem queued_resumeLoop (h : AgentHarness) (run : Nat) (loop : Loop) (model : ModelRef)
    (moment : Moment) (own : Nat) :
    (h.resumeLoop run loop model moment).2.queued own = loop.pc.held own := by
  unfold AgentHarness.resumeLoop
  split
  · next stepped hstep => exact (queued_react _ _ _ _ _ _).trans (announced_resume own hstep)
  · rfl

/-- What a step of `handleAgentEvent` does to the message that is being recorded. -/
theorem Handling.step_recording {handling : Handling} {input : HandlingInput}
    {progress : Progress Handling} (pc : AgentLoop.PC)
    (hs : handling.step h input = some (h', progress)) :
    h'.waiting = h.waiting ∧
      match progress with
      | .pending rest =>
        rest.recording own pc ++ handling.records own pc input = handling.recording own pc
      | .done => handling.recording own pc = [] ∧ handling.records own pc input = []
      | .threw => handling.throws h input = true ∧ handling.records own pc input = [] := by
  have hthrows : progress = .threw → handling.throws h input = true := by
    rintro rfl
    rw [Handling.throws, hs]
  unfold Handling.step at hs
  split at hs
  · next m rest input =>
    obtain ⟨⟨session, at'⟩, hstep, heq⟩ := map_eq_some_iff.1 hs
    unfold Appending.step at hstep
    split at hstep
    · split at hstep
      · cases hstep
      · cases hstep
        cases heq
        exact ⟨rfl, append_nil _⟩
    · split at hstep
      · cases hstep
        cases heq
        exact ⟨rfl, append_nil _⟩
      · cases hstep
        cases heq
        exact ⟨rfl, hthrows rfl, rfl⟩
    · cases hstep
      cases heq
      exact ⟨rfl, rfl⟩
    · cases hstep
      cases heq
      exact ⟨rfl, hthrows rfl, rfl⟩
    · cases hstep
  · next threw flush input =>
    obtain ⟨⟨h'', progress'⟩, hstep, heq⟩ := map_eq_some_iff.1 hs
    have hwaiting := Flush.step_waiting hstep
    cases progress' with
    | pending rest =>
      cases heq
      exact ⟨hwaiting, rfl⟩
    | done =>
      cases heq
      cases threw with
      | false => exact ⟨hwaiting, rfl⟩
      | true => exact ⟨hwaiting, hthrows rfl, rfl⟩
    | threw =>
      cases heq
      exact ⟨hwaiting, hthrows rfl, rfl⟩
  · next flush input =>
    obtain ⟨⟨h'', progress'⟩, hstep, heq⟩ := map_eq_some_iff.1 hs
    have hwaiting := Flush.step_waiting hstep
    cases progress' with
    | pending | done =>
      cases heq
      exact ⟨hwaiting, rfl⟩
    | threw =>
      cases heq
      exact ⟨hwaiting, hthrows rfl, rfl⟩
  · cases hs
    exact ⟨rfl, rfl, rfl⟩
  · cases hs
    exact ⟨rfl, hthrows rfl, rfl⟩
  · have hturn := some.inj hs
    unfold AgentHarness.flushTurn at hturn
    split at hturn
    · cases hturn
      exact ⟨rfl, rfl⟩
    · cases hturn
      exact ⟨rfl, rfl⟩
  · have hturn := some.inj hs
    unfold AgentHarness.flushTurn at hturn
    split at hturn
    · cases hturn
      exact ⟨rfl, rfl⟩
    · cases hturn
      exact ⟨rfl, hthrows rfl, rfl⟩
  · cases hs
    exact ⟨rfl, rfl⟩
  · cases hs
    exact ⟨rfl, hthrows rfl, rfl⟩
  · cases hs

/-- The queued messages that a run still holds, if it goes on. -/
def queuedNext (own : Nat) (next : Option RunStage) : List AgentMessage :=
  next.elim [] (RunStage.queued own)

theorem plain_polled {pc : AgentLoop.PC} {name : QueueName} (h : polledQueue pc = some name) :
    pc.plain = true := by
  cases pc <;> first | rfl | cases h

theorem plain_prepares {pc : AgentLoop.PC} (h : preparesTurn pc = true) : pc.plain = true := by
  cases pc <;> first | rfl | cases h

theorem stepLoop_queued {loop : Loop} {model : ModelRef} {handling : Handling}
    {input : AgentLoop.Input} {next : AgentHarness × RunStage}
    (hs : stepLoop h run loop model handling moment input = some next) :
    next.1.waiting = h.waiting ∧
      next.2.queued own = (RunStage.looping loop model handling).queued own := by
  unfold stepLoop at hs
  split at hs
  · obtain ⟨stepped, hstep, rfl⟩ := map_eq_some_iff.1 hs
    obtain ⟨t, -, hstep⟩ := bind_eq_some_iff.1 hstep
    obtain ⟨t', -, hstep⟩ := bind_eq_some_iff.1 hstep
    obtain rfl := some.inj hstep
    exact ⟨rfl, rfl⟩
  · split at hs
    · next hpassed =>
      obtain ⟨stepped, hstep, rfl⟩ := map_eq_some_iff.1 hs
      obtain ⟨hbefore, hafter⟩ := plain_step hpassed.2 stepped hstep
      refine ⟨react_waiting h run model moment stepped, ?_⟩
      rw [queued_react, announced_plain hafter, hpassed.1]
      exact (held_plain hbefore own).symm
    · cases hs

/-- A step moves the queued messages between the queues, the run and the session. -/
def RunStage.Moves (h : AgentHarness) (own : Nat) (stage : RunStage) (input : RunInput)
    (h' : AgentHarness) (next : Option RunStage) : Prop :=
  (h'.waiting ++ queuedNext (stage.owned own input) next ++ stage.records own input).Perm
    (h.waiting ++ stage.queued own)

/-- Most steps leave the queues as they are and what the run holds as well. -/
theorem unmoved {held held' : List AgentMessage} (hwaiting : h'.waiting = h.waiting)
    (hheld : held' = held) : (h'.waiting ++ held' ++ []).Perm (h.waiting ++ held) := by
  rw [hwaiting, hheld, append_nil]

variable {loop : Loop} {model : ModelRef} {handling : Handling} {turn : TurnState}
  {messages : List AgentMessage} {input : RunInput} {next : Option RunStage}

theorem creating_moves (hs : RunStage.creating.step h run moment input = some (h', next)) :
    RunStage.creating.Moves h own input h' next := by
  cases input with
  | created turn prompt =>
    unfold RunStage.step at hs
    dsimp only at hs
    split at hs
    · cases hs
      exact unmoved rfl rfl
    · cases hs
      change ((_ ++ _ ++ []) ++ h.nextTurnQueue ++ []).Perm _
      simp [AgentHarness.waiting, RunStage.queued]
  | rejects =>
    cases hs
    exact unmoved rfl rfl
  | _ => cases hs

theorem updating_moves {queued : List AgentMessage} {prompt : AgentMessage}
    (hs : (RunStage.updating turn queued prompt).step h run moment input = some (h', next)) :
    (RunStage.updating turn queued prompt).Moves h own input h' next := by
  cases input with
  | resume more =>
    cases hs
    exact unmoved rfl dropLast_concat
  | rejects =>
    cases hs
    change ((h.steerQueue.messages ++ h.followUpQueue.messages ++ (queued ++ h.nextTurnQueue)) ++
      [] ++ []).Perm _
    rw [perm_iff_count]
    intro m
    simp only [AgentHarness.waiting, RunStage.queued, count_append, count_nil]
    omega
  | _ => cases hs

theorem starting_moves (hkeeps : (RunStage.starting turn messages).keeps h own input = true)
    (hs : (RunStage.starting turn messages).step h run moment input = some (h', next)) :
    (RunStage.starting turn messages).Moves h own input h' next := by
  cases input with
  | resume more =>
    have hqueued := queued_resumeLoop { h with runAbortController := some run } run
      (AgentLoop.runAgentLoop (messages ++ more) turn.messages turn.tools false) turn.model moment
      (1 + more.length)
    have hwaiting := resumeLoop_waiting { h with runAbortController := some run } run
      (AgentLoop.runAgentLoop (messages ++ more) turn.messages turn.tools false) turn.model moment
    cases hs
    refine unmoved hwaiting (hqueued.trans ?_)
    change (messages ++ more).take ((messages ++ more).length - (1 + more.length)) ++ [] =
      messages.dropLast
    have hlength : (messages ++ more).length - (1 + more.length) = messages.length - 1 := by
      rw [length_append]
      omega
    rw [append_nil, hlength, take_append_of_le_length (by omega),
      dropLast_eq_take]
  | rejects =>
    cases hs
    exact unmoved rfl (isEmpty_iff.1 hkeeps).symm
  | _ => cases hs

/-- What the handling of an event awaits is done. -/
theorem handling_moves {input : HandlingInput}
    (hkeeps : (RunStage.looping loop model handling).keeps h own (.handling input) = true)
    (hs : (RunStage.looping loop model handling).step h run moment (.handling input) =
      some (h', next)) :
    (RunStage.looping loop model handling).Moves h own (.handling input) h' next := by
  obtain ⟨⟨h'', progress⟩, hhandling, heq⟩ := map_eq_some_iff.1 hs
  obtain ⟨hwaiting, hprogress⟩ := @Handling.step_recording _ _ own _ _ _ loop.pc hhandling
  cases progress with
  | pending rest =>
    cases heq
    change (_ ++ (rest.recording own loop.pc ++ loop.pc.held own) ++
      handling.records own loop.pc input).Perm (_ ++ (handling.recording own loop.pc ++ _))
    rw [hwaiting, ← hprogress, perm_iff_count]
    intro m
    simp only [count_append]
    omega
  | done =>
    obtain ⟨hnone, hrecords⟩ := hprogress
    have hqueued := queued_resumeLoop h'' run
      { loop with aborted := h''.aborted.contains run } model moment own
    have hresume := resumeLoop_waiting h'' run
      { loop with aborted := h''.aborted.contains run } model moment
    cases heq
    change (_ ++ _ ++ handling.records own loop.pc input).Perm
      (_ ++ (handling.recording own loop.pc ++ _))
    rw [hrecords, hnone]
    exact unmoved (hresume.trans hwaiting) hqueued
  | threw =>
    obtain ⟨hthrows, hrecords⟩ := hprogress
    have hqueued := queued_fail h'' run model moment own
    have hfail := fail_waiting h'' run model moment
    have hheld : (RunStage.looping loop model handling).queued own = [] := by
      change (_ || !handling.throws h input) = true at hkeeps
      rw [hthrows, Bool.not_true, Bool.or_false] at hkeeps
      exact isEmpty_iff.1 hkeeps
    cases heq
    change (_ ++ _ ++ handling.records own loop.pc input).Perm _
    rw [hrecords, hheld]
    exact unmoved (hfail.trans hwaiting) hqueued

/-- The loop polls a queue. -/
theorem poll_moves
    (hs : (RunStage.looping loop model handling).step h run moment .poll = some (h', next)) :
    (RunStage.looping loop model handling).Moves h own .poll h' next := by
  unfold RunStage.step at hs
  dsimp only at hs
  split at hs
  · cases hs
  · next name hpolled =>
    split at hs
    · next hfree =>
      have hheld : (RunStage.looping loop model handling).queued own = [] := by
        rw [hfree]
        exact held_plain (plain_polled hpolled) own
      unfold RunStage.Moves
      rw [hheld]
      split at hs
      · obtain ⟨stepped, hstep, heq⟩ := bind_eq_some_iff.1 hs
        have hqueued := queued_react h run model moment stepped own
        have hwaiting := react_waiting h run model moment stepped
        cases heq
        exact unmoved hwaiting (hqueued.trans (announced_poll own hstep))
      · cases hs
        refine (List.Perm.of_eq (append_nil _)).trans ?_
        rw [append_nil]
        exact waiting_splice h name
    · cases hs

theorem looping_moves (hkeeps : (RunStage.looping loop model handling).keeps h own input = true)
    (hs : (RunStage.looping loop model handling).step h run moment input = some (h', next)) :
    (RunStage.looping loop model handling).Moves h own input h' next := by
  cases input with
  | handling input => exact handling_moves hkeeps hs
  | loop input =>
    obtain ⟨next', hstep, heq⟩ := map_eq_some_iff.1 hs
    obtain ⟨hwaiting, hqueued⟩ := @stepLoop_queued _ _ own _ _ _ _ _ _ hstep
    cases heq
    exact unmoved hwaiting hqueued
  | poll => exact poll_moves hs
  | prepare =>
    unfold RunStage.step at hs
    dsimp only at hs
    split at hs
    · next hprepares =>
      have hheld : (RunStage.looping loop model handling).queued own = [] := by
        rw [hprepares.1]
        exact held_plain (plain_prepares hprepares.2) own
      cases hs
      unfold RunStage.Moves
      rw [hheld]
      refine unmoved rfl ?_
      cases Flush.next h.pendingSessionWrites <;> rfl
    · cases hs
  | _ => cases hs

theorem draining_moves {name : QueueName} {array : Nat}
    (hkeeps : (RunStage.draining loop model name array messages).keeps h own input = true)
    (hs : (RunStage.draining loop model name array messages).step h run moment input =
      some (h', next)) :
    (RunStage.draining loop model name array messages).Moves h own input h' next := by
  cases input with
  | resume more =>
    obtain ⟨stepped, hstep, heq⟩ := bind_eq_some_iff.1 hs
    have hqueued := queued_react h run model moment stepped own
    have hwaiting := react_waiting h run model moment stepped
    cases heq
    exact unmoved hwaiting (hqueued.trans (announced_poll own hstep))
  | rejects =>
    have hunshift := waiting_unshift (beq_iff_eq.1 hkeeps) messages
    have hqueued := queued_fail (h.unshift name array messages) run model moment own
    have hwaiting := fail_waiting (h.unshift name array messages) run model moment
    cases hs
    refine (List.Perm.of_eq (append_nil _)).trans ?_
    refine (List.Perm.of_eq ?_).trans hunshift
    rw [hwaiting]
    exact (congrArg (_ ++ ·) hqueued).trans (append_nil _)
  | _ => cases hs

/-- **A step that keeps the queued messages of a run moves them between the queues, the run and the
session.** -/
theorem RunStage.step_queued {stage : RunStage} {input : RunInput} {next : Option RunStage}
    (hkeeps : stage.keeps h own input = true)
    (hs : stage.step h run moment input = some (h', next)) :
    (h'.waiting ++ queuedNext (stage.owned own input) next ++ stage.records own input).Perm
      (h.waiting ++ stage.queued own) := by
  cases stage with
  | creating => exact creating_moves hs
  | updating turn queued prompt => exact updating_moves hs
  | starting turn messages => exact starting_moves hkeeps hs
  | looping loop model handling => exact looping_moves hkeeps hs
  | draining loop model name array messages => exact draining_moves hkeeps hs
  | preparing loop model flush =>
    cases input with
    | flush input =>
      obtain ⟨⟨h'', progress⟩, hflush, heq⟩ := map_eq_some_iff.1 hs
      have hwaiting := Flush.step_waiting hflush
      cases progress with
      | pending | done =>
        cases heq
        exact unmoved hwaiting rfl
      | threw =>
        have hqueued := queued_fail h'' run model moment own
        have hfail := fail_waiting h'' run model moment
        cases heq
        exact unmoved (hfail.trans hwaiting) hqueued
    | _ => cases hs
  | refreshing loop model =>
    cases input with
    | created turn prompt =>
      obtain ⟨stepped, hstep, heq⟩ := bind_eq_some_iff.1 hs
      have hqueued := queued_react h run turn.model moment stepped own
      have hwaiting := react_waiting h run turn.model moment stepped
      cases heq
      exact unmoved hwaiting (hqueued.trans (announced_prepared own hstep))
    | rejects =>
      have hqueued := queued_fail h run model moment own
      have hwaiting := fail_waiting h run model moment
      cases hs
      exact unmoved hwaiting hqueued
    | _ => cases hs
  | reporting rest handling =>
    cases input with
    | handling input =>
      obtain ⟨⟨h'', progress⟩, hhandling, heq⟩ := map_eq_some_iff.1 hs
      have hwaiting := (@Handling.step_recording _ _ own _ _ _ .initialPoll hhandling).1
      cases progress with
      | pending | threw =>
        cases heq
        exact unmoved hwaiting rfl
      | done =>
        have hqueued := queued_report h'' rest own
        have hreport := report_waiting h'' rest
        cases heq
        exact unmoved (hreport.trans hwaiting) hqueued
    | _ => cases hs
  | closing completed flush =>
    cases flush with
    | some flush =>
      cases input with
      | flush input =>
        obtain ⟨⟨h'', progress⟩, hflush, heq⟩ := map_eq_some_iff.1 hs
        have hwaiting := Flush.step_waiting hflush
        cases progress <;> cases heq <;> exact unmoved hwaiting rfl
      | _ => cases hs
    | none =>
      cases input with
      | settle =>
        cases hs
        exact unmoved rfl rfl
      | _ => cases hs

end Harness
end BeauPi
