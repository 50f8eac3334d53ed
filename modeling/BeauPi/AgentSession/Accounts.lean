import BeauPi.AgentSession.Attended

/-!
# Accounting for what was accepted

A message that was accepted is queued, deferred, waits in the run of the agent, or is in the
transcript and in the session.

* `Accounted` — every accepted message is found somewhere, as often as it was accepted.
* `Accounts` — what a step accepts is found after it; `Accounts.trans` composes steps.
* `step_accounts` — **every timely step accounts for what it has accepted.**
-/

namespace BeauPi.AgentSession.Activity

open Llm Sessions AgentLoop Machine List
open Option (bind_eq_some_iff elim_some elim_none)
open Activity (accept poll startRun endMessage persist)

/-- How often a message is in the session. -/
def recorded (s : Activity) (message : AgentMessage) : Nat :=
  (s.session.nodes.map Prod.snd).count (some message)

variable {s t : Activity} {i : Nat}

/-! ## What has been accepted -/

/-- How often a message is queued, deferred or waits in the run. -/
def waitingCount (s : Activity) (message : AgentMessage) : Nat :=
  s.steeringQueue.messages.count message + s.followUpQueue.messages.count message +
    s.pendingBashMessages.count message +
    (s.agentRun.elim [] (·.waiting)).count message

/-- How often the end of a message is being handled. -/
def persistingCount (s : Activity) (message : AgentMessage) : Nat :=
  (s.agentRun.bind (·.persisting)).toList.count message

/-- Every message that was accepted waits, or is in the transcript and in the session, or is about to
be. -/
structure Accounted (s : Activity) : Prop where
  transcript : ∀ message, s.accepted.count message ≤ s.waitingCount message +
    s.transcript.count message
  session : ∀ message, s.accepted.count message ≤ s.waitingCount message +
    s.persistingCount message + s.recorded message

/-- What a step has accepted waits, or is recorded, at the end of it. -/
structure Accounts (s t : Activity) (more : List AgentMessage) : Prop where
  accepted : t.accepted = s.accepted ++ more
  transcript : ∀ message, s.waitingCount message + s.transcript.count message +
    more.count message ≤ t.waitingCount message + t.transcript.count message
  session : ∀ message, s.waitingCount message + s.persistingCount message + s.recorded message +
    more.count message ≤ t.waitingCount message + t.persistingCount message + t.recorded message

theorem Accounted.after {more : List AgentMessage} (h : s.Accounted) (hstep : s.Accounts t more) :
    t.Accounted := by
  constructor
  · intro message
    have hbefore := h.transcript message
    have hafter := hstep.transcript message
    rw [hstep.accepted, count_append]
    omega
  · intro message
    have hbefore := h.session message
    have hafter := hstep.session message
    rw [hstep.accepted, count_append]
    omega

theorem Accounts.trans {u : Activity} {more more' : List AgentMessage} (h : s.Accounts t more)
    (h' : t.Accounts u more') : s.Accounts u (more ++ more') := by
  refine ⟨?_, fun message => ?_, fun message => ?_⟩
  · rw [h'.accepted, h.accepted, append_assoc]
  · have hfirst := h.transcript message
    have hsecond := h'.transcript message
    rw [count_append]
    omega
  · have hfirst := h.session message
    have hsecond := h'.session message
    rw [count_append]
    omega

/-- Nothing that counts has changed. -/
theorem accounts_of_same (haccepted : t.accepted = s.accepted)
    (hsteering : t.steeringQueue = s.steeringQueue) (hfollowUp : t.followUpQueue = s.followUpQueue)
    (hpending : t.pendingBashMessages = s.pendingBashMessages) (hrun : t.agentRun = s.agentRun)
    (htranscript : t.transcript = s.transcript) (hsession : ∀ message, s.recorded message ≤
      t.recorded message) : s.Accounts t [] := by
  refine ⟨by simp [haccepted], fun message => ?_, fun message => ?_⟩
  · simp [waitingCount, hsteering, hfollowUp, hpending, hrun, htranscript]
  · have hrecorded := hsession message
    simp only [waitingCount, persistingCount, hsteering, hfollowUp, hpending, hrun, count_nil]
    omega

@[simp] theorem recorded_append (tree : EntryTree) (value : Option AgentMessage)
    (message : AgentMessage) : ((tree.append value).nodes.map Prod.snd).count (some message) =
      (tree.nodes.map Prod.snd).count (some message) + [value].count (some message) := by
  simp [BranchTree.append]

theorem recorded_foldl (messages : List AgentMessage) (message : AgentMessage) :
    ∀ tree : EntryTree, ((messages.foldl (fun tree message => tree.append (some message))
      tree).nodes.map Prod.snd).count (some message) =
        (tree.nodes.map Prod.snd).count (some message) + messages.count message := by
  induction messages with
  | nil => intro tree; rfl
  | cons first messages ih =>
    intro tree
    rw [foldl_cons, ih, recorded_append]
    simp only [count_cons, count_nil, beq_iff_eq, Option.some.injEq]
    omega

theorem accounts_flush : s.Accounts s.flushPendingBashMessages [] := by
  unfold flushPendingBashMessages
  rw [pushAll_eq]
  refine ⟨by simp, fun message => ?_, fun message => ?_⟩
  · simp only [waitingCount, count_append, count_nil]
    omega
  · simp only [waitingCount, persistingCount, recorded, recorded_foldl, count_nil]
    omega

theorem accounts_push (message : AgentMessage) :
    s.Accounts ((s.push message).accept [message]) [message] := by
  refine ⟨rfl, fun other => ?_, fun other => ?_⟩
  · simp only [waitingCount, Activity.push, accept, count_append]
    omega
  · simp only [waitingCount, persistingCount, recorded, Activity.push, accept,
      recorded_append, count_cons, count_nil, beq_iff_eq, Option.some.injEq]
    omega

theorem accounts_enqueue (delivery : Delivery) (message : AgentMessage) :
    s.Accounts ((s.enqueue delivery message).accept [message]) [message] := by
  cases delivery with
  | steer | followUp =>
    refine ⟨rfl, fun other => ?_, fun other => ?_⟩
    all_goals
      simp only [waitingCount, persistingCount, recorded, Activity.enqueue, accept,
        PendingMessageQueue.enqueue, count_append]
      omega

theorem accounts_defer (message : AgentMessage) :
    s.Accounts ({ s with pendingBashMessages := s.pendingBashMessages ++ [message] }.accept
      [message]) [message] := by
  refine ⟨rfl, fun other => ?_, fun other => ?_⟩
  all_goals
    simp only [waitingCount, persistingCount, recorded, accept, count_append]
    omega

/-- The messages of a run that is started wait. -/
theorem accounts_runAgentPrompt (messages : List AgentMessage) :
    ∃ more, s.Accounts (s.runAgentPrompt messages) more := by
  unfold Activity.runAgentPrompt
  dsimp only
  split
  next => exact ⟨[], accounts_of_same rfl rfl rfl rfl rfl rfl fun _ => Nat.le_refl _⟩
  next hnone =>
    have hnone : s.agentRun = none := by simpa using hnone
    refine ⟨messages, rfl, fun other => ?_, fun other => ?_⟩
    all_goals
      simp only [waitingCount, persistingCount, recorded, startRun, accept, hnone,
        elim_none, elim_some, Option.bind_none, Option.bind_some, Option.toList_none,
        count_nil]
      omega

theorem accounts_endPrompt {call : PromptCall} (h : s.endPrompt i call = some t) :
    s.Accounts t [] := by
  obtain ⟨-, rfl⟩ := endPrompt_eq h
  exact accounts_of_same rfl rfl rfl rfl rfl rfl fun _ => Nat.le_refl _

theorem accounts_decide {call : PromptCall} (h : s.decide i call = some t) :
    ∃ more, s.Accounts t more := by
  unfold Activity.decide at h
  split at h
  next =>
    split at h
    next => exact ⟨[], accounts_endPrompt h⟩
    next delivery _ =>
      exact ⟨_, (accounts_enqueue delivery call.message).trans (accounts_endPrompt h)⟩
  next =>
    cases h
    refine ⟨_, accounts_flush.trans (accounts_of_same rfl rfl rfl rfl rfl rfl fun _ => ?_)⟩
    exact Nat.le_refl _

theorem accounts_sendCustomMessage (message : AgentMessage) (deliverAs : Delivery)
    (triggerTurn : Bool) :
    ∃ more, s.Accounts (s.sendCustomMessage message deliverAs triggerTurn) more := by
  unfold Activity.sendCustomMessage
  split
  next => exact ⟨_, accounts_enqueue deliverAs message⟩
  next =>
    split
    next => exact accounts_runAgentPrompt [message]
    next => exact ⟨_, accounts_push message⟩

theorem accounts_recordBashResult (message : AgentMessage) :
    ∃ more, s.Accounts (s.recordBashResult message) more := by
  unfold Activity.recordBashResult
  split
  next => exact ⟨_, accounts_defer message⟩
  next => exact ⟨_, accounts_push message⟩

theorem count_queue (queue : PendingMessageQueue) (message : AgentMessage) :
    queue.messages.count message =
      queue.drained.count message + queue.rest.messages.count message := by
  rw [← count_append, queue.drained_append_rest]

/-- What a poll takes from a queue waits in the run. -/
theorem accounts_poll {run : AgentRun} (hrun : s.agentRun = some run) (hwaiting : run.waiting = [])
    (delivery : Delivery) : s.Accounts (s.poll delivery run) [] := by
  cases delivery with
  | steer =>
    refine ⟨by simp [poll], fun other => ?_, fun other => ?_⟩
    all_goals
      have hqueue := count_queue s.steeringQueue other
      simp only [waitingCount, persistingCount, recorded, poll, hrun, hwaiting,
        elim_some, Option.bind_some, count_nil]
      omega
  | followUp =>
    refine ⟨by simp [poll], fun other => ?_, fun other => ?_⟩
    all_goals
      have hqueue := count_queue s.followUpQueue other
      simp only [waitingCount, persistingCount, recorded, poll, hrun, hwaiting,
        elim_some, Option.bind_some, count_nil]
      omega

/-- The end of a message that waited, or of another one. -/
theorem accounts_endMessage {run run' : AgentRun} {message : AgentMessage}
    (hrun : s.agentRun = some run) (hrest : run.persisting = none) (hconnected : s.connected = true)
    (hwaiting : ∀ other, run.waiting.count other ≤ run'.waiting.count other +
      [message].count other) : s.Accounts (s.endMessage run' message) [] := by
  refine ⟨by simp [endMessage], fun other => ?_, fun other => ?_⟩
  · have hother := hwaiting other
    simp only [waitingCount, endMessage, hrun, elim_some, count_append,
      count_nil]
    omega
  · have hother := hwaiting other
    simp only [waitingCount, persistingCount, recorded, endMessage, hrun, hrest,
      hconnected, if_true, elim_some, Option.bind_some, Option.toList_none,
      Option.toList_some, count_nil]
    omega

theorem accounts_persist {run : AgentRun} {message : AgentMessage} (hrun : s.agentRun = some run)
    (hpersisting : run.persisting = some message) : s.Accounts (s.persist run message) [] := by
  refine ⟨by simp [persist], fun other => ?_, fun other => ?_⟩
  · simp only [waitingCount, persist, hrun, elim_some, count_nil]
    omega
  · simp only [waitingCount, persistingCount, recorded, persist, hrun, hpersisting,
      elim_some, Option.bind_some, Option.toList_none, Option.toList_some, recorded_append,
      count_cons, count_nil, beq_iff_eq, Option.some.injEq]
    omega

/-- A run that is over has nothing that waits. -/
theorem accounts_endRun {run : AgentRun} (hrun : s.agentRun = some run)
    (hrest : run.persisting = none) (hwaiting : run.waiting = []) :
    s.Accounts (s.endRun run) [] := by
  refine ⟨by simp [Activity.endRun], fun other => ?_, fun other => ?_⟩
  all_goals
    simp only [waitingCount, persistingCount, recorded, Activity.endRun, hrun, hrest, hwaiting,
      elim_some, elim_none, Option.bind_some, Option.bind_none, Option.toList_none,
      count_nil]
    omega

/-- What `agent.continue` takes from a queue waits in the run. -/
theorem accounts_restart {call : RunCall} (hrun : s.agentRun = none)
    {messages : List AgentMessage} {steering followUp : PendingMessageQueue}
    (hqueues : ∀ other, s.steeringQueue.messages.count other +
      s.followUpQueue.messages.count other ≤ steering.messages.count other +
        followUp.messages.count other + messages.count other) :
    s.Accounts ({ s with steeringQueue := steering, followUpQueue := followUp }.goTo i call .running
      |>.startRun messages) [] := by
  refine ⟨by simp [startRun, Activity.goTo], fun other => ?_, fun other => ?_⟩
  all_goals
    have hother := hqueues other
    simp only [waitingCount, persistingCount, recorded, startRun, Activity.goTo, hrun,
      elim_some, elim_none, Option.bind_some, Option.bind_none, Option.toList_none,
      count_nil]
    omega

theorem accounts_continueRun (call : RunCall) (endsWithAssistant : Bool) :
    s.Accounts (s.continueRun i call endsWithAssistant) [] := by
  unfold Activity.continueRun
  split
  next => exact accounts_of_same rfl rfl rfl rfl rfl rfl fun _ => Nat.le_refl _
  next hnone =>
    have hnone : s.agentRun = none := by simpa using hnone
    split
    next => exact accounts_restart hnone fun other => by simp
    next =>
      split
      next =>
        refine accounts_restart hnone fun other => ?_
        have hqueue := count_queue s.steeringQueue other
        omega
      next =>
        split
        next =>
          refine accounts_restart hnone fun other => ?_
          have hqueue := count_queue s.followUpQueue other
          omega
        next => exact accounts_of_same rfl rfl rfl rfl rfl rfl fun _ => Nat.le_refl _

theorem accounts_finish (call : RunCall) : s.Accounts (s.finish i call) [] := by
  unfold Activity.finish
  dsimp only
  split
  next =>
    have hfirst : s.Accounts { s with calls := s.calls.eraseIdx i, isAgentRunActive := false } [] :=
      accounts_of_same rfl rfl rfl rfl rfl rfl fun _ => Nat.le_refl _
    refine (hfirst.trans accounts_flush).trans ?_
    exact accounts_of_same rfl rfl rfl rfl rfl rfl fun _ => Nat.le_refl _
  next => exact accounts_of_same rfl rfl rfl rfl rfl rfl fun _ => Nat.le_refl _

/-- **Every timely step accounts for what it has accepted.** -/
theorem step_accounts {event : Event} (hconnected : s.connected = true) (hG : s.IsTimely event)
    (hstep : s.step event = some t) : ∃ more, s.Accounts t more := by
  cases event with
  | prompt message isCommand streamingBehavior starts =>
    cases hstep
    exact ⟨[], accounts_of_same rfl rfl rfl rfl rfl rfl fun _ => Nat.le_refl _⟩
  | commandDone i handled =>
    obtain ⟨call, -, hstep⟩ := bind_eq_some_iff.1 hstep
    split at hstep
    · exact ⟨[], accounts_endPrompt hstep⟩
    · cases hstep
      exact ⟨[], accounts_of_same rfl rfl rfl rfl rfl rfl fun _ => Nat.le_refl _⟩
  | intercepted | refused =>
    obtain ⟨call, -, hstep⟩ := bind_eq_some_iff.1 hstep
    exact ⟨[], accounts_endPrompt hstep⟩
  | decided i =>
    obtain ⟨call, -, hstep⟩ := bind_eq_some_iff.1 hstep
    exact accounts_decide hstep
  | ready i others =>
    obtain ⟨call, -, hstep⟩ := bind_eq_some_iff.1 hstep
    split at hstep
    · cases hstep
      obtain ⟨more, hmore⟩ := @accounts_runAgentPrompt (s.releasePreflight i)
        (call.message :: others)
      have hfirst : s.Accounts (s.releasePreflight i) [] :=
        accounts_of_same rfl rfl rfl rfl rfl rfl fun _ => Nat.le_refl _
      exact ⟨_, hfirst.trans hmore⟩
    · cases hstep
  | sendCustomMessage message deliverAs triggerTurn =>
    cases hstep
    exact accounts_sendCustomMessage message deliverAs triggerTurn
  | recordBashResult message =>
    cases hstep
    exact accounts_recordBashResult message
  | poll delivery =>
    obtain ⟨run, hrun, hstep⟩ := bind_eq_some_iff.1 hstep
    split at hstep
    next hwaiting =>
      cases hstep
      exact ⟨[], accounts_poll (runAtRest_eq hrun).1 hwaiting delivery⟩
    next => cases hstep
  | announced =>
    obtain ⟨run, hrun, hstep⟩ := bind_eq_some_iff.1 hstep
    obtain ⟨hrun, hrest⟩ := runAtRest_eq hrun
    split at hstep
    next => cases hstep
    next message waiting hwaiting =>
      cases hstep
      refine ⟨[], accounts_endMessage hrun hrest hconnected fun other => ?_⟩
      simp only [hwaiting, count_cons, count_nil]
      omega
  | responded message =>
    obtain ⟨run, hrun, hstep⟩ := bind_eq_some_iff.1 hstep
    obtain ⟨hrun, hrest⟩ := runAtRest_eq hrun
    split at hstep
    next =>
      cases hstep
      exact ⟨[], accounts_endMessage hrun hrest hconnected fun other => Nat.le_add_right _ _⟩
    next => cases hstep
  | persisted =>
    obtain ⟨run, hrun, hstep⟩ := bind_eq_some_iff.1 hstep
    obtain ⟨message, hpersisting, hstep⟩ := bind_eq_some_iff.1 hstep
    cases hstep
    exact ⟨[], accounts_persist hrun hpersisting⟩
  | runEnded =>
    obtain ⟨run, hrun, hstep⟩ := bind_eq_some_iff.1 hstep
    obtain ⟨hrun, hrest⟩ := runAtRest_eq hrun
    split at hstep
    next hwaiting =>
      cases hstep
      exact ⟨[], accounts_endRun hrun hrest hwaiting⟩
    next => cases hstep
  | handled i recovers =>
    obtain ⟨call, -, hstep⟩ := bind_eq_some_iff.1 hstep
    cases hstep
    exact ⟨[], accounts_of_same rfl rfl rfl rfl rfl rfl fun _ => Nat.le_refl _⟩
  | continued i endsWithAssistant =>
    obtain ⟨call, -, hstep⟩ := bind_eq_some_iff.1 hstep
    cases hstep
    exact ⟨[], accounts_continueRun call endsWithAssistant⟩
  | finished i =>
    obtain ⟨call, -, hstep⟩ := bind_eq_some_iff.1 hstep
    cases hstep
    exact ⟨[], accounts_finish call⟩
  | reviewed =>
    rw [Activity.step] at hstep
    split at hstep
    · cases hstep
      exact ⟨[], accounts_of_same rfl rfl rfl rfl rfl rfl fun _ => Nat.le_refl _⟩
    · cases hstep
  | entryAppended =>
    cases hstep
    refine ⟨[], accounts_of_same rfl rfl rfl rfl rfl rfl fun message => ?_⟩
    simp [recorded]
  | compact | compacted | navigateTree | navigated => exact hG.elim

end BeauPi.AgentSession.Activity
