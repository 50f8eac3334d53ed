import BeauPi.AgentSession.Activity

/-!
# Who attends to what is queued

A message is queued whenever the session is streaming.  It is streaming during the review after a
run and while a prompt is prepared, but **only a run polls the queues**, and only its end or the
start of another one flushes the results of bash commands.

* `isServed`, `willFlush` — some call is still to look at the queues, or to flush.
* `IsTimely` — messages are queued only then.
* `Attended` — the invariant of timely runs, with one lemma for each operation; `step_attended`.
-/

namespace BeauPi.AgentSession.Activity

open Llm Sessions AgentLoop Machine List
open Option (bind_eq_some_iff filter_eq_some_iff some.inj)

variable (s : Activity)

/-! ## Who looks at what is queued -/

/-- A prompt that keeps the session busy goes on to start a run. -/
def HasStartingPrompt : Prop := ∃ call ∈ s.prompts, call.tracksPreflight = true ∧ call.starts = true

/-- A call of `_runAgentPrompt` is still to look at the queues, or a prompt starts one. -/
def isServed : Prop := (∃ call ∈ s.calls, call.phase ≠ .exiting) ∨ s.HasStartingPrompt

/-- The call of `_runAgentPrompt` that flushes is not over, or a prompt starts one. -/
def willFlush : Prop := (∃ call ∈ s.calls, call.runId = s.runCounter) ∨ s.HasStartingPrompt

/-- A message is queued, and a bash result deferred, only while a call is still to look at them; the
context is not changed. -/
def IsTimely : Event → Prop
  | .sendCustomMessage _ _ _ => s.isStreaming = true → s.isServed
  | .decided i => ∀ call ∈ s.promptAt i .input, s.isBusyFor call = true →
      call.streamingBehavior ≠ none → s.isServed
  | .recordBashResult _ => s.isStreaming = true → s.willFlush
  | .compact | .compacted _ _ | .navigateTree | .navigated _ _ _ => False
  | _ => True

instance : Decidable s.HasStartingPrompt :=
  inferInstanceAs (Decidable (∃ call ∈ s.prompts, call.tracksPreflight = true ∧ call.starts = true))

instance : Decidable s.isServed :=
  inferInstanceAs (Decidable ((∃ call ∈ s.calls, call.phase ≠ .exiting) ∨ s.HasStartingPrompt))

instance : Decidable s.willFlush :=
  inferInstanceAs (Decidable ((∃ call ∈ s.calls, call.runId = s.runCounter) ∨ s.HasStartingPrompt))

instance (event : Event) : Decidable (s.IsTimely event) := by
  cases event <;> unfold IsTimely <;> infer_instance

/-- What the calls in progress have to do with what is queued. -/
structure Attended : Prop where
  connected : s.connected = true
  awaited : s.agentRun.isSome = true → ∃ call ∈ s.calls, call.phase = .running
  queued : s.hasQueuedMessages = true → s.isServed
  pending : s.pendingBashMessages ≠ [] → s.willFlush

variable {s} {t : Activity} {i : Nat}

/-! ## Lists of calls -/

theorem mem_eraseIdx_of_ne {α : Type} {l : List α} {a b : α} (ha : a ∈ l) (hb : l[i]? = some b)
    (hne : a ≠ b) : a ∈ l.eraseIdx i := by
  obtain ⟨j, hj, rfl⟩ := getElem_of_mem ha
  have hij : j ≠ i := by
    rintro rfl
    rw [getElem?_eq_getElem hj] at hb
    exact hne (some.inj hb)
  exact List.mem_eraseIdx_iff_getElem.2 ⟨j, hj, hij, rfl⟩

theorem mem_set_of_ne {α : Type} {l : List α} {a b c : α} (ha : a ∈ l) (hb : l[i]? = some b)
    (hne : a ≠ b) : a ∈ l.set i c := by
  obtain ⟨j, hj, rfl⟩ := getElem_of_mem ha
  have hij : i ≠ j := by
    rintro rfl
    rw [getElem?_eq_getElem hj] at hb
    exact hne (some.inj hb)
  refine mem_of_getElem? (i := j) ?_
  rw [getElem?_set_ne hij, getElem?_eq_getElem hj]

theorem mem_set_self {α : Type} {l : List α} {b : α} (hb : l[i]? = some b) (c : α) :
    c ∈ l.set i c :=
  mem_set (List.getElem?_eq_some_iff.1 hb).1 c

theorem promptAt_eq {stage : PromptStage} {call : PromptCall}
    (h : s.promptAt i stage = some call) : s.prompts[i]? = some call :=
  (filter_eq_some_iff.1 h).1

variable {call : RunCall}

theorem callAt_eq {phase : CallPhase} (h : s.callAt i phase = some call) :
    s.calls[i]? = some call ∧ call.phase = phase := by
  obtain ⟨hcall, hphase⟩ := filter_eq_some_iff.1 h
  exact ⟨hcall, of_decide_eq_true hphase⟩

theorem runAtRest_eq {run : AgentRun} (h : s.runAtRest = some run) :
    s.agentRun = some run ∧ run.persisting = none := by
  obtain ⟨hrun, hrest⟩ := filter_eq_some_iff.1 h
  exact ⟨hrun, of_decide_eq_true hrest⟩

/-! ## Steps that change no call -/

theorem isServed_mono (hcalls : ∀ call ∈ s.calls, call ∈ t.calls)
    (hprompts : s.HasStartingPrompt → t.HasStartingPrompt) (h : s.isServed) : t.isServed := by
  rcases h with ⟨call, hmem, hphase⟩ | h
  · exact .inl ⟨call, hcalls call hmem, hphase⟩
  · exact .inr (hprompts h)

theorem willFlush_mono (hcalls : ∀ call ∈ s.calls, call ∈ t.calls)
    (hcounter : t.runCounter = s.runCounter)
    (hprompts : s.HasStartingPrompt → t.HasStartingPrompt) (h : s.willFlush) : t.willFlush := by
  rcases h with ⟨call, hmem, hid⟩ | h
  · exact .inl ⟨call, hcalls call hmem, hid.trans hcounter.symm⟩
  · exact .inr (hprompts h)

/-- Nothing is queued or deferred, and no call goes on. -/
theorem Attended.keep (h : s.Attended) (hconnected : t.connected = s.connected)
    (hcalls : ∀ call ∈ s.calls, call ∈ t.calls) (hcounter : t.runCounter = s.runCounter)
    (hprompts : s.HasStartingPrompt → t.HasStartingPrompt)
    (hrun : t.agentRun.isSome = true → s.agentRun.isSome = true)
    (hqueued : t.hasQueuedMessages = true → s.hasQueuedMessages = true)
    (hpending : t.pendingBashMessages ≠ [] → s.pendingBashMessages ≠ []) : t.Attended where
  connected := hconnected.trans h.connected
  awaited hsome := by
    obtain ⟨call, hmem, hphase⟩ := h.awaited (hrun hsome)
    exact ⟨call, hcalls call hmem, hphase⟩
  queued hq := isServed_mono hcalls hprompts (h.queued (hqueued hq))
  pending hp := willFlush_mono hcalls hcounter hprompts (h.pending (hpending hp))

theorem startingPrompt_eraseIdx {call : PromptCall} (hcall : s.prompts[i]? = some call)
    (hstarts : call.starts = false) (h : s.HasStartingPrompt) :
    (s.releasePreflight i).HasStartingPrompt := by
  obtain ⟨other, hmem, htracks, hother⟩ := h
  refine ⟨other, mem_eraseIdx_of_ne hmem hcall ?_, htracks, hother⟩
  rintro rfl
  rw [hstarts] at hother
  cases hother

theorem startingPrompt_moveTo {call : PromptCall} (hcall : s.prompts[i]? = some call)
    (stage : PromptStage) (h : s.HasStartingPrompt) :
    (s.moveTo i call stage).HasStartingPrompt := by
  obtain ⟨other, hmem, htracks, hother⟩ := h
  by_cases heq : other = call
  · subst heq
    exact ⟨_, mem_set_self hcall _, htracks, hother⟩
  · exact ⟨other, mem_set_of_ne hmem hcall heq, htracks, hother⟩

theorem endPrompt_eq {call : PromptCall} (h : s.endPrompt i call = some t) :
    call.starts = false ∧ t = s.releasePreflight i := by
  unfold endPrompt at h
  split at h
  · cases h
  · next hstarts => exact ⟨by simpa using hstarts, (some.inj h).symm⟩

theorem Attended.endPrompt {call : PromptCall} (h : s.Attended) (hcall : s.prompts[i]? = some call)
    (hstep : s.endPrompt i call = some t) : t.Attended := by
  obtain ⟨hstarts, rfl⟩ := endPrompt_eq hstep
  exact h.keep rfl (fun _ hmem => hmem) rfl (startingPrompt_eraseIdx hcall hstarts) id id id

theorem Attended.moveTo {call : PromptCall} (h : s.Attended) (hcall : s.prompts[i]? = some call)
    (stage : PromptStage) : (s.moveTo i call stage).Attended :=
  h.keep rfl (fun _ hmem => hmem) rfl (startingPrompt_moveTo hcall stage) id id id

/-! ## Messages that are queued, deferred or pushed -/

theorem Attended.enqueue (h : s.Attended) (hserved : s.isServed) (delivery : Delivery)
    (message : AgentMessage) : (s.enqueue delivery message).Attended := by
  cases delivery with
  | steer => exact ⟨h.connected, h.awaited, fun _ => hserved, h.pending⟩
  | followUp => exact ⟨h.connected, h.awaited, fun _ => hserved, h.pending⟩

theorem Attended.accept (h : s.Attended) (messages : List AgentMessage) :
    (s.accept messages).Attended :=
  ⟨h.connected, h.awaited, h.queued, h.pending⟩

theorem Attended.push (h : s.Attended) (message : AgentMessage) : (s.push message).Attended :=
  ⟨h.connected, h.awaited, h.queued, h.pending⟩

theorem pushAll_eq (messages : List AgentMessage) : ∀ s : Activity,
    messages.foldl Activity.push s = { s with
      transcript := s.transcript ++ messages
      session := messages.foldl (fun tree message => tree.append (some message)) s.session } := by
  induction messages with
  | nil => intro s; simp
  | cons message messages ih =>
    intro s
    rw [foldl_cons, ih (s.push message)]
    simp [Activity.push]

theorem Attended.flush (h : s.Attended) : s.flushPendingBashMessages.Attended := by
  unfold flushPendingBashMessages
  rw [pushAll_eq]
  exact ⟨h.connected, h.awaited, h.queued, fun hp => absurd rfl hp⟩

theorem Attended.decide {call : PromptCall} (h : s.Attended) (hcall : s.prompts[i]? = some call)
    (hserved : s.isBusyFor call = true → call.streamingBehavior ≠ none → s.isServed)
    (hstep : s.decide i call = some t) : t.Attended := by
  unfold Activity.decide at hstep
  split at hstep
  next hbusy =>
    split at hstep
    next => exact h.endPrompt hcall hstep
    next delivery hdelivery =>
      have hqueued := (h.enqueue (hserved hbusy (by simp [hdelivery])) delivery call.message).accept
        [call.message]
      refine hqueued.endPrompt ?_ hstep
      cases delivery <;> exact hcall
  next =>
    cases hstep
    refine h.flush.moveTo ?_ .preparing
    unfold flushPendingBashMessages
    rw [pushAll_eq]
    exact hcall

/-! ## Calls that start, go on and end -/

/-- A call is started: whatever waits, it attends to it, or the one that the agent runs for. -/
theorem attended_runAgentPrompt (hconnected : s.connected = true)
    (hawaited : s.agentRun.isSome = true → ∃ call ∈ s.calls, call.phase = .running)
    (messages : List AgentMessage) : (s.runAgentPrompt messages).Attended := by
  unfold Activity.runAgentPrompt
  dsimp only
  split
  next hsome =>
    obtain ⟨call, hmem, hphase⟩ := hawaited hsome
    refine ⟨hconnected, fun _ => ⟨call, by simp [hmem], hphase⟩, fun _ => ?_, fun _ => ?_⟩
    · exact .inl ⟨call, by simp [hmem], by simp [hphase]⟩
    · exact .inl ⟨⟨s.runCounter + 1, .exiting⟩, by simp, rfl⟩
  next =>
    have hnew : (⟨s.runCounter + 1, .running⟩ : RunCall) ∈
        s.calls ++ [⟨s.runCounter + 1, .running⟩] := by simp
    exact ⟨hconnected, fun _ => ⟨_, hnew, rfl⟩, fun _ => .inl ⟨_, hnew, by simp⟩,
      fun _ => .inl ⟨_, hnew, rfl⟩⟩

/-- The calls but the one that goes on are as before. -/
theorem mem_goTo {other : RunCall} (hcall : s.calls[i]? = some call) (phase : CallPhase)
    (hmem : other ∈ s.calls) (hne : other ≠ call) : other ∈ (s.goTo i call phase).calls :=
  mem_set_of_ne hmem hcall hne

theorem willFlush_goTo (hcall : s.calls[i]? = some call) (phase : CallPhase) (h : s.willFlush) :
    (s.goTo i call phase).willFlush := by
  rcases h with ⟨other, hmem, hid⟩ | h
  · by_cases heq : other = call
    · subst heq
      exact .inl ⟨_, mem_set_self hcall _, hid⟩
    · exact .inl ⟨other, mem_goTo hcall phase hmem heq, hid⟩
  · exact .inr h

/-- A call that does not run goes on: nothing is queued, or it stays undecided. -/
theorem Attended.goTo (h : s.Attended) (hcall : s.calls[i]? = some call)
    (hrunning : call.phase ≠ .running) {phase : CallPhase}
    (hphase : s.hasQueuedMessages = true → phase ≠ .exiting) : (s.goTo i call phase).Attended where
  connected := h.connected
  awaited hsome := by
    obtain ⟨other, hmem, hother⟩ := h.awaited hsome
    refine ⟨other, mem_goTo hcall phase hmem ?_, hother⟩
    rintro rfl
    exact hrunning hother
  queued hq := .inl ⟨_, mem_set_self hcall _, hphase hq⟩
  pending hp := willFlush_goTo hcall phase (h.pending hp)

theorem Attended.endRun (h : s.Attended) (run : AgentRun) : (s.endRun run).Attended where
  connected := h.connected
  awaited hsome := by cases hsome
  queued hq := by
    rcases h.queued hq with ⟨call, hmem, hphase⟩ | hprompt
    · refine .inl ⟨_, mem_map_of_mem hmem, ?_⟩
      split
      · simp
      · exact hphase
    · exact .inr hprompt
  pending hp := by
    rcases h.pending hp with ⟨call, hmem, hid⟩ | hprompt
    · refine .inl ⟨_, mem_map_of_mem hmem, ?_⟩
      split <;> exact hid
    · exact .inr hprompt

theorem Attended.handlePostAgentRun (h : s.Attended) (hcall : s.callAt i .handling = some call)
    (recovers : Bool) :
    (s.handlePostAgentRun i call recovers).Attended := by
  obtain ⟨hcall, hphase⟩ := callAt_eq hcall
  refine h.goTo hcall (by simp [hphase]) ?_
  intro hq
  simp [hq]

/-- A queue of which a poll takes nothing is empty. -/
theorem messages_of_drained {queue : PendingMessageQueue} (h : queue.drained = []) :
    queue.messages = [] := by
  unfold PendingMessageQueue.drained PendingMessageQueue.take at h
  cases hmode : queue.mode with
  | all => simpa [hmode] using h
  | oneAtATime =>
    rw [hmode] at h
    cases hmessages : queue.messages with
    | nil => rfl
    | cons message messages => simp [hmessages] at h

/-- A call goes on to run the agent. -/
theorem Attended.restart (h : s.Attended) (hcall : s.calls[i]? = some call)
    (messages : List AgentMessage) (steering followUp : PendingMessageQueue) :
    ({ s with steeringQueue := steering, followUpQueue := followUp }.goTo i call .running
      |>.startRun messages).Attended where
  connected := h.connected
  awaited _ := ⟨_, mem_set_self hcall _, rfl⟩
  queued _ := .inl ⟨_, mem_set_self hcall _, by simp⟩
  pending hp := willFlush_goTo hcall .running (h.pending hp)

theorem Attended.continueRun (h : s.Attended) (hcall : s.callAt i .continuing = some call)
    (endsWithAssistant : Bool) :
    (s.continueRun i call endsWithAssistant).Attended := by
  obtain ⟨hcall, hphase⟩ := callAt_eq hcall
  have hrunning : call.phase ≠ .running := by simp [hphase]
  unfold Activity.continueRun
  split
  next hsome =>
    -- `agent.continue` throws; the call that the agent runs for looks at the queues
    obtain ⟨other, hmem, hother⟩ := h.awaited hsome
    have hne : other ≠ call := by
      rintro rfl
      exact hrunning hother
    have hmem := mem_goTo hcall .exiting hmem hne
    exact ⟨h.connected, fun _ => ⟨other, hmem, hother⟩,
      fun _ => .inl ⟨other, hmem, by simp [hother]⟩,
      fun hp => willFlush_goTo hcall .exiting (h.pending hp)⟩
  next =>
    split
    next => exact h.restart hcall [] s.steeringQueue s.followUpQueue
    next =>
      split
      next => exact h.restart hcall _ s.steeringQueue.rest s.followUpQueue
      next hsteering =>
        split
        next => exact h.restart hcall _ s.steeringQueue s.followUpQueue.rest
        next hfollowUp =>
          refine h.goTo hcall hrunning ?_
          intro hq
          simp [hasQueuedMessages, messages_of_drained (not_not.1 hsteering),
            messages_of_drained (not_not.1 hfollowUp)] at hq

theorem Attended.finish (h : s.Attended) (hcall : s.callAt i .exiting = some call) :
    (s.finish i call).Attended := by
  obtain ⟨hcall, hphase⟩ := callAt_eq hcall
  have hrest : ∀ other ∈ s.calls, other.phase ≠ .exiting → other ∈ s.calls.eraseIdx i := by
    intro other hmem hother
    refine mem_eraseIdx_of_ne hmem hcall ?_
    rintro rfl
    exact hother hphase
  have hawaited : s.agentRun.isSome = true → ∃ other ∈ s.calls.eraseIdx i, other.phase = .running := by
    intro hsome
    obtain ⟨other, hmem, hother⟩ := h.awaited hsome
    exact ⟨other, hrest other hmem (by simp [hother]), hother⟩
  have hserved : s.hasQueuedMessages = true →
      (∃ other ∈ s.calls.eraseIdx i, other.phase ≠ .exiting) ∨ s.HasStartingPrompt := by
    intro hq
    rcases h.queued hq with ⟨other, hmem, hother⟩ | hprompt
    · exact .inl ⟨other, hrest other hmem hother, hother⟩
    · exact .inr hprompt
  unfold Activity.finish
  dsimp only
  split
  next =>
    unfold flushPendingBashMessages
    rw [pushAll_eq]
    exact ⟨h.connected, hawaited, hserved, fun hp => absurd rfl hp⟩
  next hother =>
    refine ⟨h.connected, hawaited, hserved, fun hp => ?_⟩
    rcases h.pending hp with ⟨other, hmem, hid⟩ | hprompt
    · refine .inl ⟨other, mem_eraseIdx_of_ne hmem hcall ?_, hid⟩
      rintro rfl
      exact hother hid
    · exact .inr hprompt

/-! ## Every timely step -/

theorem Attended.sendCustomMessage (h : s.Attended) {message : AgentMessage}
    {deliverAs : Delivery} {triggerTurn : Bool} (hserved : s.isStreaming = true → s.isServed) :
    (s.sendCustomMessage message deliverAs triggerTurn).Attended := by
  unfold Activity.sendCustomMessage
  split
  next hstreaming => exact (h.enqueue (hserved hstreaming) deliverAs message).accept [message]
  next =>
    split
    next => exact attended_runAgentPrompt h.connected h.awaited [message]
    next => exact (h.push message).accept [message]

theorem Attended.recordBashResult (h : s.Attended) {message : AgentMessage}
    (hflush : s.isStreaming = true → s.willFlush) : (s.recordBashResult message).Attended := by
  unfold Activity.recordBashResult
  split
  next hstreaming => exact ⟨h.connected, h.awaited, h.queued, fun _ => hflush hstreaming⟩
  next => exact (h.push message).accept [message]

theorem rest_of_messages {queue : PendingMessageQueue} (h : queue.messages = []) :
    queue.rest.messages = [] := by
  simp [PendingMessageQueue.rest, h]

theorem Attended.poll {run : AgentRun} (h : s.Attended) (hsome : s.agentRun.isSome = true)
    (delivery : Delivery) : (s.poll delivery run).Attended := by
  cases delivery with
  | steer =>
    refine h.keep rfl (fun _ hmem => hmem) rfl id (fun _ => hsome) ?_ id
    intro hq
    by_contra hnone
    simp only [hasQueuedMessages, Bool.or_eq_true, Bool.not_eq_true', isEmpty_eq_false_iff,
      not_or, not_not] at hnone
    simp [hasQueuedMessages, Activity.poll, rest_of_messages hnone.1, hnone.2] at hq
  | followUp =>
    refine h.keep rfl (fun _ hmem => hmem) rfl id (fun _ => hsome) ?_ id
    intro hq
    by_contra hnone
    simp only [hasQueuedMessages, Bool.or_eq_true, Bool.not_eq_true', isEmpty_eq_false_iff,
      not_or, not_not] at hnone
    simp [hasQueuedMessages, Activity.poll, rest_of_messages hnone.2, hnone.1] at hq

/-- **Every timely step keeps what waits attended to.** -/
theorem step_attended {event : Event} (h : s.Attended) (hG : s.IsTimely event)
    (hstep : s.step event = some t) : t.Attended := by
  cases event with
  | prompt message isCommand streamingBehavior starts =>
    cases hstep
    refine h.keep rfl (fun _ hmem => hmem) rfl ?_ id id id
    rintro ⟨call, hmem, hcall⟩
    exact ⟨call, mem_append_left _ hmem, hcall⟩
  | commandDone i handled =>
    obtain ⟨call, hcall, hstep⟩ := bind_eq_some_iff.1 hstep
    split at hstep
    · exact h.endPrompt (promptAt_eq hcall) hstep
    · cases hstep
      exact h.moveTo (promptAt_eq hcall) .input
  | intercepted | refused =>
    obtain ⟨call, hcall, hstep⟩ := bind_eq_some_iff.1 hstep
    exact h.endPrompt (promptAt_eq hcall) hstep
  | decided i =>
    obtain ⟨call, hcall, hstep⟩ := bind_eq_some_iff.1 hstep
    exact h.decide (promptAt_eq hcall) (hG call hcall) hstep
  | ready i others =>
    obtain ⟨call, hcall, hstep⟩ := bind_eq_some_iff.1 hstep
    split at hstep
    · cases hstep
      exact @attended_runAgentPrompt (s.releasePreflight i) h.connected h.awaited _
    · cases hstep
  | sendCustomMessage message deliverAs triggerTurn =>
    cases hstep
    exact h.sendCustomMessage hG
  | recordBashResult message =>
    cases hstep
    exact h.recordBashResult hG
  | poll delivery =>
    obtain ⟨run, hrun, hstep⟩ := bind_eq_some_iff.1 hstep
    split at hstep
    · cases hstep
      exact h.poll (by simp [(runAtRest_eq hrun).1]) delivery
    · cases hstep
  | announced =>
    obtain ⟨run, hrun, hstep⟩ := bind_eq_some_iff.1 hstep
    have hsome : s.agentRun.isSome = true := by simp [(runAtRest_eq hrun).1]
    split at hstep
    · cases hstep
    · cases hstep
      exact h.keep rfl (fun _ hmem => hmem) rfl id (fun _ => hsome) id id
  | responded message =>
    obtain ⟨run, hrun, hstep⟩ := bind_eq_some_iff.1 hstep
    have hsome : s.agentRun.isSome = true := by simp [(runAtRest_eq hrun).1]
    split at hstep
    · cases hstep
      exact h.keep rfl (fun _ hmem => hmem) rfl id (fun _ => hsome) id id
    · cases hstep
  | persisted =>
    obtain ⟨run, hrun, hstep⟩ := bind_eq_some_iff.1 hstep
    obtain ⟨message, -, hstep⟩ := bind_eq_some_iff.1 hstep
    cases hstep
    exact h.keep rfl (fun _ hmem => hmem) rfl id (fun _ => by simp [hrun]) id id
  | runEnded =>
    obtain ⟨run, hrun, hstep⟩ := bind_eq_some_iff.1 hstep
    split at hstep
    · cases hstep
      exact h.endRun run
    · cases hstep
  | handled i recovers =>
    obtain ⟨call, hcall, hstep⟩ := bind_eq_some_iff.1 hstep
    cases hstep
    exact h.handlePostAgentRun hcall recovers
  | continued i endsWithAssistant =>
    obtain ⟨call, hcall, hstep⟩ := bind_eq_some_iff.1 hstep
    cases hstep
    exact h.continueRun hcall endsWithAssistant
  | finished i =>
    obtain ⟨call, hcall, hstep⟩ := bind_eq_some_iff.1 hstep
    cases hstep
    exact h.finish hcall
  | reviewed =>
    rw [Activity.step] at hstep
    split at hstep
    · cases hstep
      exact h.keep rfl (fun _ hmem => hmem) rfl id id id id
    · cases hstep
  | entryAppended =>
    cases hstep
    exact h.keep rfl (fun _ hmem => hmem) rfl id id id id
  | compact | compacted | navigateTree | navigated => exact hG.elim

end BeauPi.AgentSession.Activity
