import BeauPi.AgentSession.Attended

/-!
# What a step does to the run and to the session

Apart from changes of the context, a step appends entries to the session, or it starts a run, goes
on with it, persists one of its messages or ends it.

* `Typed` — nothing that waits to be announced is the result of a tool.
* `Change` — the ways in which a step changes the run and the session.
* `step_change` — **every step that is no change of the context is one of these.**
-/

namespace BeauPi.AgentSession.Activity

open Llm Sessions AgentLoop Machine List
open Option (bind_eq_some_iff)

/-! ## Messages that callers hand in -/

/-- A message that a caller can hand in: it is not the result of a tool. -/
def isPlain : AgentMessage → Bool
  | .toolResult _ => false
  | _ => true

/-- The messages of an event have the roles that their types give them. -/
def Event.IsTyped : Event → Prop
  | .prompt message _ _ _ | .sendCustomMessage message _ _ | .recordBashResult message =>
    isPlain message = true
  | .ready _ others => ∀ message ∈ others, isPlain message = true
  | _ => True

instance (event : Event) : Decidable event.IsTyped := by
  refine @Event.casesOn (fun event => Decidable event.IsTyped) event ?_ ?_ ?_ ?_ ?_ ?_ ?_ ?_ ?_ ?_ ?_
    ?_ ?_ ?_ ?_ ?_ ?_ ?_ ?_ ?_ ?_ ?_ <;> intros <;> unfold Event.IsTyped <;> infer_instance

/-- Nothing that waits is the result of a tool. -/
structure Typed (s : Activity) : Prop where
  prompts : ∀ call ∈ s.prompts, isPlain call.message = true
  steering : ∀ message ∈ s.steeringQueue.messages, isPlain message = true
  followUp : ∀ message ∈ s.followUpQueue.messages, isPlain message = true
  pending : ∀ message ∈ s.pendingBashMessages, isPlain message = true
  waiting : ∀ run ∈ s.agentRun, ∀ message ∈ run.waiting, isPlain message = true

/-- The agent runs only for a call of `_runAgentPrompt`. -/
def Awaited (s : Activity) : Prop :=
  s.agentRun.isSome = true → ∃ call ∈ s.calls, call.phase = .running

/-- What no step but a change of the context touches. -/
structure Keeps (s t : Activity) : Prop where
  surgeries : t.surgeries = s.surgeries
  connected : t.connected = s.connected
  typed : s.Typed → t.Typed

/-- Values are appended one after the other. -/
def appendAll (tree : EntryTree) (values : List (Option AgentMessage)) : EntryTree :=
  values.foldl BranchTree.append tree

/-- The ways in which a step changes the run and the session. -/
inductive Change (s t : Activity) : Prop
  | appended (values : List (Option AgentMessage))
      (plain : ∀ message, some message ∈ values → isPlain message = true)
      (session : t.session = appendAll s.session values) (run : t.agentRun = s.agentRun)
      (runs : t.runs = s.runs) (awaited : t.Awaited) (quiet : s.calls = [] → t.calls = [])
  | started (messages : List AgentMessage) (session : t.session = s.session)
      (idle : s.agentRun = none) (run : t.agentRun = some ⟨messages, none, [], []⟩)
      (runs : t.runs = s.runs) (awaited : t.Awaited) (quiet : s.calls = [] → s.surgeries = [])
  | moved (run run' : AgentRun) (session : t.session = s.session) (before : s.agentRun = some run)
      (after : t.agentRun = some run') (persisting : run'.persisting = run.persisting)
      (ended : run'.ended = run.ended) (persisted : run'.persisted = run.persisted)
      (runs : t.runs = s.runs) (calls : t.calls = s.calls)
  | ended (run run' : AgentRun) (message : AgentMessage) (session : t.session = s.session)
      (before : s.agentRun = some run) (rest : run.persisting = none)
      (after : t.agentRun = some run')
      (persisting : run'.persisting = if s.connected then some message else none)
      (ended : run'.ended = run.ended ++ [message]) (persisted : run'.persisted = run.persisted)
      (allowed : s.Typed → isPlain message = true ∨ isResponse run message = true)
      (runs : t.runs = s.runs) (calls : t.calls = s.calls)
  | persisted (run : AgentRun) (message : AgentMessage) (before : s.agentRun = some run)
      (persisting : run.persisting = some message)
      (after : t = s.persist run message)
  | runEnded (run : AgentRun) (session : t.session = s.session) (before : s.agentRun = some run)
      (rest : run.persisting = none) (after : t.agentRun = none) (runs : t.runs = s.runs ++ [run])
      (quiet : s.calls = [] → t.calls = [])

variable {s t : Activity} {i : Nat}

/-! ## Steps that start no run -/

/-- Nothing but prompts, counters and entries changes. -/
theorem Change.entries (hawaited : s.Awaited) (values : List (Option AgentMessage))
    (hplain : ∀ message, some message ∈ values → isPlain message = true)
    (hsession : t.session = appendAll s.session values) (hrun : t.agentRun = s.agentRun)
    (hruns : t.runs = s.runs) (hcalls : t.calls = s.calls) : s.Change t :=
  .appended values hplain hsession hrun hruns
    (fun hsome => by rw [hcalls]; exact hawaited (hrun ▸ hsome))
    fun hquiet => hcalls.trans hquiet

/-- The run, the session and the calls are as before. -/
theorem Change.same (hawaited : s.Awaited) (hsession : t.session = s.session)
    (hrun : t.agentRun = s.agentRun) (hruns : t.runs = s.runs) (hcalls : t.calls = s.calls) :
    s.Change t :=
  .entries hawaited [] (by simp) hsession hrun hruns hcalls

variable {u : Activity}

theorem Keeps.trans (h : s.Keeps t) (h' : t.Keeps u) : s.Keeps u :=
  ⟨h'.surgeries.trans h.surgeries, h'.connected.trans h.connected, fun hs => h'.typed (h.typed hs)⟩

theorem keeps_releasePreflight : s.Keeps (s.releasePreflight i) :=
  ⟨rfl, rfl, fun h => ⟨fun call hmem => h.prompts call (mem_of_mem_eraseIdx hmem), h.steering,
    h.followUp, h.pending, h.waiting⟩⟩

variable {call : PromptCall}

theorem keeps_moveTo (hcall : s.prompts[i]? = some call) (stage : PromptStage) :
    s.Keeps (s.moveTo i call stage) := by
  refine ⟨rfl, rfl, fun h => ⟨fun other hmem => ?_, h.steering, h.followUp, h.pending, h.waiting⟩⟩
  rcases mem_or_eq_of_mem_set hmem with hmem | rfl
  · exact h.prompts other hmem
  · exact h.prompts call (mem_of_getElem? hcall)

variable {message : AgentMessage}

theorem keeps_enqueue (hplain : s.Typed → isPlain message = true) (delivery : Delivery) :
    s.Keeps ((s.enqueue delivery message).accept [message]) := by
  cases delivery with
  | steer =>
    refine ⟨rfl, rfl, fun h => ⟨h.prompts, fun other hmem => ?_, h.followUp, h.pending, h.waiting⟩⟩
    rcases List.mem_append.1 hmem with hmem | hmem
    · exact h.steering other hmem
    · rw [List.mem_singleton.1 hmem]
      exact hplain h
  | followUp =>
    refine ⟨rfl, rfl, fun h => ⟨h.prompts, h.steering, fun other hmem => ?_, h.pending, h.waiting⟩⟩
    rcases List.mem_append.1 hmem with hmem | hmem
    · exact h.followUp other hmem
    · rw [List.mem_singleton.1 hmem]
      exact hplain h

theorem keeps_flush : s.Keeps s.flushPendingBashMessages := by
  unfold flushPendingBashMessages
  rw [pushAll_eq]
  exact ⟨rfl, rfl, fun h => ⟨h.prompts, h.steering, h.followUp, by simp, h.waiting⟩⟩

theorem appendAll_map (messages : List AgentMessage) : ∀ tree : EntryTree,
    messages.foldl (fun tree message => tree.append (some message)) tree =
      appendAll tree (messages.map some) := by
  intro tree
  rw [appendAll, foldl_map]

/-- The results of bash commands are appended. -/
theorem flush_session : s.flushPendingBashMessages.session =
    appendAll s.session (s.pendingBashMessages.map some) := by
  unfold flushPendingBashMessages
  rw [pushAll_eq]
  exact appendAll_map _ _

theorem plain_pending (h : s.Typed) (message : AgentMessage)
    (hmem : some message ∈ s.pendingBashMessages.map some) : isPlain message = true := by
  obtain ⟨other, hother, heq⟩ := List.mem_map.1 hmem
  rw [← Option.some.inj heq]
  exact h.pending other hother

theorem change_endPrompt (hawaited : s.Awaited) (h : s.endPrompt i call = some t) :
    s.Keeps t ∧ s.Change t := by
  obtain ⟨-, rfl⟩ := endPrompt_eq h
  exact ⟨keeps_releasePreflight, .same hawaited rfl rfl rfl rfl⟩

theorem change_decide (htyped : s.Typed) (hawaited : s.Awaited) (hcall : s.prompts[i]? = some call)
    (h : s.decide i call = some t) :
    s.Keeps t ∧ s.Change t := by
  unfold Activity.decide at h
  split at h
  next =>
    split at h
    next => exact change_endPrompt hawaited h
    next delivery _ =>
      obtain ⟨-, rfl⟩ := endPrompt_eq h
      have hplain : s.Typed → isPlain call.message = true :=
        fun hs => hs.prompts call (mem_of_getElem? hcall)
      refine ⟨(keeps_enqueue hplain delivery).trans keeps_releasePreflight, ?_⟩
      cases delivery <;> exact .same hawaited rfl rfl rfl rfl
  next =>
    cases h
    refine ⟨keeps_flush.trans (keeps_moveTo ?_ .preparing), ?_⟩
    · unfold flushPendingBashMessages
      rw [pushAll_eq]
      exact hcall
    · refine .entries hawaited _ (plain_pending htyped) flush_session ?_ ?_ ?_
      all_goals
        unfold flushPendingBashMessages
        rw [pushAll_eq]
        rfl

/-! ## Steps that start a run -/

variable {messages : List AgentMessage}

theorem keeps_runAgentPrompt (hplain : ∀ message ∈ messages, isPlain message = true) :
    s.Keeps (s.runAgentPrompt messages) := by
  unfold Activity.runAgentPrompt
  dsimp only
  split
  next => exact ⟨rfl, rfl, fun h => ⟨h.prompts, h.steering, h.followUp, h.pending, h.waiting⟩⟩
  next =>
    refine ⟨rfl, rfl, fun h => ⟨h.prompts, h.steering, h.followUp, h.pending, ?_⟩⟩
    intro run hrun message hmem
    cases hrun
    exact hplain message hmem

/-- A run is started from a state that differs in the prompts only. -/
theorem change_runAgentPrompt (hsession : u.session = s.session) (hrun : u.agentRun = s.agentRun)
    (hruns : u.runs = s.runs) (hcalls : u.calls = s.calls) (hawaited : s.Awaited)
    (hfree : s.surgeries = []) (messages : List AgentMessage) :
    s.Change (u.runAgentPrompt messages) := by
  unfold Activity.runAgentPrompt
  dsimp only
  split
  next hsome =>
    obtain ⟨call, hmem, hphase⟩ := hawaited (hrun ▸ hsome)
    refine .appended [] (by simp) hsession hrun hruns
      (fun _ => ⟨call, by simp [hcalls, hmem], hphase⟩) ?_
    intro hquiet
    rw [hquiet] at hmem
    cases hmem
  next hnone =>
    have hidle : s.agentRun = none := by
      rw [← hrun]
      simpa using hnone
    exact .started messages hsession hidle rfl hruns
      (fun _ => ⟨⟨u.runCounter + 1, .running⟩, by simp [Activity.startRun, Activity.accept], rfl⟩)
      fun _ => hfree

theorem change_sendCustomMessage {deliverAs : Delivery} {triggerTurn : Bool} (hawaited : s.Awaited)
    (hplain : isPlain message = true)
    (hfree : s.isStreaming = false → triggerTurn = true → s.surgeries = []) :
    s.Keeps (s.sendCustomMessage message deliverAs triggerTurn) ∧
      s.Change (s.sendCustomMessage message deliverAs triggerTurn) := by
  unfold Activity.sendCustomMessage
  split
  next =>
    refine ⟨keeps_enqueue (fun _ => hplain) deliverAs, ?_⟩
    cases deliverAs <;> exact .same hawaited rfl rfl rfl rfl
  next hstreaming =>
    split
    next htrigger =>
      refine ⟨keeps_runAgentPrompt (by simpa using hplain), ?_⟩
      exact change_runAgentPrompt rfl rfl rfl rfl hawaited
        (hfree (by simpa using hstreaming) htrigger) [message]
    next =>
      refine ⟨⟨rfl, rfl, fun h => ⟨h.prompts, h.steering, h.followUp, h.pending, h.waiting⟩⟩, ?_⟩
      exact .entries hawaited [some message] (by simpa using hplain) rfl rfl rfl rfl

theorem change_recordBashResult (hawaited : s.Awaited) (hplain : isPlain message = true) :
    s.Keeps (s.recordBashResult message) ∧ s.Change (s.recordBashResult message) := by
  unfold Activity.recordBashResult
  split
  next =>
    refine ⟨⟨rfl, rfl, fun h => ⟨h.prompts, h.steering, h.followUp, fun other hmem => ?_,
      h.waiting⟩⟩, .same hawaited rfl rfl rfl rfl⟩
    rcases List.mem_append.1 hmem with hmem | hmem
    · exact h.pending other hmem
    · rw [List.mem_singleton.1 hmem]
      exact hplain
  next =>
    refine ⟨⟨rfl, rfl, fun h => ⟨h.prompts, h.steering, h.followUp, h.pending, h.waiting⟩⟩, ?_⟩
    exact .entries hawaited [some message] (by simpa using hplain) rfl rfl rfl rfl

/-! ## Steps of the run -/

variable {queue : PendingMessageQueue}

theorem mem_drained (h : message ∈ queue.drained) :
    message ∈ queue.messages :=
  mem_of_mem_take h

theorem mem_rest (h : message ∈ queue.rest.messages) :
    message ∈ queue.messages :=
  mem_of_mem_drop h

variable {run : AgentRun}

theorem change_poll (hrun : s.agentRun = some run) (delivery : Delivery) :
    s.Keeps (s.poll delivery run) ∧ s.Change (s.poll delivery run) := by
  cases delivery with
  | steer =>
    refine ⟨⟨rfl, rfl, fun h => ⟨h.prompts, fun message hmem => h.steering message (mem_rest hmem),
      h.followUp, h.pending, ?_⟩⟩, .moved run _ rfl hrun rfl rfl rfl rfl rfl rfl⟩
    intro run' hrun' message hmem
    cases hrun'
    exact h.steering message (mem_drained hmem)
  | followUp =>
    refine ⟨⟨rfl, rfl, fun h => ⟨h.prompts, h.steering,
      fun message hmem => h.followUp message (mem_rest hmem), h.pending, ?_⟩⟩,
      .moved run _ rfl hrun rfl rfl rfl rfl rfl rfl⟩
    intro run' hrun' message hmem
    cases hrun'
    exact h.followUp message (mem_drained hmem)

/-- A message of the run ends: one that waited, or a response. -/
theorem change_endMessage {waiting : List AgentMessage} (hrun : s.agentRun = some run)
    (hrest : run.persisting = none) (hwaiting : ∀ other ∈ waiting, other ∈ run.waiting)
    (hallowed : s.Typed → isPlain message = true ∨ isResponse run message = true) :
    s.Keeps (s.endMessage { run with waiting := waiting } message) ∧
      s.Change (s.endMessage { run with waiting := waiting } message) := by
  refine ⟨⟨rfl, rfl, fun h => ⟨h.prompts, h.steering, h.followUp, h.pending, ?_⟩⟩, ?_⟩
  · intro run' hrun' other hmem
    cases hrun'
    exact h.waiting run hrun other (hwaiting other hmem)
  · exact .ended run _ message rfl hrun hrest rfl rfl rfl rfl hallowed rfl rfl

theorem change_endRun (hrun : s.agentRun = some run) (hrest : run.persisting = none) :
    s.Keeps (s.endRun run) ∧ s.Change (s.endRun run) := by
  refine ⟨⟨rfl, rfl, fun h => ⟨h.prompts, h.steering, h.followUp, h.pending, ?_⟩⟩, ?_⟩
  · intro run' hrun'
    cases hrun'
  · refine .runEnded run rfl hrun hrest rfl rfl fun hquiet => ?_
    simp [Activity.endRun, hquiet]

variable {call : RunCall}

/-- A call that does not run goes on; the agent still runs for the other one. -/
theorem change_goTo (hawaited : s.Awaited) (hcall : s.calls[i]? = some call)
    (hrunning : call.phase ≠ .running) (phase : CallPhase) :
    s.Keeps (s.goTo i call phase) ∧ s.Change (s.goTo i call phase) := by
  refine ⟨⟨rfl, rfl, fun h => ⟨h.prompts, h.steering, h.followUp, h.pending, h.waiting⟩⟩, ?_⟩
  refine .appended [] (by simp) rfl rfl rfl (fun hsome => ?_) fun hquiet => ?_
  · obtain ⟨other, hmem, hother⟩ := hawaited hsome
    refine ⟨other, mem_goTo hcall phase hmem ?_, hother⟩
    rintro rfl
    exact hrunning hother
  · rw [hquiet] at hcall
    cases hcall

/-- A call goes on to run the agent. -/
theorem change_restart (hcall : s.calls[i]? = some call) (hidle : s.agentRun = none)
    {steering followUp : PendingMessageQueue}
    (hsteering : ∀ message ∈ steering.messages, message ∈ s.steeringQueue.messages)
    (hfollowUp : ∀ message ∈ followUp.messages, message ∈ s.followUpQueue.messages)
    (hmessages : ∀ message ∈ messages, message ∈ s.steeringQueue.messages ∨ message ∈
      s.followUpQueue.messages) :
    s.Keeps ({ s with steeringQueue := steering, followUpQueue := followUp }.goTo i call .running
        |>.startRun messages) ∧
      s.Change ({ s with steeringQueue := steering, followUpQueue := followUp }.goTo i call .running
        |>.startRun messages) := by
  refine ⟨⟨rfl, rfl, fun h => ⟨h.prompts, fun message hmem => h.steering message (hsteering _ hmem),
    fun message hmem => h.followUp message (hfollowUp _ hmem), h.pending, ?_⟩⟩, ?_⟩
  · intro run hrun message hmem
    cases hrun
    rcases hmessages message hmem with hmem | hmem
    · exact h.steering message hmem
    · exact h.followUp message hmem
  · refine .started messages rfl hidle rfl rfl (fun _ => ⟨_, mem_set_self hcall _, rfl⟩) ?_
    intro hquiet
    rw [hquiet] at hcall
    cases hcall

theorem change_continueRun (hawaited : s.Awaited) (hcall : s.callAt i .continuing = some call)
    (endsWithAssistant : Bool) :
    s.Keeps (s.continueRun i call endsWithAssistant) ∧
      s.Change (s.continueRun i call endsWithAssistant) := by
  obtain ⟨hcall, hphase⟩ := callAt_eq hcall
  have hrunning : call.phase ≠ .running := by simp [hphase]
  unfold Activity.continueRun
  split
  next => exact change_goTo hawaited hcall hrunning .exiting
  next hnone =>
    have hidle : s.agentRun = none := by simpa using hnone
    split
    next => exact change_restart hcall hidle (fun _ h => h) (fun _ h => h) (by simp)
    next =>
      split
      next =>
        exact change_restart hcall hidle (fun _ => mem_rest) (fun _ h => h)
          fun _ h => .inl (mem_drained h)
      next =>
        split
        next =>
          exact change_restart hcall hidle (fun _ h => h) (fun _ => mem_rest)
            fun _ h => .inr (mem_drained h)
        next => exact change_goTo hawaited hcall hrunning .exiting

theorem change_finish (htyped : s.Typed) (hawaited : s.Awaited)
    (hcall : s.callAt i .exiting = some call) :
    s.Keeps (s.finish i call) ∧ s.Change (s.finish i call) := by
  obtain ⟨hcall, hphase⟩ := callAt_eq hcall
  have hstill : s.agentRun.isSome = true →
      ∃ other ∈ s.calls.eraseIdx i, other.phase = .running := by
    intro hsome
    obtain ⟨other, hmem, hother⟩ := hawaited hsome
    refine ⟨other, mem_eraseIdx_of_ne hmem hcall ?_, hother⟩
    rintro rfl
    rw [hother] at hphase
    cases hphase
  have hquiet : s.calls = [] → s.calls.eraseIdx i = [] := by
    intro hquiet
    rw [hquiet] at hcall
    cases hcall
  unfold Activity.finish
  dsimp only
  split
  next =>
    unfold flushPendingBashMessages
    rw [pushAll_eq]
    refine ⟨⟨rfl, rfl, fun h => ⟨h.prompts, h.steering, h.followUp, by simp, h.waiting⟩⟩, ?_⟩
    exact .appended _ (plain_pending htyped) (appendAll_map _ _) rfl rfl hstill hquiet
  next =>
    refine ⟨⟨rfl, rfl, fun h => ⟨h.prompts, h.steering, h.followUp, h.pending, h.waiting⟩⟩, ?_⟩
    exact .appended [] (by simp) rfl rfl rfl hstill hquiet

/-! ## Every step -/

/-- A step that changes the context. -/
def Event.IsSurgery : Event → Prop
  | .compact | .compacted _ _ | .navigateTree | .navigated _ _ _ => True
  | _ => False

/-- A run is started only while the context is not being changed, and the context is changed only
while no call of `_runAgentPrompt` is in progress. -/
def IsExclusive (s : Activity) : Event → Prop
  | .compact | .navigateTree => s.calls = []
  | .ready _ _ => s.surgeries = []
  | .sendCustomMessage _ _ triggerTurn =>
    s.isStreaming = false → triggerTurn = true → s.surgeries = []
  | _ => True

instance (s : Activity) (event : Event) : Decidable (s.IsExclusive event) := by
  refine @Event.casesOn (fun event => Decidable (s.IsExclusive event)) event ?_ ?_ ?_ ?_ ?_ ?_ ?_ ?_
    ?_ ?_ ?_ ?_ ?_ ?_ ?_ ?_ ?_ ?_ ?_ ?_ ?_ ?_ <;> intros <;> unfold IsExclusive <;> infer_instance

/-- **Every step that is no change of the context is one of these.** -/
theorem step_change {event : Event} (htyped : s.Typed) (hawaited : s.Awaited)
    (hevent : event.IsTyped) (hG : s.IsExclusive event) (hno : ¬ event.IsSurgery)
    (hstep : s.step event = some t) : s.Keeps t ∧ s.Change t := by
  cases event with
  | prompt message isCommand streamingBehavior starts =>
    cases hstep
    refine ⟨⟨rfl, rfl, fun h => ⟨fun call hmem => ?_, h.steering, h.followUp, h.pending,
      h.waiting⟩⟩, .same hawaited rfl rfl rfl rfl⟩
    rcases List.mem_append.1 hmem with hmem | hmem
    · exact h.prompts call hmem
    · rw [List.mem_singleton.1 hmem]
      exact hevent
  | commandDone i handled =>
    obtain ⟨call, hcall, hstep⟩ := bind_eq_some_iff.1 hstep
    split at hstep
    · exact change_endPrompt hawaited hstep
    · cases hstep
      exact ⟨keeps_moveTo (promptAt_eq hcall) .input, .same hawaited rfl rfl rfl rfl⟩
  | intercepted | refused =>
    obtain ⟨call, -, hstep⟩ := bind_eq_some_iff.1 hstep
    exact change_endPrompt hawaited hstep
  | decided i =>
    obtain ⟨call, hcall, hstep⟩ := bind_eq_some_iff.1 hstep
    exact change_decide htyped hawaited (promptAt_eq hcall) hstep
  | ready i others =>
    obtain ⟨call, hcall, hstep⟩ := bind_eq_some_iff.1 hstep
    split at hstep
    · cases hstep
      have hplain : ∀ message ∈ call.message :: others, isPlain message = true := by
        intro message hmem
        rcases List.mem_cons.1 hmem with rfl | hmem
        · exact htyped.prompts call (mem_of_getElem? (promptAt_eq hcall))
        · exact hevent message hmem
      exact ⟨keeps_releasePreflight.trans (keeps_runAgentPrompt hplain),
        @change_runAgentPrompt s (s.releasePreflight i) rfl rfl rfl rfl hawaited hG _⟩
    · cases hstep
  | sendCustomMessage message deliverAs triggerTurn =>
    cases hstep
    exact change_sendCustomMessage hawaited hevent hG
  | recordBashResult message =>
    cases hstep
    exact change_recordBashResult hawaited hevent
  | poll delivery =>
    obtain ⟨run, hrun, hstep⟩ := bind_eq_some_iff.1 hstep
    split at hstep
    · cases hstep
      exact change_poll (runAtRest_eq hrun).1 delivery
    · cases hstep
  | announced =>
    obtain ⟨run, hrun, hstep⟩ := bind_eq_some_iff.1 hstep
    obtain ⟨hrun, hrest⟩ := runAtRest_eq hrun
    split at hstep
    next => cases hstep
    next message waiting hwaiting =>
      cases hstep
      refine change_endMessage hrun hrest (fun other hmem => by simp [hwaiting, hmem]) fun h => ?_
      exact .inl (h.waiting run hrun message (by simp [hwaiting]))
  | responded message =>
    obtain ⟨run, hrun, hstep⟩ := bind_eq_some_iff.1 hstep
    obtain ⟨hrun, hrest⟩ := runAtRest_eq hrun
    split at hstep
    next hresponse =>
      cases hstep
      exact change_endMessage hrun hrest (fun _ hmem => hmem) fun _ => .inr hresponse.2
    next => cases hstep
  | persisted =>
    obtain ⟨run, hrun, hstep⟩ := bind_eq_some_iff.1 hstep
    obtain ⟨message, hpersisting, hstep⟩ := bind_eq_some_iff.1 hstep
    cases hstep
    refine ⟨⟨rfl, rfl, fun h => ⟨h.prompts, h.steering, h.followUp, h.pending, ?_⟩⟩,
      .persisted run message hrun hpersisting rfl⟩
    intro run' hrun' other hmem
    cases hrun'
    exact h.waiting run hrun other hmem
  | runEnded =>
    obtain ⟨run, hrun, hstep⟩ := bind_eq_some_iff.1 hstep
    obtain ⟨hrun, hrest⟩ := runAtRest_eq hrun
    split at hstep
    · cases hstep
      exact change_endRun hrun hrest
    · cases hstep
  | handled i recovers =>
    obtain ⟨call, hcall, hstep⟩ := bind_eq_some_iff.1 hstep
    cases hstep
    obtain ⟨hcall, hphase⟩ := callAt_eq hcall
    exact change_goTo hawaited hcall (by simp [hphase]) _
  | continued i endsWithAssistant =>
    obtain ⟨call, hcall, hstep⟩ := bind_eq_some_iff.1 hstep
    cases hstep
    exact change_continueRun hawaited hcall endsWithAssistant
  | finished i =>
    obtain ⟨call, hcall, hstep⟩ := bind_eq_some_iff.1 hstep
    cases hstep
    exact change_finish htyped hawaited hcall
  | reviewed =>
    rw [Activity.step] at hstep
    split at hstep
    · cases hstep
      exact ⟨⟨rfl, rfl, fun h => ⟨h.prompts, h.steering, h.followUp, h.pending, h.waiting⟩⟩,
        .same hawaited rfl rfl rfl rfl⟩
    · cases hstep
  | entryAppended =>
    cases hstep
    exact ⟨⟨rfl, rfl, fun h => ⟨h.prompts, h.steering, h.followUp, h.pending, h.waiting⟩⟩,
      .entries hawaited [none] (by simp) rfl rfl rfl rfl⟩
  | compact | compacted | navigateTree | navigated => exact absurd trivial hno

end BeauPi.AgentSession.Activity
