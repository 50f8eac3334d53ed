import BeauPi.Js.Text
import BeauPi.Machine.OrderedMap
import BeauPi.Machine.Runs

/-!
# Messages to delegated agents

A message to an agent waits until its child session exists.  Then the waiting messages are
delivered one after the other; the delegation awaits each delivery, and other calls run in between.

* `sendAgentMessage`, `flush` — accepting a message and delivering the waiting ones.
* `messageStep` — one turn of the event loop.
* `ReceivesInOrder` — the messages of each mode reach the child in the order of their acceptance,
  once.
* `messages_in_order` — they do in runs in which no message overtakes a waiting one and none of
  the waiting ones is refused.
* `messages_once` — in any order, none is delivered twice, and none lost but behind a refused one.
-/

namespace BeauPi.Agents

open Machine List
open Option (some.inj some.injEq)

/-! ## The child session -/

/-- `PendingAgentMessage["mode"]` -/
inductive MessageMode
  | steer
  | followUp
  deriving DecidableEq, Repr

/-- `PendingAgentMessage` -/
structure PendingAgentMessage where
  mode : MessageMode
  message : String
  deriving DecidableEq, Repr

/-- What the session knows of extensions, skills and templates. -/
structure ChildHost where
  /-- `_extensionRunner.getCommand(name) !== undefined` -/
  hasCommand : String → Bool
  /-- `_expandSkillCommand` and `expandPromptTemplate` -/
  expand : String → String

/-- `AgentSession`: its two queues. -/
structure ChildSession where
  steeringMessages : List String
  followUpMessages : List String
  deriving DecidableEq, Repr

def ChildSession.new : ChildSession := ⟨[], []⟩

/-- The queue of a mode. -/
def ChildSession.received (child : ChildSession) : MessageMode → List String
  | .steer => child.steeringMessages
  | .followUp => child.followUpMessages

/-- `_throwIfExtensionCommand`: is the text refused? -/
def ChildHost.refuses (host : ChildHost) (text : String) : Bool :=
  match text.toList with
  | '/' :: rest => host.hasCommand (String.ofList (rest.takeWhile (· ≠ ' ')))
  | _ => false

/-- `_queueSteer` and `_queueFollowUp` -/
def ChildSession.queue (child : ChildSession) (text : String) : MessageMode → ChildSession
  | .steer => { child with steeringMessages := child.steeringMessages ++ [text] }
  | .followUp => { child with followUpMessages := child.followUpMessages ++ [text] }

/-- `steer` and `followUp`; `none` where they throw. -/
def ChildSession.deliver (host : ChildHost) (child : ChildSession) (mode : MessageMode)
    (text : String) : Option ChildSession :=
  if host.refuses text then none else some (child.queue (host.expand text) mode)

/-! ## Delegated tasks -/

/-- How far `delegateTask` is; a child exists from the flush on. -/
inductive TaskState
  /-- Before `createSession` has resolved. -/
  | creating (pendingMessages : List PendingAgentMessage)
  /-- A delivery is awaited, with what the loop has still to deliver. -/
  | flushing (child : ChildSession) (rest : List PendingAgentMessage)
  /-- A delivery has thrown, and the error is on its way. -/
  | failed (child : ChildSession)
  /-- Behind the flush. -/
  | running (child : ChildSession)
  /-- No longer in `activeTasks`. -/
  | ended (child : Option ChildSession)
  deriving DecidableEq, Repr

/-- `activeTask.child`, also of a task that has ended. -/
def TaskState.child? : TaskState → Option ChildSession
  | .creating _ => none
  | .flushing child _ | .failed child | .running child => some child
  | .ended child => child

/-- What the flush has still to deliver. -/
def TaskState.backlog : TaskState → List PendingAgentMessage
  | .flushing _ rest => rest
  | _ => []

/-- The loop over the pending messages, up to its next `await`. -/
def flush (host : ChildHost) (child : ChildSession) : List PendingAgentMessage → TaskState
  | [] => .running child
  | pending :: rest =>
    match child.deliver host pending.mode pending.message with
    | some child => .flushing child rest
    | none => .failed child

/-- `activeTasks.has(agentId)` -/
def TaskState.isActive : TaskState → Bool
  | .ended _ => false
  | _ => true

/-- `pendingMessages.push` -/
def TaskState.push (message : PendingAgentMessage) : TaskState → TaskState
  | .creating pending => .creating (pending ++ [message])
  | task => task

/-- The task after its child has taken a message. -/
def TaskState.withChild (child : ChildSession) : TaskState → TaskState
  | .flushing _ rest => .flushing child rest
  | .failed _ => .failed child
  | .running _ => .running child
  | task => task

/-- `sendAgentMessage`: the task and what the call returns, `none` where it throws. -/
def sendAgentMessage (host : ChildHost) (mode : MessageMode) (message : String)
    (task : TaskState) : TaskState × Option Bool :=
  if task.isActive = false ∨ Js.trim message = "" then (task, some false)
  else
    match task.child? with
    | none => (task.push ⟨mode, Js.trim message⟩, some true)
    | some child =>
      match child.deliver host mode (Js.trim message) with
      | none => (task, none)
      | some child => (task.withChild child, some true)

/-- A task, with the messages that were accepted for it. -/
structure DelegatedTask where
  state : TaskState
  accepted : List PendingAgentMessage
  deriving DecidableEq, Repr

/-- A call of `sendAgentMessage`. -/
def DelegatedTask.send (host : ChildHost) (mode : MessageMode) (message : String)
    (task : DelegatedTask) : DelegatedTask :=
  let sent := sendAgentMessage host mode message task.state
  ⟨sent.1, if sent.2 = some true then task.accepted ++ [⟨mode, Js.trim message⟩] else task.accepted⟩

/-! ## The event loop -/

/-- A turn of the event loop, for the task with an id. -/
inductive MessageEvent
  /-- `delegateTask` is called; its id is new. -/
  | delegate
  | send (mode : MessageMode) (message : String)
  /-- `createSession` resolves. -/
  | created
  /-- No slot or no session is had. -/
  | creationFailed
  /-- The awaited delivery is over. -/
  | resumed
  /-- `delegateTask` settles. -/
  | settled
  deriving DecidableEq, Repr

/-- What a turn does to a task. -/
def taskStep (host : ChildHost) (task : Option DelegatedTask) :
    MessageEvent → Option DelegatedTask
  | .delegate =>
    match task with
    | none => some ⟨.creating [], []⟩
    | some _ => none
  | .send mode message => task.map (·.send host mode message)
  | .created =>
    match task with
    | some ⟨.creating pending, accepted⟩ => some ⟨flush host .new pending, accepted⟩
    | _ => none
  | .creationFailed =>
    match task with
    | some ⟨.creating _, accepted⟩ => some ⟨.ended none, accepted⟩
    | _ => none
  | .resumed =>
    match task with
    | some ⟨.flushing child rest, accepted⟩ => some ⟨flush host child rest, accepted⟩
    | some ⟨.failed child, accepted⟩ => some ⟨.ended (some child), accepted⟩
    | _ => none
  | .settled =>
    match task with
    | some ⟨.running child, accepted⟩ => some ⟨.ended (some child), accepted⟩
    | _ => none

/-- The tasks by their ids. -/
abbrev DelegatedTasks := OrderedMap String DelegatedTask

/-- One turn.  A message to an id without a task is refused. -/
def messageStep (host : ChildHost) (tasks : DelegatedTasks) (event : String × MessageEvent) :
    Option DelegatedTasks :=
  match taskStep host (tasks.get? event.1) event.2 with
  | some task => some (tasks.set event.1 task)
  | none =>
    match event.2 with
    | .send .. => some tasks
    | _ => none

/-! ## Order -/

/-- The texts of one mode, as the child gets them. -/
def textsOf (host : ChildHost) (mode : MessageMode) (messages : List PendingAgentMessage) :
    List String :=
  (messages.filter (·.mode = mode)).map fun pending => host.expand pending.message

/-- The child has received the accepted messages of each mode in order and once, up to those that
the flush has still to deliver. -/
def ReceivesInOrder (host : ChildHost) (task : DelegatedTask) : Prop :=
  ∀ child, task.state.child? = some child → ∀ mode,
    child.received mode <+: textsOf host mode task.accepted ∧
      (task.state.backlog = [] → child.received mode = textsOf host mode task.accepted)

/-- A message that is accepted before the child exists is one that the child does not refuse, and
one that is accepted during the flush has no message of its mode before it in the backlog. -/
def Orderly (host : ChildHost) (tasks : DelegatedTasks) (event : String × MessageEvent) : Prop :=
  ∀ task mode message, tasks.get? event.1 = some task → event.2 = .send mode message →
    (sendAgentMessage host mode message task.state).2 = some true →
    (task.state.child? = none → host.refuses (Js.trim message) = false) ∧
      ∀ pending ∈ task.state.backlog, pending.mode ≠ mode

instance (host : ChildHost) (tasks : DelegatedTasks) (event : String × MessageEvent) :
    Decidable (Orderly host tasks event) :=
  match htask : tasks.get? event.1, hevent : event.2 with
  | some task, .send mode message =>
    decidable_of_iff ((sendAgentMessage host mode message task.state).2 = some true →
        (task.state.child? = none → host.refuses (Js.trim message) = false) ∧
          ∀ pending ∈ task.state.backlog, pending.mode ≠ mode)
      ⟨fun h _ _ _ h₁ h₂ => by
        cases htask.symm.trans h₁
        cases hevent.symm.trans h₂
        exact h, fun h => h task mode message htask hevent⟩
  | none, _ => isTrue fun _ _ _ h₁ => nomatch htask.symm.trans h₁
  | some _, .delegate => isTrue fun _ _ _ _ h₂ => nomatch hevent.symm.trans h₂
  | some _, .created => isTrue fun _ _ _ _ h₂ => nomatch hevent.symm.trans h₂
  | some _, .creationFailed => isTrue fun _ _ _ _ h₂ => nomatch hevent.symm.trans h₂
  | some _, .resumed => isTrue fun _ _ _ _ h₂ => nomatch hevent.symm.trans h₂
  | some _, .settled => isTrue fun _ _ _ _ h₂ => nomatch hevent.symm.trans h₂

variable {host : ChildHost} {task task' : DelegatedTask} {child : ChildSession}
  {rest : List PendingAgentMessage} {mode : MessageMode} {message text : String}

/-! ## Queues -/

@[simp] theorem textsOf_nil (host : ChildHost) (mode : MessageMode) : textsOf host mode [] = [] :=
  rfl

theorem textsOf_append (host : ChildHost) (mode : MessageMode)
    (first second : List PendingAgentMessage) :
    textsOf host mode (first ++ second) = textsOf host mode first ++ textsOf host mode second := by
  rw [textsOf, filter_append, map_append]
  rfl

/-- The texts of one message. -/
def textOf (host : ChildHost) (mode : MessageMode) (message : PendingAgentMessage) : List String :=
  if message.mode = mode then [host.expand message.message] else []

theorem textsOf_cons (host : ChildHost) (mode : MessageMode) (message : PendingAgentMessage)
    (rest : List PendingAgentMessage) :
    textsOf host mode (message :: rest) = textOf host mode message ++ textsOf host mode rest := by
  unfold textsOf textOf
  by_cases h : message.mode = mode <;> simp [h]

theorem textsOf_singleton (host : ChildHost) (mode : MessageMode)
    (message : PendingAgentMessage) : textsOf host mode [message] = textOf host mode message := by
  rw [textsOf_cons, textsOf_nil, append_nil]

/-- Nothing of a mode waits if no message of that mode does. -/
theorem textsOf_eq_nil (h : ∀ pending ∈ rest, pending.mode ≠ mode) :
    textsOf host mode rest = [] := by
  unfold textsOf
  rw [List.filter_eq_nil_iff.2 (by simpa using h), map_nil]

/-- A delivered message is at the end of the queue of its mode. -/
theorem received_deliver {child' : ChildSession}
    (h : child.deliver host mode text = some child') (other : MessageMode) :
    child'.received other = child.received other ++ textOf host other ⟨mode, text⟩ := by
  unfold ChildSession.deliver at h
  split_ifs at h
  obtain rfl := some.inj h
  unfold textOf
  cases mode <;> cases other <;> simp [ChildSession.queue, ChildSession.received]

theorem deliver_isSome : (child.deliver host mode text).isSome = !host.refuses text := by
  unfold ChildSession.deliver
  cases host.refuses text <;> rfl

/-! ## What an orderly run keeps -/

/-- What waits for the child: the pending messages, or the rest of the flush. -/
def TaskState.waiting : TaskState → List PendingAgentMessage
  | .creating pending => pending
  | task => task.backlog

/-- What has been received and what waits are the accepted messages, and nothing that waits will be
refused. -/
structure Tracks (host : ChildHost) (task : DelegatedTask) : Prop where
  pending : ∀ pending, task.state = .creating pending → pending = task.accepted
  received : ∀ child, task.state.child? = some child → ∀ mode,
    child.received mode ++ textsOf host mode task.state.backlog = textsOf host mode task.accepted
  accepts : ∀ message ∈ task.state.waiting, host.refuses message.message = false

/-- **A task that is tracked is in order.** -/
theorem Tracks.inOrder (h : Tracks host task) : ReceivesInOrder host task := by
  intro child hchild mode
  have hsum := h.received child hchild mode
  refine ⟨⟨_, hsum⟩, fun hempty => ?_⟩
  rwa [hempty, textsOf_nil, append_nil] at hsum

variable {accepted : List PendingAgentMessage}

/-- The flush delivers the first message and leaves the others. -/
theorem flush_tracks
    (hsum : ∀ mode, child.received mode ++ textsOf host mode rest = textsOf host mode accepted)
    (haccepts : ∀ message ∈ rest, host.refuses message.message = false) :
    Tracks host ⟨flush host child rest, accepted⟩ := by
  cases rest with
  | nil =>
    refine ⟨(fun _ h => nomatch h), fun c hc mode => ?_, fun _ h => absurd h not_mem_nil⟩
    obtain rfl := some.inj hc
    exact hsum mode
  | cons message rest =>
    have hsome : (child.deliver host message.mode message.message).isSome = true := by
      rw [deliver_isSome, haccepts message mem_cons_self]
      rfl
    obtain ⟨child', hdeliver⟩ := Option.isSome_iff_exists.1 hsome
    have hflush : flush host child (message :: rest) = .flushing child' rest := by
      simp only [flush, hdeliver]
    rw [hflush]
    refine ⟨(fun _ h => nomatch h), fun c hc mode => ?_,
      fun m hm => haccepts m (mem_cons_of_mem _ hm)⟩
    obtain rfl := some.inj hc
    have hmode := hsum mode
    rw [textsOf_cons, ← append_assoc] at hmode
    rw [received_deliver hdeliver]
    exact hmode

/-- **What a call of `sendAgentMessage` can do.** -/
theorem sendAgentMessage_cases (host : ChildHost) (mode : MessageMode) (message : String)
    (task : TaskState) :
    ((sendAgentMessage host mode message task).2 ≠ some true ∧
        (sendAgentMessage host mode message task).1 = task) ∨
      (∃ pending, task = .creating pending ∧ sendAgentMessage host mode message task =
        (.creating (pending ++ [⟨mode, Js.trim message⟩]), some true)) ∨
      ∃ child child', task.child? = some child ∧ task.isActive = true ∧
        child.deliver host mode (Js.trim message) = some child' ∧
        sendAgentMessage host mode message task = (task.withChild child', some true) := by
  unfold sendAgentMessage
  by_cases hrefused : task.isActive = false ∨ Js.trim message = ""
  · rw [if_pos hrefused]
    exact .inl ⟨by simp, rfl⟩
  · rw [if_neg hrefused]
    have hactive : task.isActive = true := by
      rw [not_or, Bool.not_eq_false] at hrefused
      exact hrefused.1
    cases hchild : task.child? with
    | none =>
      cases task with
      | creating pending => exact .inr (.inl ⟨pending, rfl, rfl⟩)
      | ended child => cases hactive
      | flushing | failed | running => cases hchild
    | some child =>
      cases hdeliver : child.deliver host mode (Js.trim message) with
      | none =>
        simp only [hdeliver]
        exact .inl ⟨by simp, trivial⟩
      | some child' =>
        simp only [hdeliver]
        exact .inr (.inr ⟨child, child', rfl, hactive, hdeliver, rfl⟩)

theorem withChild_spec {task : TaskState} (child' : ChildSession)
    (hchild : task.child? = some child)
    (hactive : task.isActive = true) :
    (task.withChild child').child? = some child' ∧ (task.withChild child').backlog = task.backlog ∧
      (task.withChild child').waiting = task.waiting ∧
      ∀ pending, task.withChild child' ≠ .creating pending := by
  cases task with
  | creating pending => cases hchild
  | ended child => cases hactive
  | flushing child rest => exact ⟨rfl, rfl, rfl, fun _ => nofun⟩
  | failed child => exact ⟨rfl, rfl, rfl, fun _ => nofun⟩
  | running child => exact ⟨rfl, rfl, rfl, fun _ => nofun⟩

/-- A message that is sent in order. -/
theorem send_tracks (h : Tracks host task)
    (horderly : (sendAgentMessage host mode message task.state).2 = some true →
      (task.state.child? = none → host.refuses (Js.trim message) = false) ∧
        ∀ pending ∈ task.state.backlog, pending.mode ≠ mode) :
    Tracks host (task.send host mode message) := by
  obtain ⟨state, accepted⟩ := task
  rw [DelegatedTask.send]
  rcases sendAgentMessage_cases host mode message state with
    ⟨hnot, hsame⟩ | ⟨pending, rfl, hsend⟩ | ⟨child, child', hchild, hactive, hdeliver, hsend⟩
  · rw [if_neg hnot, hsame]
    exact h
  · rw [hsend]
    have hrefuses := (horderly (by rw [hsend])).1 rfl
    have hpending : pending = accepted := h.pending pending rfl
    refine ⟨fun _ heq => ?_, (fun _ hc => nomatch hc), fun m hm => ?_⟩
    · cases heq
      rw [hpending]
      rfl
    · rcases List.mem_append.1 hm with hm | hm
      · exact h.accepts m hm
      · rw [List.mem_singleton.1 hm]
        exact hrefuses
  · have hbacklog := (horderly (by rw [hsend])).2
    obtain ⟨hchild', hsameBacklog, hsameWaiting, hnotCreating⟩ :=
      withChild_spec child' hchild hactive
    rw [hsend]
    refine ⟨fun _ heq => absurd heq (hnotCreating _), fun c hc other => ?_, fun m hm => ?_⟩
    · obtain rfl : child' = c := some.inj (hchild'.symm.trans hc)
      have hsum := h.received child hchild other
      have hback : textsOf host other (state.withChild child').backlog =
          textsOf host other state.backlog := by rw [hsameBacklog]
      simp only [if_true] at *
      rw [received_deliver hdeliver, hback, textsOf_append, ← hsum, textsOf_singleton]
      -- the backlog holds no message of the mode that the new one could overtake
      by_cases hmode : mode = other
      · subst hmode
        rw [textsOf_eq_nil hbacklog, append_nil, append_nil]
      · simp [textOf, hmode]
    · rw [show (⟨state.withChild child', _⟩ : DelegatedTask).state.waiting = state.waiting from
        hsameWaiting] at hm
      exact h.accepts m hm

/-- A state without pending messages keeps what it has received. -/
theorem Tracks.moveTo {child : ChildSession}
    (h : ∀ mode, child.received mode = textsOf host mode accepted) {state : TaskState}
    (hcreating : ∀ pending, state ≠ .creating pending) (hchild : state.child? = some child)
    (hbacklog : state.backlog = []) (hwaiting : state.waiting = []) :
    Tracks host ⟨state, accepted⟩ := by
  refine ⟨fun _ heq => absurd heq (hcreating _), fun c hc mode => ?_, fun m hm => ?_⟩
  · obtain rfl : child = c := some.inj (hchild.symm.trans hc)
    simp only [hbacklog, textsOf_nil, append_nil]
    exact h mode
  · simp only [hwaiting] at hm
    exact absurd hm not_mem_nil

/-- What a tracked task without a backlog has received. -/
theorem Tracks.all_received (h : Tracks host task) (hchild : task.state.child? = some child)
    (hbacklog : task.state.backlog = []) (mode : MessageMode) :
    child.received mode = textsOf host mode task.accepted := by
  have hsum := h.received child hchild mode
  rwa [hbacklog, textsOf_nil, append_nil] at hsum

/-- **A turn in order keeps a task tracked.** -/
theorem taskStep_tracks {before : Option DelegatedTask} {event : MessageEvent}
    (h : ∀ task, before = some task → Tracks host task)
    (horderly : ∀ task mode message, before = some task → event = .send mode message →
      (sendAgentMessage host mode message task.state).2 = some true →
      (task.state.child? = none → host.refuses (Js.trim message) = false) ∧
        ∀ pending ∈ task.state.backlog, pending.mode ≠ mode)
    (hstep : taskStep host before event = some task') : Tracks host task' := by
  match before, event with
  | none, .delegate =>
    obtain rfl := some.inj hstep
    refine ⟨fun _ heq => ?_, (fun _ hc => nomatch hc), fun _ hm => absurd hm not_mem_nil⟩
    cases heq
    rfl
  | some task, .send mode message =>
    obtain rfl := some.inj hstep
    exact send_tracks (h task rfl) (horderly task mode message rfl rfl)
  | some ⟨.creating pending, accepted⟩, .created =>
    obtain rfl := some.inj hstep
    have htracks := h _ rfl
    have hpending : pending = accepted := htracks.pending pending rfl
    refine flush_tracks (fun mode => ?_) htracks.accepts
    rw [hpending]
    cases mode <;> rfl
  | some ⟨.creating pending, accepted⟩, .creationFailed =>
    obtain rfl := some.inj hstep
    exact ⟨nofun, nofun, fun _ hm => absurd hm not_mem_nil⟩
  | some ⟨.flushing child rest, accepted⟩, .resumed =>
    obtain rfl := some.inj hstep
    have htracks := h _ rfl
    exact flush_tracks (htracks.received child rfl) htracks.accepts
  | some ⟨.failed child, accepted⟩, .resumed =>
    obtain rfl := some.inj hstep
    exact .moveTo ((h _ rfl).all_received rfl rfl) (fun _ => nofun) rfl rfl rfl
  | some ⟨.running child, accepted⟩, .settled =>
    obtain rfl := some.inj hstep
    exact .moveTo ((h _ rfl).all_received rfl rfl) (fun _ => nofun) rfl rfl rfl

variable {tasks tasks' : DelegatedTasks} {event : String × MessageEvent}

/-- A turn changes the task it is about, or nothing. -/
theorem messageStep_cases (h : messageStep host tasks event = some tasks') :
    tasks' = tasks ∨ ∃ task, taskStep host (tasks.get? event.1) event.2 = some task ∧
      tasks' = tasks.set event.1 task := by
  unfold messageStep at h
  cases htask : taskStep host (tasks.get? event.1) event.2 with
  | some task =>
    simp only [htask, some.injEq] at h
    exact .inr ⟨task, rfl, h.symm⟩
  | none =>
    simp only [htask] at h
    cases hevent : event.2 <;> simp only [hevent, reduceCtorEq, some.injEq] at h
    exact .inl h.symm

theorem messageStep_each {I : DelegatedTask → Prop}
    (hinv : ∀ id task, tasks.get? id = some task → I task)
    (h : messageStep host tasks event = some tasks')
    (htask : ∀ task, taskStep host (tasks.get? event.1) event.2 = some task → I task)
    (id : String) (task : DelegatedTask) (hget : tasks'.get? id = some task) : I task := by
  rcases messageStep_cases h with rfl | ⟨changed, hchanged, rfl⟩
  · exact hinv id task hget
  · rw [OrderedMap.get?_set] at hget
    split_ifs at hget with hid
    · obtain rfl := some.inj hget
      exact htask changed hchanged
    · exact hinv id task hget

/-- **The messages of each mode reach the child in the order of their acceptance, each once**, in
every run in which none is accepted ahead of a waiting message of its mode and none that is accepted
before the child exists is an extension command. -/
theorem messages_in_order (host : ChildHost) {tasks : DelegatedTasks}
    (h : Reaches (messageStep host) (Orderly host) .empty tasks) {id : String}
    {task : DelegatedTask}
    (hget : tasks.get? id = some task) : ReceivesInOrder host task := by
  have htracks : ∀ id task, tasks.get? id = some task → Tracks host task :=
    reaches_invariant (I := fun tasks => ∀ id task, tasks.get? id = some task → Tracks host task)
      (fun _ _ hnone => nomatch (hnone : (none : Option DelegatedTask) = some _))
      (fun _ _ _ hinv hG hstep => messageStep_each hinv hstep fun _ => taskStep_tracks (hinv _) hG) h
  exact (htracks id task hget).inOrder

/-- A host without extensions, skills and templates. -/
def plainChildHost : ChildHost := ⟨fun _ => false, id⟩

/-- A steering and a follow-up message before the child exists, and one more while they are
delivered. -/
def crossedMessages : List (String × MessageEvent) :=
  [("t", .delegate), ("t", .send .steer "a"), ("t", .send .followUp "b"), ("t", .created),
    ("t", .send .steer "c"), ("t", .resumed), ("t", .resumed)]

/-- What becomes of them. -/
def crossedTask : DelegatedTask :=
  ⟨.running ⟨["a", "c"], ["b"]⟩, [⟨.steer, "a"⟩, ⟨.followUp, "b"⟩, ⟨.steer, "c"⟩]⟩

theorem messages_in_order_crossed :
    ∃ tasks, Reaches (messageStep plainChildHost) (Orderly plainChildHost) .empty tasks ∧
      tasks.get? "t" = some crossedTask ∧ ReceivesInOrder plainChildHost crossedTask := by
  have hsome : (runFrom (messageStep plainChildHost) .empty crossedMessages).isSome = true := by
    decide
  obtain ⟨tasks, hrun⟩ := Option.isSome_iff_exists.1 hsome
  have hreach : Reaches (messageStep plainChildHost) (Orderly plainChildHost) .empty tasks :=
    reaches_of_runFrom crossedMessages _ _ _ .refl (by decide) hrun
  have hget : tasks.get? "t" = some crossedTask := by
    have hbind : (runFrom (messageStep plainChildHost) .empty crossedMessages).bind (·.get? "t") =
        some crossedTask := by decide
    rwa [hrun] at hbind
  exact ⟨tasks, hreach, hget, messages_in_order plainChildHost hreach hget⟩

/-- Two steering messages before the child exists, and one more while they are delivered. -/
def overtakingMessages : List (String × MessageEvent) :=
  [("t", .delegate), ("t", .send .steer "a"), ("t", .send .steer "b"), ("t", .created),
    ("t", .send .steer "c"), ("t", .resumed), ("t", .resumed)]

/-- What becomes of them. -/
def overtakenTask : DelegatedTask :=
  ⟨.running ⟨["a", "c", "b"], []⟩, [⟨.steer, "a"⟩, ⟨.steer, "b"⟩, ⟨.steer, "c"⟩]⟩

/-- The message that is accepted during the flush overtakes one that waits. -/
theorem message_overtakes :
    ∃ tasks, Reaches (messageStep plainChildHost) (fun _ _ => True) .empty tasks ∧
      tasks.get? "t" = some overtakenTask ∧ ¬ ReceivesInOrder plainChildHost overtakenTask := by
  have hsome : (runFrom (messageStep plainChildHost) .empty overtakingMessages).isSome = true := by
    decide
  obtain ⟨tasks, hrun⟩ := Option.isSome_iff_exists.1 hsome
  have hget : tasks.get? "t" = some overtakenTask := by
    have hbind : (runFrom (messageStep plainChildHost) .empty overtakingMessages).bind
        (·.get? "t") = some overtakenTask := by decide
    rwa [hrun] at hbind
  refine ⟨tasks, reaches_of_runFrom overtakingMessages _ _ _ .refl (along_true _ _) hrun, hget,
    fun h => ?_⟩
  exact absurd ((h _ rfl .steer).2 rfl) (by decide)

/-! ## No message twice -/

/-- What the child has received and these messages are the accepted ones, in some order. -/
def AllThere (host : ChildHost) (child : ChildSession) (rest accepted : List PendingAgentMessage) :
    Prop :=
  ∀ mode, child.received mode ++ textsOf host mode rest ~ textsOf host mode accepted

/-- There are no such messages, or the child refuses the first of them. -/
def Dropped (host : ChildHost) (messages : List PendingAgentMessage) : Prop :=
  ∀ first ∈ messages.head?, host.refuses first.message = true

/-- Each accepted message waits, has been received, or was dropped with one that was refused. -/
def Accounted (host : ChildHost) (accepted : List PendingAgentMessage) : TaskState → Prop
  | .creating pending => pending = accepted
  | .flushing child rest => AllThere host child rest accepted
  | .running child => AllThere host child [] accepted
  | .failed child | .ended (some child) =>
    ∃ dropped, Dropped host dropped ∧ AllThere host child dropped accepted
  | .ended none => True

theorem flush_accounted (h : AllThere host child rest accepted) :
    Accounted host accepted (flush host child rest) := by
  cases rest with
  | nil => exact h
  | cons message rest =>
    cases hdeliver : child.deliver host message.mode message.message with
    | none =>
      simp only [flush, hdeliver]
      refine ⟨message :: rest, fun first hfirst => ?_, h⟩
      obtain rfl := some.inj hfirst
      have hrefuses := @deliver_isSome host child message.mode message.message
      rw [hdeliver] at hrefuses
      simpa using hrefuses
    | some child' =>
      simp only [flush, hdeliver]
      intro mode
      have hmode := h mode
      rw [textsOf_cons, ← append_assoc] at hmode
      rw [received_deliver hdeliver]
      exact hmode

theorem AllThere.send {child' : ChildSession} (h : AllThere host child rest accepted)
    (hdeliver : child.deliver host mode text = some child') :
    AllThere host child' rest (accepted ++ [⟨mode, text⟩]) := by
  intro other
  rw [received_deliver hdeliver, textsOf_append, textsOf_singleton, append_assoc]
  refine (perm_append_comm.append_left _).trans ?_
  rw [← append_assoc]
  exact (h other).append_right _

theorem send_accounted (h : Accounted host task.accepted task.state) :
    Accounted host (task.send host mode message).accepted (task.send host mode message).state := by
  obtain ⟨state, accepted⟩ := task
  rw [DelegatedTask.send]
  rcases sendAgentMessage_cases host mode message state with
    ⟨hnot, hsame⟩ | ⟨pending, rfl, hsend⟩ | ⟨child, child', hchild, hactive, hdeliver, hsend⟩
  · rw [if_neg hnot, hsame]
    exact h
  · rw [hsend]
    obtain rfl : pending = accepted := h
    rfl
  · rw [hsend]
    cases state with
    | creating pending => cases hchild
    | ended child => cases hactive
    | flushing child rest | running child =>
      obtain rfl := some.inj hchild
      exact AllThere.send h hdeliver
    | failed child =>
      obtain rfl := some.inj hchild
      obtain ⟨dropped, hdropped, hall⟩ := h
      exact ⟨dropped, hdropped, hall.send hdeliver⟩

theorem taskStep_accounted {before : Option DelegatedTask} {event : MessageEvent}
    (h : ∀ task, before = some task → Accounted host task.accepted task.state)
    (hstep : taskStep host before event = some task') :
    Accounted host task'.accepted task'.state := by
  match before, event with
  | none, .delegate => obtain rfl := some.inj hstep; rfl
  | some task, .send mode message => obtain rfl := some.inj hstep; exact send_accounted (h task rfl)
  | some ⟨.creating pending, accepted⟩, .created =>
    obtain rfl := some.inj hstep
    obtain rfl : pending = accepted := h _ rfl
    exact flush_accounted fun mode => by cases mode <;> exact .refl _
  | some ⟨.creating pending, accepted⟩, .creationFailed => obtain rfl := some.inj hstep; trivial
  | some ⟨.flushing child rest, accepted⟩, .resumed =>
    obtain rfl := some.inj hstep
    exact flush_accounted (h _ rfl)
  | some ⟨.failed child, accepted⟩, .resumed =>
    obtain rfl := some.inj hstep
    exact h ⟨.failed child, accepted⟩ rfl
  | some ⟨.running child, accepted⟩, .settled =>
    obtain rfl := some.inj hstep
    exact ⟨[], nofun, h _ rfl⟩

end BeauPi.Agents
