import BeauPi.AgentLoop.Agent
import BeauPi.Harness.Runs

/-!
# The agent harness

`AgentHarness` with all the calls on it that are under way.  A step runs the code of one call up to
its next `await`; what the awaited promise gives is its input.

* `Appending`, `Flush` — appends to the session and the flush of pending writes.
* `Handling` — `handleAgentEvent`.
* `RunStage` — where `prompt`, `skill` or `promptFromTemplate` stands.
* `System.step` — a new call, or a step of one that is under way.
-/

namespace BeauPi.Harness

open Llm Sessions
open AgentLoop (Loop AgentEvent)
export AgentLoop (QueueMode)

/-! ## The state of the harness -/

/-- `AgentHarnessPhase`; no code sets `"retry"`. -/
inductive Phase
  | idle
  | turn
  | compaction
  | branchSummary
  deriving DecidableEq, Repr

/-- `PendingSessionWrite`, of the types that are pushed. -/
inductive PendingSessionWrite
  | message (message : AgentMessage)
  | modelChange (provider modelId : String)
  | thinkingLevelChange (thinkingLevel : String)
  | activeToolsChange (activeToolNames : List String)
  deriving DecidableEq, Repr

/-- What the entry of a write says. -/
def PendingSessionWrite.body : PendingSessionWrite → TreeBody
  | .message m => .message m
  | .modelChange provider modelId => .modelChange provider modelId
  | .thinkingLevelChange level => .thinkingLevelChange level
  | .activeToolsChange names => .activeToolsChange names

/-- A queue that may be replaced by another array while a call still holds the old one. -/
structure Queue where
  array : Nat
  messages : List AgentMessage
  deriving DecidableEq, Repr

/-- The fields of `AgentHarness` that its calls share.  Runs are numbered; the abort controller and
the promise of a run have its number. -/
structure AgentHarness where
  session : Storage
  phase : Phase
  runAbortController : Option Nat
  runPromise : Option Nat
  pendingSessionWrites : List PendingSessionWrite
  model : ModelRef
  steerQueue : Queue
  followUpQueue : Queue
  steeringQueueMode : QueueMode
  followUpQueueMode : QueueMode
  nextTurnQueue : List AgentMessage
  /-- The controllers that have been aborted. -/
  aborted : List Nat
  /-- The run promises that have been resolved. -/
  resolved : List Nat

/-! ## Appends to the session -/

/-- Where an append of `Session` stands. -/
inductive Appending
  /-- `createEntryId` is awaited. -/
  | naming (body : TreeBody)
  /-- `getLeafId` is awaited. -/
  | reading (id : String) (body : TreeBody)
  /-- `appendEntry` of the storage is awaited. -/
  | writing (entry : TreeEntry)
  deriving DecidableEq, Repr

/-- What an append waits for. -/
inductive AppendInput
  | named (id : String)
  | read (timestamp : String)
  | written
  /-- The storage throws. -/
  | fails
  deriving DecidableEq, Repr

/-- How far a piece of work has come. -/
inductive Progress (α : Type)
  | pending (rest : α)
  | done
  | threw
  deriving Repr

/-- One step of an append.  `generateEntryId` gives an id that no entry has, and never an empty
one. -/
def Appending.step (session : Storage) : Appending → AppendInput →
    Option (Storage × Progress Appending)
  | .naming body, .named id =>
    if id = "" ∨ session.byId.has id = true then none
    else some (session, .pending (.reading id body))
  | .reading id body, .read timestamp =>
    match session.getLeafId with
    | .ok parentId => some (session, .pending (.writing ⟨id, parentId, timestamp, body⟩))
    | .error _ => some (session, .threw)
  | .writing entry, .written => some (session.appendEntry entry, .done)
  | _, .fails => some (session, .threw)
  | _, _ => none

/-- Where `flushPendingSessionWrites` stands: at the append of the first write, or before that
write is taken out. -/
inductive Flush
  | appending (write : PendingSessionWrite) (rest : Appending)
  | shifting
  deriving DecidableEq, Repr

/-- The test of the loop; `none` if nothing is pending. -/
def Flush.next : List PendingSessionWrite → Option Flush
  | [] => none
  | write :: _ => some (.appending write (.naming write.body))

/-- What a flush waits for. -/
inductive FlushInput
  | append (input : AppendInput)
  | shift
  deriving DecidableEq, Repr

/-- One step of `flushPendingSessionWrites`. -/
def Flush.step (h : AgentHarness) : Flush → FlushInput → Option (AgentHarness × Progress Flush)
  | .appending write rest, .append input =>
    (rest.step h.session input).map fun
      | (session, .pending rest) =>
        ({ h with session := session }, .pending (.appending write rest))
      | (session, .done) => ({ h with session := session }, .pending .shifting)
      | (session, .threw) => ({ h with session := session }, .threw)
  | .shifting, .shift =>
    let pending := h.pendingSessionWrites.tail
    some ({ h with pendingSessionWrites := pending },
      match Flush.next pending with
      | some flush => .pending flush
      | none => .done)
  | _, _ => none

/-! ## The events of a run -/

/-- Where `handleAgentEvent` stands. -/
inductive Handling
  /-- No event is handled. -/
  | free
  /-- The message of a `message_end` event is appended. -/
  | appending (message : AgentMessage) (rest : Appending)
  /-- Listeners are awaited, and nothing is done after them. -/
  | listening
  /-- The listeners of a `turn_end` event are awaited. -/
  | turnEnding
  /-- Pending writes are flushed after `turn_end`, whose listeners may have thrown. -/
  | turnFlushing (threw : Bool) (flush : Flush)
  /-- Pending writes are flushed before `agent_end` is passed on. -/
  | endFlushing (flush : Flush)
  /-- The listeners of `agent_end` are awaited, and `settled` is emitted after them. -/
  | ending
  deriving DecidableEq, Repr

/-- What the handling of an event waits for. -/
inductive HandlingInput
  | append (input : AppendInput)
  | flush (input : FlushInput)
  /-- The listeners are done. -/
  | resume
  /-- A listener throws. -/
  | rejects
  deriving DecidableEq, Repr

/-- The flush before `agent_end` is over: the phase is idle, and the event is passed on. -/
def AgentHarness.endRun (h : AgentHarness) : AgentHarness × Handling :=
  ({ h with phase := .idle }, .ending)

/-- The listeners of `turn_end` are done. -/
def AgentHarness.flushTurn (h : AgentHarness) (threw : Bool) : AgentHarness × Progress Handling :=
  match Flush.next h.pendingSessionWrites with
  | some flush => (h, .pending (.turnFlushing threw flush))
  | none => (h, if threw then .threw else .pending .listening)

/-- `handleAgentEvent` up to its first `await`. -/
def AgentHarness.handleAgentEvent (h : AgentHarness) : AgentEvent → AgentHarness × Handling
  | .messageEnd m => (h, .appending m (.naming (.message m)))
  | .turnEnd _ _ => (h, .turnEnding)
  | .agentEnd _ =>
    match Flush.next h.pendingSessionWrites with
    | some flush => (h, .endFlushing flush)
    | none => h.endRun
  | _ => (h, .listening)

/-- One step of `handleAgentEvent`. -/
def Handling.step (h : AgentHarness) : Handling → HandlingInput →
    Option (AgentHarness × Progress Handling)
  | .appending m rest, .append input =>
    (rest.step h.session input).map fun
      | (session, .pending rest) => ({ h with session := session }, .pending (.appending m rest))
      | (session, .done) => ({ h with session := session }, .pending .listening)
      | (session, .threw) => ({ h with session := session }, .threw)
  | .turnFlushing threw flush, .flush input =>
    (flush.step h input).map fun
      | (h, .pending flush) => (h, .pending (.turnFlushing threw flush))
      | (h, .done) => (h, if threw then .threw else .pending .listening)
      | (h, .threw) => (h, .threw)
  | .endFlushing flush, .flush input =>
    (flush.step h input).map fun
      | (h, .pending flush) => (h, .pending (.endFlushing flush))
      | (h, .done) => ((h.endRun).1, .pending (h.endRun).2)
      | (h, .threw) => (h, .threw)
  | .listening, .resume => some (h, .done)
  | .listening, .rejects => some (h, .threw)
  | .turnEnding, .resume => some (h.flushTurn false)
  | .turnEnding, .rejects => some (h.flushTurn true)
  | .ending, .resume => some (h, .pending .listening)
  | .ending, .rejects => some (h, .threw)
  | _, _ => none

/-! ## Queues -/

/-- The queues that the loop polls. -/
inductive QueueName
  | steer
  | followUp
  deriving DecidableEq, Repr

/-- The queue of a name. -/
def AgentHarness.queue (h : AgentHarness) : QueueName → Queue
  | .steer => h.steerQueue
  | .followUp => h.followUpQueue

/-- The mode of a queue. -/
def AgentHarness.queueMode (h : AgentHarness) : QueueName → QueueMode
  | .steer => h.steeringQueueMode
  | .followUp => h.followUpQueueMode

/-- Replaces the queue of a name. -/
def AgentHarness.setQueue (h : AgentHarness) (queue : Queue) : QueueName → AgentHarness
  | .steer => { h with steerQueue := queue }
  | .followUp => { h with followUpQueue := queue }

/-- The messages that `drainQueuedMessages` takes out, and the others. -/
def splice (mode : QueueMode) (messages : List AgentMessage) :
    List AgentMessage × List AgentMessage :=
  match mode with
  | .all => (messages, [])
  | .oneAtATime => (messages.take 1, messages.drop 1)

/-- `queue.unshift(...messages)`: only the array that the harness still holds is seen again. -/
def AgentHarness.unshift (h : AgentHarness) (name : QueueName) (array : Nat)
    (messages : List AgentMessage) : AgentHarness :=
  let queue := h.queue name
  if queue.array = array then
    h.setQueue { queue with messages := messages ++ queue.messages } name
  else h

/-! ## Runs -/

/-- What the loop reads of an `AgentHarnessTurnState`. -/
structure TurnState where
  messages : List AgentMessage
  tools : List AgentLoop.Tool
  model : ModelRef
  deriving DecidableEq, Repr

/-- Where `prompt`, `skill` or `promptFromTemplate` stands. -/
inductive RunStage
  /-- `createTurnState` is awaited. -/
  | creating
  /-- The messages of `nextTurn` are taken out, and `queue_update` is emitted. -/
  | updating (turn : TurnState) (queued : List AgentMessage) (prompt : AgentMessage)
  /-- The hook `before_agent_start` is awaited. -/
  | starting (turn : TurnState) (messages : List AgentMessage)
  /-- The loop runs; `model` is that of the active turn state. -/
  | looping (loop : Loop) (model : ModelRef) (handling : Handling)
  /-- `drainQueuedMessages` has taken messages out and emitted `queue_update`. -/
  | draining (loop : Loop) (model : ModelRef) (name : QueueName) (array : Nat)
      (messages : List AgentMessage)
  /-- `prepareNextTurn` flushes pending writes. -/
  | preparing (loop : Loop) (model : ModelRef) (flush : Flush)
  /-- `prepareNextTurn` awaits `createTurnState`. -/
  | refreshing (loop : Loop) (model : ModelRef)
  /-- `emitRunFailure` handles an event; others follow. -/
  | reporting (rest : List AgentEvent) (handling : Handling)
  /-- The `finally` of `executeTurn`, after a result or an error. -/
  | closing (completed : Bool) (flush : Option Flush)

/-- What a run waits for. -/
inductive RunInput
  | handling (input : HandlingInput)
  | flush (input : FlushInput)
  /-- `createTurnState` gives the state, and the prompt of the run is made. -/
  | created (turn : TurnState) (prompt : AgentMessage)
  /-- Listeners or a hook are done; the hook `before_agent_start` may add messages. -/
  | resume (messages : List AgentMessage)
  /-- What is awaited throws. -/
  | rejects
  /-- The loop polls a queue. -/
  | poll
  /-- The loop prepares its next turn. -/
  | prepare
  /-- What the loop itself waits for. -/
  | loop (input : AgentLoop.Input)
  | settle
  deriving Repr

/-- The message of an error that is thrown, and the time. -/
structure Moment where
  errorMessage : String
  now : ℚ
  deriving DecidableEq, Repr

/-- `createFailureMessage` -/
def createFailureMessage (model : ModelRef) (aborted : Bool) (errorMessage : String) (now : ℚ) :
    AssistantMessage where
  content := some [.text ""]
  provider := model.provider
  model := model.modelId
  usage := .zero
  stopReason := if aborted then .aborted else .error
  errorMessage := some errorMessage
  timestamp := now

/-- The events of `emitRunFailure`. -/
def failureEvents (message : AssistantMessage) : List AgentEvent :=
  [.messageStart (.assistant message), .messageEnd (.assistant message), .turnEnd message [],
    .agentEnd [.assistant message]]

/-- The `finally` of `executeTurn`. -/
def AgentHarness.close (h : AgentHarness) (completed : Bool) : AgentHarness × RunStage :=
  (h, .closing completed (Flush.next h.pendingSessionWrites))

/-- The next event of `emitRunFailure`, or its end. -/
def AgentHarness.report (h : AgentHarness) : List AgentEvent → AgentHarness × RunStage
  | [] => h.close true
  | event :: rest =>
    let (h, handling) := h.handleAgentEvent event
    (h, .reporting rest handling)

/-- The loop has thrown. -/
def AgentHarness.fail (h : AgentHarness) (run : Nat) (model : ModelRef) (moment : Moment) :
    AgentHarness × RunStage :=
  h.report (failureEvents
    (createFailureMessage model (h.aborted.contains run) moment.errorMessage moment.now))

/-- The loop has made a step and emits an event, or none. -/
def AgentHarness.react (h : AgentHarness) (run : Nat) (model : ModelRef) (moment : Moment) :
    Loop × List AgentEvent → AgentHarness × RunStage
  | (loop, event :: _) =>
    let (h, handling) := h.handleAgentEvent event
    (h, .looping loop model handling)
  | (loop, []) =>
    match loop.pc with
    | .returned => h.close (loop.newMessages.any (·.isAssistant))
    | .rejected => h.fail run model moment
    | _ => (h, .looping loop model .free)

/-- An event of the loop has been handled. -/
def AgentHarness.resumeLoop (h : AgentHarness) (run : Nat) (loop : Loop) (model : ModelRef)
    (moment : Moment) : AgentHarness × RunStage :=
  match loop.step (.resume moment.now) with
  | some stepped => h.react run model moment stepped
  | none => (h, .looping loop model .free)

/-- The queue that the loop polls where it stands. -/
def polledQueue : AgentLoop.PC → Option QueueName
  | .initialPoll => some .steer
  | .pollSteering _ => some .steer
  | .pollFollowUp => some .followUp
  | _ => none

/-- The answer to a poll. -/
def pollAnswer (messages : List AgentMessage) : QueueName → AgentLoop.Input
  | .steer => .steering messages
  | .followUp => .followUps messages

/-- Does the loop await `prepareNextTurn`? -/
def preparesTurn : AgentLoop.PC → Bool
  | .turnEnded _ => true
  | _ => false

/-- The inputs of the loop that the harness only passes on. -/
def passedOn (pc : AgentLoop.PC) : AgentLoop.Input → Bool
  | .prepared .. | .streamStart _ | .streamUpdate _ | .streamEnd _ | .stopAfterTurn _
  | .joined _ | .joinRejects => true
  | .callbackThrows => !(polledQueue pc).isSome && !preparesTurn pc
  | _ => false

/-- One step of the loop of a run.  The tasks of the loop run beside the handling of its events, and
their own events are only passed on to listeners. -/
def stepLoop (h : AgentHarness) (run : Nat) (loop : Loop) (model : ModelRef) (handling : Handling)
    (moment : Moment) (input : AgentLoop.Input) : Option (AgentHarness × RunStage) :=
  match input with
  | .task .. => (loop.step input).map fun stepped => (h, .looping stepped.1 model handling)
  | _ =>
    if handling = .free ∧ passedOn loop.pc input = true then
      (loop.step input).map (h.react run model moment)
    else none

/-- The settlement of a run. -/
def AgentHarness.settle (h : AgentHarness) (run : Nat) (completed : Bool) : AgentHarness :=
  { h with
    phase := if completed then h.phase else .idle
    runPromise := none
    resolved := run :: h.resolved }

/-- A step of a run that goes on. -/
abbrev onward (next : AgentHarness × RunStage) : Option (AgentHarness × Option RunStage) :=
  some (next.1, some next.2)

/-- One step of `prompt`, `skill` or `promptFromTemplate`; without a stage the run has settled. -/
def RunStage.step (h : AgentHarness) (run : Nat) (moment : Moment) :
    RunStage → RunInput → Option (AgentHarness × Option RunStage)
  | .creating, .created turn prompt =>
    if h.nextTurnQueue = [] then onward (h, .starting turn [prompt])
    else onward ({ h with nextTurnQueue := [] }, .updating turn h.nextTurnQueue prompt)
  | .creating, .rejects => some (h.settle run false, none)
  | .updating turn queued prompt, .resume _ => onward (h, .starting turn (queued ++ [prompt]))
  | .updating _ queued _, .rejects =>
    some ({ h with nextTurnQueue := queued ++ h.nextTurnQueue }.settle run false, none)
  | .starting turn messages, .resume more =>
    let loop := AgentLoop.runAgentLoop (messages ++ more) turn.messages turn.tools false
    onward ({ h with runAbortController := some run }.resumeLoop run loop turn.model moment)
  | .starting .., .rejects => some (h.settle run false, none)
  | .looping loop model handling, .handling input =>
    (handling.step h input).map fun
      | (h, .pending handling) => (h, some (.looping loop model handling))
      | (h, .done) =>
        let loop := { loop with aborted := h.aborted.contains run }
        let (h, stage) := h.resumeLoop run loop model moment
        (h, some stage)
      | (h, .threw) =>
        let (h, stage) := h.fail run model moment
        (h, some stage)
  | .looping loop model handling, .loop input =>
    let loop := { loop with aborted := h.aborted.contains run }
    (stepLoop h run loop model handling moment input).map fun (h, stage) => (h, some stage)
  | .looping loop model handling, .poll =>
    match polledQueue loop.pc with
    | none => none
    | some name =>
      if handling = .free then
        let queue := h.queue name
        let (messages, rest) := splice (h.queueMode name) queue.messages
        if messages = [] then
          (loop.step (pollAnswer [] name)).bind fun stepped =>
            onward (h.react run model moment stepped)
        else
          onward (h.setQueue { queue with messages := rest } name,
            .draining loop model name queue.array messages)
      else none
  | .looping loop model handling, .prepare =>
    if handling = .free ∧ preparesTurn loop.pc = true then
      onward (h, match Flush.next h.pendingSessionWrites with
        | some flush => .preparing loop model flush
        | none => .refreshing loop model)
    else none
  | .draining loop model name _ messages, .resume _ =>
    (loop.step (pollAnswer messages name)).bind fun stepped =>
      onward (h.react run model moment stepped)
  | .draining _ model name array messages, .rejects =>
    onward ((h.unshift name array messages).fail run model moment)
  | .preparing loop model flush, .flush input =>
    (flush.step h input).map fun
      | (h, .pending flush) => (h, some (.preparing loop model flush))
      | (h, .done) => (h, some (.refreshing loop model))
      | (h, .threw) =>
        let (h, stage) := h.fail run model moment
        (h, some stage)
  | .refreshing loop _, .created turn _ =>
    (loop.step (.nextTurn (some (turn.messages, turn.tools)))).bind fun stepped =>
      onward (h.react run turn.model moment stepped)
  | .refreshing _ model, .rejects => onward (h.fail run model moment)
  | .reporting rest handling, .handling input =>
    (handling.step h input).map fun
      | (h, .pending handling) => (h, some (.reporting rest handling))
      | (h, .done) =>
        let (h, stage) := h.report rest
        (h, some stage)
      | (h, .threw) =>
        let (h, stage) := h.close false
        (h, some stage)
  | .closing completed (some flush), .flush input =>
    (flush.step h input).map fun
      | (h, .pending flush) => (h, some (.closing completed (some flush)))
      | (h, .done) => (h, some (.closing completed none))
      | (h, .threw) => (h, some (.closing false none))
  | .closing completed none, .settle =>
    some ({ h with runAbortController := none }.settle run completed, none)
  | _, _ => none

/-! ## All calls -/

/-- Where `compact` stands. -/
inductive CompactStage
  /-- The compaction is made. -/
  | preparing
  | appending (rest : Appending)
  /-- `session_compact` is emitted. -/
  | announcing
  deriving DecidableEq, Repr

/-- A call that is under way. -/
inductive Call
  /-- `prompt`, `skill` or `promptFromTemplate`, with the number of the run. -/
  | run (run : Nat) (stage : RunStage)
  | compact (stage : CompactStage)
  /-- `navigateTree`, and whether it has moved the leaf. -/
  | navigateTree (moved : Bool)
  /-- `appendMessage`, `setModel`, `setThinkingLevel`, `setTools` or `setActiveTools`, called while
  the harness is idle. -/
  | write (write : PendingSessionWrite) (rest : Appending)
  /-- `waitForIdle`, with the promise that it awaits and the runs in progress when it was called. -/
  | wait (promise : Option Nat) (runs : List Nat)

/-- What a call waits for. -/
inductive CallInput
  | run (input : RunInput)
  | append (input : AppendInput)
  /-- `compact` has made a compaction. -/
  | compaction (data : CompactionData)
  /-- `navigateTree` moves the leaf. -/
  | move (id timestamp : String) (entryId : Option String) (summary : Option MoveSummary)
  | settle

/-- The model after a write. -/
def PendingSessionWrite.setModel : PendingSessionWrite → ModelRef → ModelRef
  | .modelChange provider modelId, _ => ⟨provider, modelId⟩
  | _, model => model

/-- One step of a call; without a call left it has settled. -/
def Call.step (h : AgentHarness) (moment : Moment) :
    Call → CallInput → Option (AgentHarness × Option Call)
  | .run number stage, .run input =>
    (stage.step h number moment input).map fun (h, stage) => (h, stage.map (Call.run number))
  | .compact .preparing, .compaction data =>
    some (h, some (.compact (.appending (.naming (.compaction data)))))
  | .compact (.appending rest), .append input =>
    (rest.step h.session input).map fun
      | (session, .pending rest) =>
        ({ h with session := session }, some (.compact (.appending rest)))
      | (session, .done) => ({ h with session := session }, some (.compact .announcing))
      | (session, .threw) => ({ h with session := session, phase := .idle }, none)
  | .compact .preparing, .settle => some ({ h with phase := .idle }, none)
  | .compact .announcing, .settle => some ({ h with phase := .idle }, none)
  | .navigateTree false, .move id timestamp entryId summary =>
    match h.session.moveTo id timestamp entryId summary with
    | .ok session => some ({ h with session := session }, some (.navigateTree true))
    | .error _ => some ({ h with phase := .idle }, none)
  | .navigateTree _, .settle => some ({ h with phase := .idle }, none)
  | .write w rest, .append input =>
    (rest.step h.session input).map fun
      | (session, .pending rest) => ({ h with session := session }, some (.write w rest))
      | (session, .done) => ({ h with session := session, model := w.setModel h.model }, none)
      | (session, .threw) => ({ h with session := session }, none)
  | .wait promise _, .settle =>
    match promise with
    | some number => if h.resolved.contains number then some (h, none) else none
    | none => some (h, none)
  | _, _ => none

/-- The harness and the calls on it that are under way. -/
structure System where
  harness : AgentHarness
  calls : List Call
  /-- The number of the next run. -/
  nextRun : Nat
  /-- The number of the next array. -/
  nextArray : Nat

/-- A call, or a step of one. -/
inductive Action
  /-- `prompt`, `skill` or `promptFromTemplate` -/
  | prompt
  | compact
  | navigateTree
  | steer (message : AgentMessage)
  | followUp (message : AgentMessage)
  | nextTurn (message : AgentMessage)
  | write (write : PendingSessionWrite)
  | abort
  | waitForIdle
  | step (index : Nat) (input : CallInput) (moment : Moment)

/-- The number of the run of a call. -/
def Call.run? : Call → Option Nat
  | .run number _ => some number
  | _ => none

/-- The runs in progress. -/
def System.runs (s : System) : List Nat := s.calls.filterMap Call.run?

/-- A call that needs an idle harness; otherwise it throws at once. -/
def System.start (s : System) (phase : Phase) (call : Call) : System :=
  if s.harness.phase = .idle then
    { s with harness := { s.harness with phase := phase }, calls := s.calls ++ [call] }
  else s

/-- Adds a message to a queue. -/
def AgentHarness.push (h : AgentHarness) (message : AgentMessage) (name : QueueName) :
    AgentHarness :=
  let queue := h.queue name
  h.setQueue { queue with messages := queue.messages ++ [message] } name

/-- One step of the system. -/
def System.step (s : System) : Action → Option System
  | .prompt =>
    let promised := { s with
      harness := if s.harness.phase = Phase.idle then
          { s.harness with runPromise := some s.nextRun }
        else s.harness
      nextRun := s.nextRun + 1 }
    some (promised.start .turn (.run s.nextRun .creating))
  | .compact => some (s.start .compaction (.compact .preparing))
  | .navigateTree => some (s.start .branchSummary (.navigateTree false))
  | .steer m =>
    if s.harness.phase = .idle then some s
    else some { s with harness := s.harness.push m .steer }
  | .followUp m =>
    if s.harness.phase = .idle then some s
    else some { s with harness := s.harness.push m .followUp }
  | .nextTurn m =>
    some { s with harness := { s.harness with nextTurnQueue := s.harness.nextTurnQueue ++ [m] } }
  | .write write =>
    if s.harness.phase = .idle then
      some { s with calls := s.calls ++ [.write write (.naming write.body)] }
    else
      some { s with harness := { s.harness with
        pendingSessionWrites := s.harness.pendingSessionWrites ++ [write]
        model := write.setModel s.harness.model } }
  | .abort =>
    some { s with
      harness := { s.harness with
        steerQueue := ⟨s.nextArray, []⟩
        followUpQueue := ⟨s.nextArray + 1, []⟩
        aborted := s.harness.runAbortController.toList ++ s.harness.aborted }
      nextArray := s.nextArray + 2 }
  | .waitForIdle =>
    some { s with calls := s.calls ++ [.wait s.harness.runPromise s.runs] }
  | .step index input moment =>
    match s.calls[index]? with
    | none => none
    | some call =>
      (call.step s.harness moment input).map fun
        | (harness, some call) => { s with harness := harness, calls := s.calls.set index call }
        | (harness, none) => { s with harness := harness, calls := s.calls.eraseIdx index }

/-- A harness on a session, before any call. -/
def System.initial (session : Storage) (model : ModelRef) (steeringMode followUpMode : QueueMode) :
    System where
  harness := {
    session := session
    phase := .idle
    runAbortController := none
    runPromise := none
    pendingSessionWrites := []
    model := model
    steerQueue := ⟨0, []⟩
    followUpQueue := ⟨1, []⟩
    steeringQueueMode := steeringMode
    followUpQueueMode := followUpMode
    nextTurnQueue := []
    aborted := []
    resolved := [] }
  calls := []
  nextRun := 0
  nextArray := 2

/-- The state after a sequence of actions. -/
def System.after (s : System) (actions : List Action) : Option System :=
  actions.foldlM System.step s

/-- A step of a call changes the harness and that call. -/
theorem System.step_call {s s' : System} {moment : Moment} {index : Nat} {input : CallInput}
    (hs : s.step (.step index input moment) = some s') :
    ∃ pre call post next, s.calls = pre ++ call :: post ∧ s.calls[index]? = some call ∧
      call.step s.harness moment input = some (s'.harness, next) ∧
      s'.calls = pre ++ next.toList ++ post ∧ s'.nextRun = s.nextRun ∧
      s'.nextArray = s.nextArray := by
  unfold System.step at hs
  dsimp only at hs
  split at hs
  · cases hs
  · next call hcall =>
    obtain ⟨hlt, hget⟩ := List.getElem?_eq_some_iff.1 hcall
    have hsplit : s.calls = s.calls.take index ++ call :: s.calls.drop (index + 1) := by
      rw [← hget, List.getElem_cons_drop, List.take_append_drop]
    obtain ⟨⟨harness, next⟩, hstep, heq⟩ := Option.map_eq_some_iff.1 hs
    refine ⟨_, call, _, next, hsplit, hcall, ?_⟩
    cases next with
    | some call' =>
      cases heq
      refine ⟨hstep, ?_, rfl, rfl⟩
      change s.calls.set index call' = _
      rw [List.set_eq_take_append_cons_drop, if_pos hlt]
      simp
    | none =>
      cases heq
      refine ⟨hstep, ?_, rfl, rfl⟩
      change s.calls.eraseIdx index = _
      rw [List.eraseIdx_eq_take_drop_succ]
      simp

end BeauPi.Harness
