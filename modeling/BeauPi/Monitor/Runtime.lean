import BeauPi.Monitor.Types
import BeauPi.Machine.OrderedMap

/-!
# Monitoring: the runtime

The sections of `core/monitor/monitor-runtime.ts` that execute without suspending.  The
runtime works on record objects that it keeps across suspensions, while the registry may be
cleared and filled again, so records live in cells here and everything that suspends refers
to a cell.

* `transition` — the state machine of one record.
* `MonitorSystem` — the cells, the registry, the branch of the session, the queue of
  lifecycle events and the calls of adapters that have not answered.
* `attach`, `update`, `applyAdapterSnapshot`, `checkStalled`, `handleAgentEvent`,
  `handleAgentLifecycleEvent`, `rebuild` — the methods.
* `Event`, `step` — everything that can happen between two suspensions.
-/

namespace BeauPi.Monitor

open Machine

/-! ## Transitions -/

/-- `transitionAllowed`. -/
def transitionAllowed (src dst : MonitorStatus) : Bool :=
  if src = dst then true
  else if isMonitorTerminal src then false
  else match src with
    | .starting => [.running, .healthy, .completed, .failed, .cancelled, .lost].contains dst
    | .running => [.healthy, .stalled, .completed, .failed, .cancelled, .lost].contains dst
    | .healthy => [.running, .stalled, .completed, .failed, .cancelled, .lost].contains dst
    | .stalled => [.running, .healthy, .completed, .failed, .cancelled, .lost].contains dst
    | _ => false

/-- The text that identifies an event of a record. -/
def eventKey (status : MonitorStatus) (reason : MonitorEventReason) (exit : ExitFacts) : String :=
  status.name ++ ":" ++ (reason.name ++ ":" ++ exit.exitReason.getD "" ++ ":" ++
    (exit.exitCode.map fun code => String.ofList (Json.numberText code)).getD "")

/-- The facts about the end of the target that a record holds. -/
def MonitorRecord.exit (record : MonitorRecord) : ExitFacts :=
  ⟨record.exitReason, record.exitCode⟩

/-- What a transition does: the record, whether its status changed, and whether the
transition is persisted and emitted. -/
structure Transition where
  record : MonitorRecord
  changed : Bool
  emits : Bool
  deriving DecidableEq, Repr

/-- `transition`, on the record. -/
def transition (record : MonitorRecord) (status : MonitorStatus) (reason : MonitorEventReason)
    (extra : ExitFacts) (timestamp : ℚ) : Transition :=
  if transitionAllowed record.status status = false then ⟨record, false, false⟩
  else
    let changed := decide (record.status ≠ status)
    let started : MonitorRecord :=
      if status = .running ∨ status = .healthy then
        { record with
          startedAt := some (record.startedAt.getD timestamp)
          lastActivityAt :=
            if record.startedAt = none ∨ reason = .activity then max record.lastActivityAt timestamp
            else record.lastActivityAt }
      else record
    let facts : MonitorRecord := { started with
      exitReason := extra.exitReason.or record.exitReason
      exitCode := extra.exitCode.or record.exitCode
      status := status }
    let ended : MonitorRecord :=
      if isMonitorTerminal status then
        let completedAt := record.completedAt.getD timestamp
        { facts with
          completedAt := some completedAt
          durationMs := max 0 (completedAt - facts.startedAt.getD facts.createdAt) }
      else facts
    let key := eventKey status reason ended.exit
    let emits := decide (ended.lastEventKey ≠ some key ∧ (changed = true ∨ status = .starting))
    ⟨if emits then { ended with lastEventKey := some key } else ended, changed, emits⟩

/-! ## The system -/

/-- Status, exit reason, exit code and time of completion of a record. -/
structure TerminalFacts where
  status : MonitorStatus
  exit : ExitFacts
  completedAt : Option ℚ
  deriving DecidableEq, Repr

def MonitorRecord.facts (record : MonitorRecord) : TerminalFacts :=
  ⟨record.status, record.exit, record.completedAt⟩

/-- A record object.  `supplied` keeps, for the statements about it, what the transition that
made the record terminal said, or what the record said when it was restored. -/
structure Cell where
  record : MonitorRecord
  supplied : Option TerminalFacts
  deriving DecidableEq, Repr

/-- A call of `transition`: the record it finds and what it is told. -/
structure TransitionCall where
  record : MonitorRecord
  status : MonitorStatus
  extra : ExitFacts
  deriving DecidableEq, Repr

/-- What leaves the runtime: an entry that is appended to the session, or an event that
listeners are given, with the cell it is about. -/
inductive Output
  | persisted (cell : Nat)
  | delivered (cell : Nat)
  deriving DecidableEq, Repr

/-- The cell an output is about. -/
def Output.cell : Output → Nat
  | .persisted cell | .delivered cell => cell

/-- A call of an adapter that has not answered, and what waits for it. -/
inductive AdapterCall
  /-- `pollOnce` in `adapter.poll` -/
  | poll (cell : Nat) (timestamp : ℚ)
  /-- `pollOnce` in `adapter.stop`, because the time is over -/
  | timeout (cell : Nat) (timestamp : ℚ)
  /-- `initialize` in `adapter.poll` -/
  | confirm (cell : Nat)
  /-- `stop` in `adapter.stop` -/
  | stop (cell : Nat)
  deriving DecidableEq, Repr

/-- The record object that a suspended operation holds. -/
def AdapterCall.cell : AdapterCall → Nat
  | .poll cell _ | .timeout cell _ | .confirm cell | .stop cell => cell

/-- The runtime and what surrounds it.  `calls` and `output` are histories. -/
structure MonitorSystem where
  sessionId : String
  defaultStallTimeoutMs : ℚ
  longRunningBashThresholdMs : ℚ
  cells : List Cell
  registry : OrderedMap String Nat
  pendingToolExecutions : OrderedMap String PendingToolExecution
  adapterCalls : List AdapterCall
  eventQueue : List (Nat × MonitorLifecycleEvent)
  branch : List MonitorRecord
  calls : List TransitionCall
  output : List Output

/-- What the runtime takes from outside: SHA-256 in the id of a monitor. -/
structure Host where
  stableMonitorId : String → MonitorTarget → String

namespace MonitorSystem

/-- The record object of a cell changes. -/
def modify (s : MonitorSystem) (cell : Nat) (change : MonitorRecord → MonitorRecord) :
    MonitorSystem :=
  { s with cells := s.cells.modify cell fun c => { c with record := change c.record } }

/-- `snapshot`. -/
def snapshot (now : ℚ) (record : MonitorRecord) : MonitorRecord :=
  { record with
    durationMs := max 0 (record.completedAt.getD now - record.startedAt.getD record.createdAt) }

/-- `persist`. -/
def persist (s : MonitorSystem) (now : ℚ) (cell : Nat) : MonitorSystem :=
  match s.cells[cell]? with
  | some c =>
    { s with branch := s.branch ++ [snapshot now c.record], output := s.output ++ [.persisted cell] }
  | none => s

/-- `addDiagnostic`; whether it is new. -/
def addDiagnostic (diagnostic : String) (record : MonitorRecord) : MonitorRecord × Bool :=
  if diagnostic.isEmpty || record.diagnostics.contains diagnostic then (record, false)
  else ({ record with diagnostics := record.diagnostics ++ [diagnostic] }, true)

/-- `MONITOR_ACTIVITY_LOG_LIMIT`. -/
def monitorActivityLogLimit : Nat := 32

/-- The record part of `appendActivity`. -/
def recordActivity (activity : MonitorActivity) (record : MonitorRecord) : MonitorRecord :=
  let sequence := (record.activityLog.getLast?.map (·.sequence)).getD 0 + 1
  let activityLog := record.activityLog ++ [⟨sequence, activity⟩]
  { record with
    activityLog := activityLog.drop (activityLog.length - monitorActivityLogLimit)
    lastActivityAt := max record.lastActivityAt activity.timestamp }

/-- `appendActivity`. -/
def appendActivity (s : MonitorSystem) (now : ℚ) (cell : Nat) (activity : MonitorActivity) :
    MonitorSystem :=
  (s.modify cell (recordActivity activity)).persist now cell

/-- The facts that a transition supplies, if it makes a record terminal. -/
def suppliedFacts (before after : MonitorRecord) (extra : ExitFacts) (timestamp : ℚ) :
    Option TerminalFacts :=
  if isMonitorTerminal before.status = false ∧ isMonitorTerminal after.status = true then
    some ⟨after.status, extra, some timestamp⟩
  else none

/-- `emitStatus`: the event is queued for the listeners. -/
def emitStatus (s : MonitorSystem) (cell : Nat) (record : MonitorRecord)
    (previousStatus : Option MonitorStatus) (reason : MonitorEventReason) (timestamp : ℚ) :
    MonitorSystem :=
  { s with eventQueue := s.eventQueue ++
      [(cell, ⟨record.id, record.status, previousStatus, reason, timestamp, record.exit⟩)] }

/-- `transition`; the flag says whether the status changed. -/
def transitionAt (s : MonitorSystem) (now : ℚ) (cell : Nat) (status : MonitorStatus)
    (reason : MonitorEventReason) (extra : ExitFacts) (timestamp : ℚ) : MonitorSystem × Bool :=
  match s.cells[cell]? with
  | none => (s, false)
  | some c =>
    let result := transition c.record status reason extra timestamp
    let moved := { s with
      cells := s.cells.set cell
        { record := result.record
          supplied := (suppliedFacts c.record result.record extra timestamp).or c.supplied }
      calls := s.calls ++ [⟨c.record, status, extra⟩] }
    if result.emits then
      ((moved.persist now cell).emitStatus cell result.record
        (if c.record.status = status then none else some c.record.status) reason timestamp,
        result.changed)
    else (moved, result.changed)

/-- `defaultSummary`. -/
def defaultSummary (target : MonitorTarget) : String :=
  match target.subject with
  | .process pid => "Monitor local process " ++ toString pid
  | .tool toolCallId toolName _ => "Monitor Tool " ++ toolName.getD toolCallId
  | .subAgent taskId profile => "Monitor sub-agent " ++ profile.getD taskId
  | .sshTmux _ => "Monitor SSH/tmux target"
  | .workflow workflowId nodeId =>
    match nodeId with
    | some nodeId => if nodeId.isEmpty then "Monitor Workflow " ++ workflowId
      else "Monitor Workflow node " ++ nodeId
    | none => "Monitor Workflow " ++ workflowId

/-- The record that `attach` makes. -/
def newRecord (s : MonitorSystem) (id : String) (input : MonitorRecordInput) (timestamp : ℚ) :
    MonitorRecord where
  id := id
  sessionId := s.sessionId
  target := input.target
  taskSummary :=
    let summary := (input.taskSummary.map Js.trim).getD ""
    if summary.isEmpty then defaultSummary input.target else summary
  createdAt := timestamp
  startedAt := none
  completedAt := none
  durationMs := 0
  lastActivityAt := timestamp
  status := .starting
  exitReason := none
  exitCode := none
  resources := none
  logPath := input.target.logPath
  stallTimeoutMs := some (input.stallTimeoutMs.getD s.defaultStallTimeoutMs)
  timeoutMs := input.timeoutMs
  lastEventKey := none
  activityLog := []
  diagnostics := []

/-- A new record object that is registered under its id. -/
def register (s : MonitorSystem) (cell : Cell) : MonitorSystem :=
  { s with
    cells := s.cells ++ [cell]
    registry := s.registry.set cell.record.id s.cells.length }

variable (host : Host)

/-- `attach`: the cell of the record, or `none` if it throws. -/
def attach (s : MonitorSystem) (now : ℚ) (input : MonitorRecordInput) :
    MonitorSystem × Option Nat :=
  if input.sessionId.any fun sessionId => sessionId ≠ s.sessionId then (s, none)
  else
    let timestamp := input.createdAt.getD now
    let id := input.id.getD (host.stableMonitorId s.sessionId input.target)
    match s.registry.get? id with
    | some cell => (s, some cell)
    | none =>
      let registered := s.register ⟨s.newRecord id input timestamp, none⟩
      ((registered.transitionAt now s.cells.length .starting .attached .none timestamp).1,
        some s.cells.length)

/-- `update`; nothing happens for an unknown id. -/
def update (s : MonitorSystem) (now : ℚ) (monitorId : String) (update : MonitorRecordUpdate) :
    MonitorSystem :=
  match s.registry.get? monitorId with
  | none => s
  | some cell =>
    let added := (s.cells[cell]?).elim false fun c =>
      (addDiagnostic (update.diagnostic.getD "") c.record).2
    let diagnosed := s.modify cell fun record =>
      (addDiagnostic (update.diagnostic.getD "") record).1
    let active := match update.activity with
      | some activity => diagnosed.appendActivity now cell activity
      | none => diagnosed
    let (moved, changed) := active.transitionAt now cell update.status update.reason update.exit
      (update.timestamp.getD now)
    if added && !changed then moved.persist now cell else moved

/-- A new log path. -/
def noteLogPath (answer : MonitorAdapterSnapshot) (record : MonitorRecord) :
    MonitorRecord × Bool :=
  match answer.logPath with
  | some path =>
    if path.isEmpty = false ∧ record.logPath ≠ some path then
      ({ record with logPath := some path, target := { record.target with logPath := some path } },
        true)
    else (record, false)
  | none => (record, false)

/-- New resources. -/
def noteResources (answer : MonitorAdapterSnapshot) (noted : MonitorRecord × Bool) :
    MonitorRecord × Bool :=
  if answer.resources.isSome ∧ noted.1.resources ≠ answer.resources then
    ({ noted.1 with resources := answer.resources }, true)
  else noted

/-- One new diagnostic. -/
def noteDiagnostic (noted : MonitorRecord × Bool) (diagnostic : String) : MonitorRecord × Bool :=
  let (record, added) := addDiagnostic diagnostic noted.1
  (record, added || noted.2)

/-- A later activity. -/
def noteActivity (answer : MonitorAdapterSnapshot) (noted : MonitorRecord × Bool) :
    MonitorRecord × Bool :=
  match answer.lastActivityAt with
  | some lastActivityAt =>
    if noted.1.lastActivityAt < lastActivityAt then
      ({ noted.1 with lastActivityAt := lastActivityAt }, true)
    else noted
  | none => noted

/-- The first part of `applyAdapterSnapshot`: what a snapshot says apart from the status, and
whether any of it is new. -/
def adapterFacts (answer : MonitorAdapterSnapshot) (record : MonitorRecord) :
    MonitorRecord × Bool :=
  noteActivity answer
    (answer.diagnostics.foldl noteDiagnostic (noteResources answer (noteLogPath answer record)))

/-- The transition that an adapter snapshot asks for, if it asks for one. -/
def adapterTransition (answer : MonitorAdapterSnapshot) (record : MonitorRecord) :
    Option (MonitorStatus × MonitorEventReason × ExitFacts) :=
  match answer.running with
  | some false =>
    let status : MonitorStatus :=
      if answer.cancelled = some true then .cancelled
      else if answer.exitCode = some 0 then .completed else .failed
    let reason : MonitorEventReason :=
      if status = .cancelled then .cancelled
      else if status = .completed then .completed else .failed
    some (status, reason, ⟨some (answer.exitReason.getD
      (if status = .completed then "exit_0" else "exit_nonzero")), answer.exitCode⟩)
  | none => none
  | some true =>
    if record.status = .stalled ∧
        (answer.lastActivityAt.all fun lastActivityAt => lastActivityAt ≤ record.lastActivityAt)
    then none
    else if answer.healthy = some true then some (.healthy, .healthy, .none)
    else some (.running, .started, .none)

/-- `applyAdapterSnapshot`. -/
def applyAdapterSnapshot (s : MonitorSystem) (now : ℚ) (cell : Nat)
    (answer : MonitorAdapterSnapshot) (timestamp : ℚ) : MonitorSystem :=
  match s.cells[cell]? with
  | none => s
  | some c =>
    let (record, factsChanged) := adapterFacts answer c.record
    let updated := s.modify cell fun _ => record
    match adapterTransition answer record with
    | some (status, reason, extra) =>
      let (moved, changed) := updated.transitionAt now cell status reason extra timestamp
      if factsChanged && !changed then moved.persist now cell else moved
    | none => if factsChanged then updated.persist now cell else updated

/-- `checkStalled`. -/
def checkStalled (s : MonitorSystem) (now : ℚ) (cell : Nat) (timestamp : ℚ) : MonitorSystem :=
  match s.cells[cell]? with
  | none => s
  | some c =>
    match c.record.stallTimeoutMs with
    | none => s
    | some stallTimeoutMs =>
      if isMonitorTerminal c.record.status then s
      else if stallTimeoutMs ≤ timestamp - c.record.lastActivityAt then
        (s.transitionAt now cell .stalled .stalled ⟨some "no_activity", none⟩ timestamp).1
      else if c.record.status = .stalled then
        (s.transitionAt now cell .healthy .activity .none timestamp).1
      else s

/-- `findTool`. -/
def findTool (s : MonitorSystem) (toolCallId : String) : Option Nat :=
  s.registry.values.find? fun cell => (s.cells[cell]?).elim false fun c =>
    match c.record.target.subject with
    | .tool callId _ _ => callId == toolCallId
    | _ => false

/-- The record of a tool that runs long, attached if it is not yet. -/
def longRunningRecord (s : MonitorSystem) (now : ℚ) (pending : PendingToolExecution) :
    MonitorSystem × Option Nat :=
  match s.findTool pending.toolCallId with
  | some cell => (s, some cell)
  | none => s.attach host now
    { id := none, sessionId := none
      target := ⟨.tool pending.toolCallId (some pending.toolName) (some .longRunning), none⟩
      taskSummary := some (pending.toolName ++ " long-running Tool execution")
      createdAt := some pending.startedAt, stallTimeoutMs := none, timeoutMs := none }

/-- What is known of the run of the tool so far. -/
def noteRun (s : MonitorSystem) (now : ℚ) (cell : Nat) (pending : PendingToolExecution) :
    MonitorSystem :=
  let running := (s.transitionAt now cell .running .started .none pending.startedAt).1
  if (running.cells[cell]?).elim false fun c =>
      c.record.lastActivityAt < pending.lastActivityAt then
    ((running.modify cell fun record =>
      { record with lastActivityAt := pending.lastActivityAt }).transitionAt now cell .healthy
        .activity .none pending.lastActivityAt).1
  else running

/-- `promoteLongRunningBash`: the cell of the tool's record, if it has one then. -/
def promoteLongRunningBash (s : MonitorSystem) (now : ℚ) (pending : PendingToolExecution)
    (timestamp : ℚ) : MonitorSystem × Option Nat :=
  if timestamp - pending.startedAt < s.longRunningBashThresholdMs then
    (s, s.findTool pending.toolCallId)
  else
    let (attached, cell) := s.longRunningRecord host now pending
    match cell with
    | some cell => (attached.noteRun now cell pending, some cell)
    | none => (attached, none)

/-- The loop of `pollOnce` over the tools that have not ended. -/
def promoteAll (s : MonitorSystem) (now : ℚ) : MonitorSystem :=
  s.pendingToolExecutions.values.foldl
    (fun t pending => (t.promoteLongRunningBash host now pending now).1) s

/-! ### Tools and sub-agents -/

/-- `handleAgentEvent` for the start of a tool. -/
def toolStarted (s : MonitorSystem) (now : ℚ) (toolCallId toolName : String) : MonitorSystem :=
  match s.findTool toolCallId with
  | some cell => (s.transitionAt now cell .running .started .none now).1
  | none =>
    if toolName = "bash" then
      { s with pendingToolExecutions :=
          s.pendingToolExecutions.set toolCallId ⟨toolCallId, toolName, now, now⟩ }
    else s

/-- The record of a tool, promoted if it runs long enough. -/
def toolRecord (s : MonitorSystem) (now : ℚ) (toolCallId : String)
    (pending : Option PendingToolExecution) : MonitorSystem × Option Nat :=
  match s.findTool toolCallId with
  | some cell => (s, some cell)
  | none =>
    match pending with
    | some pending => s.promoteLongRunningBash host now pending now
    | none => (s, none)

/-- `handleAgentEvent` for an update of a tool. -/
def toolUpdated (s : MonitorSystem) (now : ℚ) (toolCallId : String) : MonitorSystem :=
  let pending := (s.pendingToolExecutions.get? toolCallId).map fun pending =>
    { pending with lastActivityAt := now }
  let noted := match pending with
    | some pending =>
      { s with pendingToolExecutions := s.pendingToolExecutions.set toolCallId pending }
    | none => s
  let (found, cell) := noted.toolRecord host now toolCallId pending
  match cell with
  | none => found
  | some cell =>
    ((found.modify cell fun record => { record with lastActivityAt := now }).transitionAt now cell
      .healthy .activity .none now).1

/-- How a tool ended. -/
inductive ToolEnd
  | completed
  | failed
  | cancelled
  deriving DecidableEq, Repr

/-- The transition for the end of a tool. -/
def ToolEnd.transition : ToolEnd → MonitorStatus × MonitorEventReason × ExitFacts
  | .cancelled => (.cancelled, .cancelled, ⟨some "cancelled", none⟩)
  | .failed => (.failed, .failed, ⟨some "tool_error", none⟩)
  | .completed => (.completed, .completed, ⟨some "tool_completed", none⟩)

/-- `handleAgentEvent` for the end of a tool. -/
def toolEnded (s : MonitorSystem) (now : ℚ) (toolCallId : String) (ended : ToolEnd) :
    MonitorSystem :=
  let pending := s.pendingToolExecutions.get? toolCallId
  let removed := { s with pendingToolExecutions := s.pendingToolExecutions.delete toolCallId }
  let (found, cell) := removed.toolRecord host now toolCallId pending
  match cell with
  | none => found
  | some cell =>
    let (status, reason, extra) := ended.transition
    (found.transitionAt now cell status reason extra now).1

/-- The activity that a progress event stands for. -/
def progressActivity (event : AgentLifecycleEvent) : Option MonitorActivity :=
  if event.type = .progress then
    event.message.bind fun message =>
      if message.isEmpty then none
      else some {
        timestamp := event.timestamp
        kind := if (event.activity.toolName.getD "").isEmpty then .turn else .tool
        turn := event.turn, toolName := event.activity.toolName
        targetPath := event.activity.targetPath, outcome := event.outcome.getD .started
        message := message }
  else none

/-- The activity that the end of a sub-agent stands for. -/
def budgetActivity (event : AgentLifecycleEvent) : Option MonitorActivity :=
  event.turnsUsed.map fun turnsUsed => {
    timestamp := event.timestamp, kind := .agent, turn := some turnsUsed
    toolName := event.lastActivity.toolName, targetPath := event.lastActivity.targetPath
    outcome := if event.type = .completed then .succeeded else .failed
    message := event.errorCode.getD event.type.name }

/-- The activity of a progress event is noted. -/
def noteProgress (s : MonitorSystem) (now : ℚ) (cell : Nat) (event : AgentLifecycleEvent) :
    MonitorSystem :=
  match progressActivity event with
  | some activity => s.appendActivity now cell activity
  | none => s

/-- The error and the activity of a terminal event are noted. -/
def noteBudget (s : MonitorSystem) (now : ℚ) (cell : Nat) (event : AgentLifecycleEvent) :
    MonitorSystem :=
  match budgetActivity event with
  | some activity =>
    (s.modify cell fun record =>
      (addDiagnostic (event.errorMessage.getD "") record).1).appendActivity now cell activity
  | none => s

/-- `handleAgentLifecycleEvent`. -/
def handleAgentLifecycleEvent (s : MonitorSystem) (now : ℚ) (event : AgentLifecycleEvent) :
    MonitorSystem :=
  let (status, reason, extra) := monitorStatusForAgentEvent event
  let (attached, cell) := s.attach host now
    { id := none, sessionId := none, target := ⟨.subAgent event.taskId (some event.profile), none⟩
      taskSummary := some event.taskSummary, createdAt := none, stallTimeoutMs := none
      timeoutMs := none }
  match cell with
  | none => attached
  | some cell =>
    (((attached.noteProgress now cell event).noteBudget now cell event).transitionAt now cell status
      reason extra event.timestamp).1

/-! ### Calls of adapters -/

/-- The loop of `pollOnce` reaches a record: an adapter is called unless the record has
ended. -/
def visit (s : MonitorSystem) (cell : Nat) (timestamp : ℚ) : MonitorSystem :=
  match s.cells[cell]? with
  | none => s
  | some c =>
    if isMonitorTerminal c.record.status then s
    else if c.record.timeoutMs.any fun timeoutMs =>
        timeoutMs ≤ timestamp - c.record.startedAt.getD c.record.createdAt then
      { s with adapterCalls := s.adapterCalls ++ [.timeout cell timestamp] }
    else { s with adapterCalls := s.adapterCalls ++ [.poll cell timestamp] }

/-- The loop of `initialize`, or `stop`, reaches a record. -/
def callAdapter (s : MonitorSystem) (cell : Nat) (call : AdapterCall) : MonitorSystem :=
  match s.cells[cell]? with
  | none => s
  | some c =>
    if isMonitorTerminal c.record.status then s
    else { s with adapterCalls := s.adapterCalls ++ [call] }

/-- What an adapter answers. -/
inductive AdapterAnswer
  | snapshot (snapshot : MonitorAdapterSnapshot)
  | stopped (result : MonitorStopResult)
  /-- the promise is rejected -/
  | rejected
  deriving DecidableEq, Repr

/-- What follows the answer of an adapter. -/
def proceed (s : MonitorSystem) (now : ℚ) : AdapterCall → AdapterAnswer → MonitorSystem
  | .poll cell timestamp, .snapshot answer =>
    match answer.availability with
    | .missing =>
      (s.transitionAt now cell .lost .targetLost
        ⟨some (answer.exitReason.getD "target_missing"), none⟩ timestamp).1
    | .confirmed =>
      (s.applyAdapterSnapshot now cell answer timestamp).checkStalled now cell timestamp
    | .unknown => s.checkStalled now cell timestamp
  | .timeout cell timestamp, .stopped _ =>
    (s.transitionAt now cell .failed .timeout ⟨some "monitor_timeout", none⟩ timestamp).1
  | .confirm cell, .snapshot answer =>
    match answer.availability with
    | .missing | .unknown =>
      (s.transitionAt now cell .lost .targetLost
        ⟨some (answer.exitReason.getD "state_unconfirmed_after_restore"), none⟩ now).1
    | .confirmed => (s.applyAdapterSnapshot now cell answer now).checkStalled now cell now
  | .stop cell, .stopped result =>
    if result.accepted then
      (s.transitionAt now cell .cancelled .stopped ⟨result.reason, none⟩ now).1
    else s
  | _, _ => s

/-! ### Restoring a branch -/

/-- `shouldRestoreRecord`. -/
def shouldRestoreRecord (s : MonitorSystem) (record : MonitorRecord) : Bool :=
  match record.target.subject with
  | .tool _ toolName attachment =>
    if attachment.isSome then true
    else if record.taskSummary ≠ toolName.getD "tool" ++ " Tool execution" then true
    else toolName = some "bash" && s.longRunningBashThresholdMs ≤ record.durationMs
  | _ => true

/-- What a restored record says about the end of its target. -/
def restoredCell (record : MonitorRecord) : Cell :=
  ⟨record, if isMonitorTerminal record.status then some record.facts else none⟩

/-- `restoreRecords`, for the records that the entries of a branch hold. -/
def restoreRecords (s : MonitorSystem) (entries : List MonitorRecord) : MonitorSystem :=
  entries.foldl (fun t record =>
    if record.sessionId = t.sessionId && t.shouldRestoreRecord record then
      t.register (restoredCell record)
    else t) s

/-- `rebuild` up to the call of `initialize`, when the session has moved to the branch. -/
def rebuild (s : MonitorSystem) (entries : List MonitorRecord) : MonitorSystem :=
  restoreRecords { s with
    registry := .empty, pendingToolExecutions := .empty, branch := entries } entries

/-- The constructor. -/
def construct (sessionId : String) (defaultStallTimeoutMs longRunningBashThresholdMs : ℚ)
    (entries : List MonitorRecord) : MonitorSystem :=
  restoreRecords
    { sessionId, defaultStallTimeoutMs, longRunningBashThresholdMs, cells := []
      registry := .empty, pendingToolExecutions := .empty, adapterCalls := [], eventQueue := []
      branch := entries, calls := [], output := [] } entries

end MonitorSystem

/-! ## The events -/

/-- What can happen next. -/
inductive Event
  | attach (now : ℚ) (input : MonitorRecordInput)
  | update (now : ℚ) (monitorId : String) (update : MonitorRecordUpdate)
  /-- `pollOnce` starts: tools that run long are promoted -/
  | promote (now : ℚ)
  /-- the loop of `pollOnce` reaches a registered record -/
  | visit (monitorId : String) (timestamp : ℚ)
  /-- the loop of `initialize` reaches a registered record -/
  | confirm (monitorId : String)
  /-- `stop` is called -/
  | stop (monitorId : String)
  /-- an adapter answers -/
  | answer (now : ℚ) (call : Nat) (answer : MonitorSystem.AdapterAnswer)
  | toolStarted (now : ℚ) (toolCallId toolName : String)
  | toolUpdated (now : ℚ) (toolCallId : String)
  | toolEnded (now : ℚ) (toolCallId : String) (ended : MonitorSystem.ToolEnd)
  | lifecycle (now : ℚ) (event : AgentLifecycleEvent)
  /-- the listeners are given the oldest event of the queue -/
  | deliver
  /-- the session has moved to another branch -/
  | rebuild (entries : List MonitorRecord)

variable (host : Host)

/-- One step; `none` if the event cannot happen. -/
def step (s : MonitorSystem) : Event → Option MonitorSystem
  | .attach now input => some (s.attach host now input).1
  | .update now monitorId update => some (s.update now monitorId update)
  | .promote now => some (s.promoteAll host now)
  | .visit monitorId timestamp => (s.registry.get? monitorId).map fun cell => s.visit cell timestamp
  | .confirm monitorId =>
    (s.registry.get? monitorId).map fun cell => s.callAdapter cell (.confirm cell)
  | .stop monitorId => (s.registry.get? monitorId).map fun cell => s.callAdapter cell (.stop cell)
  | .answer now index answer =>
    (s.adapterCalls[index]?).map fun call =>
      MonitorSystem.proceed { s with adapterCalls := s.adapterCalls.eraseIdx index } now call answer
  | .toolStarted now toolCallId toolName => some (s.toolStarted now toolCallId toolName)
  | .toolUpdated now toolCallId => some (s.toolUpdated host now toolCallId)
  | .toolEnded now toolCallId ended => some (s.toolEnded host now toolCallId ended)
  | .lifecycle now event => some (s.handleAgentLifecycleEvent host now event)
  | .deliver =>
    match s.eventQueue with
    | [] => none
    | (cell, _) :: rest =>
      some { s with eventQueue := rest, output := s.output ++ [.delivered cell] }
  | .rebuild entries => some (s.rebuild entries)

end BeauPi.Monitor
