import BeauPi.Background.Types

/-!
# Monitoring: the data

The records of `core/monitor/types.ts`, as far as `MonitorRuntime` uses them outside the
reading of logs, and what adapters, tools and sub-agents report.
-/

namespace BeauPi.Monitor

export Background (MonitorStatus)

/-- `isMonitorTerminal`. -/
def isMonitorTerminal : MonitorStatus → Bool
  | .completed | .failed | .cancelled | .lost => true
  | .starting | .running | .healthy | .stalled => false

/-- `MonitorEventReason`. -/
inductive MonitorEventReason
  | attached
  | started
  | activity
  | healthy
  | stalled
  | completed
  | failed
  | cancelled
  | timeout
  | targetLost
  | logMissing
  | skipped
  | stopped
  deriving DecidableEq, Repr

/-- The literal of an event reason. -/
def MonitorEventReason.name : MonitorEventReason → String
  | attached => "attached"
  | started => "started"
  | activity => "activity"
  | healthy => "healthy"
  | stalled => "stalled"
  | completed => "completed"
  | failed => "failed"
  | cancelled => "cancelled"
  | timeout => "timeout"
  | targetLost => "target_lost"
  | logMissing => "log_missing"
  | skipped => "skipped"
  | stopped => "stopped"

/-- Why a tool is monitored. -/
inductive ToolAttachment
  | explicit
  | longRunning
  deriving DecidableEq, Repr

/-- `MonitorTarget` without its log path.  The runtime looks into the target of a tool only;
what identifies the other targets is one text here. -/
inductive MonitorSubject
  | process (pid : Nat)
  | tool (toolCallId : String) (toolName : Option String) (attachment : Option ToolAttachment)
  | subAgent (taskId : String) (profile : Option String)
  | sshTmux (identity : String)
  | workflow (workflowId : String) (nodeId : Option String)
  deriving DecidableEq, Repr

/-- `MonitorTarget`. -/
structure MonitorTarget where
  subject : MonitorSubject
  logPath : Option String
  deriving DecidableEq, Repr

/-- What an activity is about. -/
inductive MonitorActivityKind
  | turn
  | tool
  | agent
  | workflow
  deriving DecidableEq, Repr

/-- How an activity went. -/
inductive MonitorActivityOutcome
  | started
  | succeeded
  | failed
  deriving DecidableEq, Repr

/-- `Omit<MonitorActivityEvent, "sequence">`. -/
structure MonitorActivity where
  timestamp : ℚ
  kind : MonitorActivityKind
  turn : Option Nat
  toolName : Option String
  targetPath : Option String
  outcome : MonitorActivityOutcome
  message : String
  deriving DecidableEq, Repr

/-- `MonitorActivityEvent`. -/
structure MonitorActivityEvent where
  sequence : Nat
  activity : MonitorActivity
  deriving DecidableEq, Repr

/-- `MonitorRecord`, without the fields that only the reading of logs and the interface
use. -/
structure MonitorRecord where
  id : String
  sessionId : String
  target : MonitorTarget
  taskSummary : String
  createdAt : ℚ
  startedAt : Option ℚ
  completedAt : Option ℚ
  durationMs : ℚ
  lastActivityAt : ℚ
  status : MonitorStatus
  exitReason : Option String
  exitCode : Option ℚ
  resources : Option Json
  logPath : Option String
  stallTimeoutMs : Option ℚ
  timeoutMs : Option ℚ
  lastEventKey : Option String
  activityLog : List MonitorActivityEvent
  diagnostics : List String
  deriving DecidableEq, Repr

/-- `MonitorRecordInput`. -/
structure MonitorRecordInput where
  id : Option String
  sessionId : Option String
  target : MonitorTarget
  taskSummary : Option String
  createdAt : Option ℚ
  stallTimeoutMs : Option ℚ
  timeoutMs : Option ℚ
  deriving DecidableEq, Repr

/-- What a transition says about the end of the target. -/
structure ExitFacts where
  exitReason : Option String
  exitCode : Option ℚ
  deriving DecidableEq, Repr

/-- No facts: `{}`. -/
def ExitFacts.none : ExitFacts := ⟨.none, .none⟩

/-- `MonitorRecordUpdate`. -/
structure MonitorRecordUpdate where
  status : MonitorStatus
  reason : MonitorEventReason
  timestamp : Option ℚ
  exit : ExitFacts
  diagnostic : Option String
  activity : Option MonitorActivity
  deriving DecidableEq, Repr

/-- What an adapter knows about its target. -/
inductive Availability
  | confirmed
  | missing
  | unknown
  deriving DecidableEq, Repr

/-- `MonitorAdapterSnapshot`. -/
structure MonitorAdapterSnapshot where
  availability : Availability
  running : Option Bool
  healthy : Option Bool
  cancelled : Option Bool
  exitCode : Option ℚ
  exitReason : Option String
  lastActivityAt : Option ℚ
  resources : Option Json
  logPath : Option String
  diagnostics : List String
  deriving DecidableEq, Repr

/-- `MonitorStopResult`. -/
structure MonitorStopResult where
  accepted : Bool
  reason : Option String
  deriving DecidableEq, Repr

/-- `MonitorLifecycleEvent`, as far as it depends on the transition. -/
structure MonitorLifecycleEvent where
  monitorId : String
  status : MonitorStatus
  previousStatus : Option MonitorStatus
  reason : MonitorEventReason
  timestamp : ℚ
  exit : ExitFacts
  deriving DecidableEq, Repr

/-- The types of `AgentLifecycleEvent`. -/
inductive AgentEventType
  | started
  | running
  | progress
  | completed
  | cancelled
  | timedOut
  | failed
  deriving DecidableEq, Repr

/-- The literal of an event type. -/
def AgentEventType.name : AgentEventType → String
  | started => "started"
  | running => "running"
  | progress => "progress"
  | completed => "completed"
  | cancelled => "cancelled"
  | timedOut => "timed_out"
  | failed => "failed"

/-- What a sub-agent was doing last. -/
structure AgentActivity where
  toolName : Option String
  targetPath : Option String
  deriving DecidableEq, Repr

/-- `AgentLifecycleEvent`, as far as the monitor reads it; `turnsUsed` is present exactly
if the event has a budget. -/
structure AgentLifecycleEvent where
  type : AgentEventType
  taskId : String
  profile : String
  taskSummary : String
  timestamp : ℚ
  message : Option String
  turn : Option Nat
  activity : AgentActivity
  outcome : Option MonitorActivityOutcome
  errorCode : Option String
  errorMessage : Option String
  turnsUsed : Option Nat
  lastActivity : AgentActivity
  deriving DecidableEq, Repr

/-- `monitorStatusForAgentEvent`. -/
def monitorStatusForAgentEvent (event : AgentLifecycleEvent) :
    MonitorStatus × MonitorEventReason × ExitFacts :=
  match event.type with
  | .started => (.starting, .attached, .none)
  | .running => (.running, .started, .none)
  | .progress => (.healthy, .activity, .none)
  | .completed => (.completed, .completed, .none)
  | .cancelled => (.cancelled, .cancelled, ⟨some (event.errorCode.getD "cancelled"), none⟩)
  | .timedOut => (.failed, .timeout, ⟨some (event.errorCode.getD "timed_out"), none⟩)
  | .failed => (.failed, .failed, ⟨some (event.errorCode.getD "agent_failed"), none⟩)

/-- `PendingToolExecution`. -/
structure PendingToolExecution where
  toolCallId : String
  toolName : String
  startedAt : ℚ
  lastActivityAt : ℚ
  deriving DecidableEq, Repr

end BeauPi.Monitor
