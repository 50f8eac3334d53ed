import BeauPi.Js.Json
import BeauPi.Js.Text

/-!
# Background tasks: the data

The records of `core/background/types.ts` that the background runtime keeps and
persists, and what it reads of the records of the monitor.  The field `version` is
always `1`; it is written and checked by the schemas.
-/

namespace BeauPi.Background

/-- `MonitorStatus`. -/
inductive MonitorStatus
  | starting
  | running
  | healthy
  | stalled
  | completed
  | failed
  | cancelled
  | lost
  deriving DecidableEq, Repr

/-- The literal of a monitor status. -/
def MonitorStatus.name : MonitorStatus → String
  | starting => "starting"
  | running => "running"
  | healthy => "healthy"
  | stalled => "stalled"
  | completed => "completed"
  | failed => "failed"
  | cancelled => "cancelled"
  | lost => "lost"

/-- `BackgroundTriggerType`, which is also `BackgroundWakeReason`. -/
inductive BackgroundWakeReason
  | completed
  | failed
  | timeout
  | stalled
  | errorPattern
  | progressReview
  deriving DecidableEq, Repr

/-- The literal of a wake reason. -/
def BackgroundWakeReason.name : BackgroundWakeReason → String
  | completed => "completed"
  | failed => "failed"
  | timeout => "timeout"
  | stalled => "stalled"
  | errorPattern => "error-pattern"
  | progressReview => "progress-review"

/-- `BackgroundWakeState`. -/
inductive BackgroundWakeState
  | queued
  | delivered
  | consumed
  | cancelled
  deriving DecidableEq, Repr

/-- The literal of a wake state. -/
def BackgroundWakeState.name : BackgroundWakeState → String
  | queued => "queued"
  | delivered => "delivered"
  | consumed => "consumed"
  | cancelled => "cancelled"

/-- `ProgressReviewState`. -/
inductive ProgressReviewState
  | progressing
  | stalled
  | failed
  | needsUser
  | completed
  deriving DecidableEq, Repr

/-- The literal of a review state. -/
def ProgressReviewState.name : ProgressReviewState → String
  | progressing => "progressing"
  | stalled => "stalled"
  | failed => "failed"
  | needsUser => "needs-user"
  | completed => "completed"

/-- `BackgroundTriggerV1`. -/
structure BackgroundTriggerV1 where
  id : String
  type : BackgroundWakeReason
  enabled : Bool
  pattern : Option String
  flags : Option String
  deriving DecidableEq, Repr

/-- `BackgroundProgressReviewConfigV1`. -/
structure BackgroundProgressReviewConfigV1 where
  enabled : Bool
  minimumIntervalMs : Nat
  maxReviews : Nat
  maxInputCharacters : Nat
  timeoutMs : Nat
  maxOutputTokens : Nat
  deriving DecidableEq, Repr

/-- `ProgressReviewV1`. -/
structure ProgressReviewV1 where
  state : ProgressReviewState
  summary : String
  shouldWakeCoordinator : Bool
  suggestedAction : Option String
  reviewedAt : ℚ
  logHash : String
  deriving DecidableEq, Repr

/-- How a task came about. -/
inductive TaskSource
  | started
  | attached
  deriving DecidableEq, Repr

/-- The literal of a source. -/
def TaskSource.name : TaskSource → String
  | started => "started"
  | attached => "attached"

/-- `BackgroundTaskV1`. -/
structure BackgroundTaskV1 where
  id : String
  sessionId : String
  monitorId : String
  source : TaskSource
  name : String
  goal : Option String
  executable : Option String
  args : List String
  cwd : Option String
  createdAt : ℚ
  waitRequestedAt : Option ℚ
  triggers : List BackgroundTriggerV1
  logCursor : Nat
  logHash : Option String
  logPrefixHash : Option String
  lastLogActivityAt : Option ℚ
  lastReviewAt : Option ℚ
  reviewCount : Nat
  lastReviewHash : Option String
  lastReviewSummary : Option String
  progressReview : BackgroundProgressReviewConfigV1
  diagnostics : List String
  deriving DecidableEq, Repr

/-- `BackgroundWakeLogV1`. -/
structure BackgroundWakeLogV1 where
  cursor : Nat
  hash : String
  summary : String
  logPath : Option String
  truncated : Bool
  rotated : Bool
  deriving DecidableEq, Repr

/-- `BackgroundWakeEventV1`. -/
structure BackgroundWakeEventV1 where
  id : String
  dedupeKey : String
  taskId : String
  monitorId : String
  reason : BackgroundWakeReason
  monitorStatus : MonitorStatus
  createdAt : ℚ
  state : BackgroundWakeState
  deliveredAt : Option ℚ
  consumedAt : Option ℚ
  log : Option BackgroundWakeLogV1
  diagnostic : Option String
  progressReview : Option ProgressReviewV1
  deriving DecidableEq, Repr

/-- `BackgroundStoreSnapshotV1`. -/
structure BackgroundStoreSnapshotV1 where
  sessionId : String
  tasks : List BackgroundTaskV1
  wakeEvents : List BackgroundWakeEventV1
  consumedEventKeys : List String
  updatedAt : ℚ
  deriving DecidableEq, Repr

/-- `BackgroundTriggerInput`. -/
structure BackgroundTriggerInput where
  type : BackgroundWakeReason
  pattern : Option String
  flags : Option String
  deriving DecidableEq, Repr

/-- What the runtime reads of a `MonitorRecord`. -/
structure MonitorView where
  status : MonitorStatus
  exitReason : Option String
  logPath : Option String
  targetLogPath : Option String
  hasActivity : Bool
  deriving DecidableEq, Repr

/-- What `monitorRuntime.logs` returns. -/
structure MonitorLog where
  content : String
  cursor : Nat
  hash : String
  prefixHash : String
  changed : Bool
  truncated : Bool
  rotated : Bool
  missing : Bool
  path : String
  diagnostic : Option String
  deriving DecidableEq, Repr

/-- What the runtime takes from outside the repository: the schema library's measure
of a string, SHA-256 in hexadecimal digits, and regular expressions: the error of a
pattern that does not compile, and the test of a text. -/
structure Host where
  textLength : String → Nat
  sha256 : String → String
  regExpError : String → String → Option String
  regExpTest : String → String → String → Bool

end BeauPi.Background
