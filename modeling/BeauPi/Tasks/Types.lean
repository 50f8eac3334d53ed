import BeauPi.Js.Json
import BeauPi.Js.Text

/-!
# Dynamic Tasks: the data

The records of `core/tasks/types.ts`.  The field `version` is always `1`; it is
written and checked by the schemas and does not occur in the records.
Times are numbers of milliseconds; revisions and fact sequence numbers are
integers by their schemas, so they are natural numbers here.

`Host` collects what the runtime takes from outside the repository.
-/

namespace BeauPi.Tasks

/-- `DynamicTaskStatus`. -/
inductive DynamicTaskStatus
  | pending
  | active
  | completed
  | failed
  | blocked
  deriving DecidableEq, Repr

/-- The literal of a status. -/
def DynamicTaskStatus.name : DynamicTaskStatus → String
  | pending => "pending"
  | active => "active"
  | completed => "completed"
  | failed => "failed"
  | blocked => "blocked"

/-- `DynamicTaskUpdateReason`. -/
inductive DynamicTaskUpdateReason
  | initialPlan
  | workStarted
  | planChanged
  | blocked
  deriving DecidableEq, Repr

/-- The literal of a reason. -/
def DynamicTaskUpdateReason.name : DynamicTaskUpdateReason → String
  | initialPlan => "initial_plan"
  | workStarted => "work_started"
  | planChanged => "plan_changed"
  | blocked => "blocked"

/-- `DynamicTaskFactKind`. -/
inductive DynamicTaskFactKind
  | tool
  | file
  | verification
  | workflow
  | background
  | monitor
  | failure
  deriving DecidableEq, Repr

/-- The literal of a kind. -/
def DynamicTaskFactKind.name : DynamicTaskFactKind → String
  | tool => "tool"
  | file => "file"
  | verification => "verification"
  | workflow => "workflow"
  | background => "background"
  | monitor => "monitor"
  | failure => "failure"

/-- `DynamicTaskFactStatus`. -/
inductive DynamicTaskFactStatus
  | started
  | running
  | healthy
  | succeeded
  | passed
  | completed
  | failed
  | cancelled
  | blocked
  | stalled
  | lost
  deriving DecidableEq, Repr

/-- The literal of a fact status. -/
def DynamicTaskFactStatus.name : DynamicTaskFactStatus → String
  | started => "started"
  | running => "running"
  | healthy => "healthy"
  | succeeded => "succeeded"
  | passed => "passed"
  | completed => "completed"
  | failed => "failed"
  | cancelled => "cancelled"
  | blocked => "blocked"
  | stalled => "stalled"
  | lost => "lost"

/-- `DynamicTaskFactV1`. -/
structure DynamicTaskFactV1 where
  sequence : Nat
  id : String
  kind : DynamicTaskFactKind
  ref : String
  status : DynamicTaskFactStatus
  summary : String
  path : Option String
  createdAt : ℚ
  deriving DecidableEq, Repr

/-- `DynamicTaskItemV1`. -/
structure DynamicTaskItemV1 where
  id : String
  title : String
  status : DynamicTaskStatus
  dependsOn : List String
  matchHints : List String
  activity : Option String
  evidence : List String
  blockedBy : List String
  createdAt : ℚ
  updatedAt : ℚ
  completedAt : Option ℚ
  deriving DecidableEq, Repr

/-- `DynamicTaskPlanV1`. -/
structure DynamicTaskPlanV1 where
  planId : String
  revision : Nat
  goal : String
  createdAt : ℚ
  updatedAt : ℚ
  factSequence : Nat
  tasks : List DynamicTaskItemV1
  facts : List DynamicTaskFactV1
  deriving DecidableEq, Repr

/-- `TasksUpdateTaskV1`. -/
structure TasksUpdateTaskV1 where
  id : String
  title : String
  status : DynamicTaskStatus
  dependsOn : Option (List String)
  matchHints : Option (List String)
  activity : Option String
  blockedBy : Option (List String)
  deriving DecidableEq, Repr

/-- `TasksUpdateInputV1`. -/
structure TasksUpdateInputV1 where
  expectedRevision : Nat
  reason : DynamicTaskUpdateReason
  goal : String
  tasks : List TasksUpdateTaskV1
  deriving DecidableEq, Repr

/-- `TaskPatchUpdateV1`. -/
structure TaskPatchUpdateV1 where
  id : String
  status : Option DynamicTaskStatus
  activity : Option String
  evidence : Option (List String)
  blockedBy : Option (List String)
  deriving DecidableEq, Repr

/-- `TaskPatchV1`. -/
structure TaskPatchV1 where
  expectedRevision : Nat
  factsHash : String
  updates : List TaskPatchUpdateV1
  deriving DecidableEq, Repr

/-- `DynamicTaskDiagnosticV1`; also the `DynamicTaskValidationError` it reports. -/
structure DynamicTaskDiagnosticV1 where
  code : String
  message : String
  taskId : Option String
  deriving DecidableEq, Repr

/-- `DynamicTaskMutationStatus`. -/
inductive DynamicTaskMutationStatus
  | accepted
  | noChange
  | revisionConflict
  | invalid
  deriving DecidableEq, Repr

/-- `DynamicTaskMutationResultV1`. -/
structure DynamicTaskMutationResultV1 where
  status : DynamicTaskMutationStatus
  expectedRevision : ℚ
  actualRevision : Nat
  snapshot : Option DynamicTaskPlanV1
  diagnostics : List DynamicTaskDiagnosticV1
  deriving DecidableEq, Repr

/-- `DynamicTaskFactInputV1`. -/
structure DynamicTaskFactInputV1 where
  id : String
  kind : DynamicTaskFactKind
  ref : String
  status : DynamicTaskFactStatus
  summary : String
  path : Option String
  taskId : Option String
  createdAt : Option ℚ
  deriving DecidableEq, Repr

/-- What the runtime takes from outside the repository: the schema library's measure
of a string and its error texts, SHA-256 in lower-case hexadecimal digits, and the
Unicode tables behind `normalize("NFKC").toLocaleLowerCase("en-US")` and the classes
`\p{L}` and `\p{N}`. -/
structure Host where
  textLength : String → Nat
  schemaErrors : String → Json → List (String × Option String)
  sha256 : String → String
  normalize : String → String
  isLetterOrNumber : Char → Bool

end BeauPi.Tasks
