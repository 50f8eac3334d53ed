import BeauPi.Js.Json

/-!
# Workflow data

The records of `core/workflow/types.ts` that the scheduler, the condition
evaluator and the schema read.  A workflow is a set of nodes with dependencies;
a node is run by handing a prompt to an agent, and its snapshot records how that
went.  Time stamps, monitor ids and worktree paths are only copied from place to
place and are left out.
-/

namespace BeauPi.Workflow

/-- How a node may write: not at all, in the shared workspace, or in a worktree
of its own. -/
inductive WorkflowWritePolicy
  | none
  | shared
  | isolated
  deriving DecidableEq, Repr

/-- What the failure of a node does to the rest of the workflow. -/
inductive WorkflowFailurePolicy
  | failWorkflow
  | continue
  | skipDependents
  deriving DecidableEq, Repr

/-- The status of a whole workflow. -/
inductive WorkflowStatus
  | pending
  | running
  | completed
  | failed
  | cancelled
  | lost
  deriving DecidableEq, Repr

/-- The status of one node. -/
inductive WorkflowNodeStatus
  | pending
  | running
  | completed
  | failed
  | skipped
  | cancelled
  | timedOut
  | lost
  deriving DecidableEq, Repr

/-- The text of a node status. -/
def WorkflowNodeStatus.text : WorkflowNodeStatus → String
  | .pending => "pending"
  | .running => "running"
  | .completed => "completed"
  | .failed => "failed"
  | .skipped => "skipped"
  | .cancelled => "cancelled"
  | .timedOut => "timed_out"
  | .lost => "lost"

/-- A node has ended, one way or another. -/
def isWorkflowNodeTerminal : WorkflowNodeStatus → Bool
  | .pending => false
  | .running => false
  | _ => true

/-- A workflow has ended. -/
def isWorkflowTerminal : WorkflowStatus → Bool
  | .pending => false
  | .running => false
  | _ => true

/-- The statuses that count as a failure of the node. -/
def nodeFailureStatus : WorkflowNodeStatus → Bool
  | .failed => true
  | .timedOut => true
  | .lost => true
  | _ => false

theorem isWorkflowNodeTerminal_of_nodeFailureStatus {s : WorkflowNodeStatus}
    (h : nodeFailureStatus s = true) : isWorkflowNodeTerminal s = true := by
  cases s <;> first | rfl | cases h

/-- The limits an agent runs under. -/
structure WorkflowBudget where
  maxTokens : Option Nat
  maxTurns : Option Nat
  deriving DecidableEq, Repr

/-- How an agent is asked to stop. -/
inductive AgentCancellationStrategy
  | abort
  | graceful
  deriving DecidableEq, Repr

/-- A node as a user writes it. -/
structure WorkflowNodeDefinition where
  id : String
  agent : Option String
  profile : Option String
  task : String
  dependsOn : Option (List String)
  condition : Option String
  writePolicy : Option WorkflowWritePolicy
  timeoutMs : Option Nat
  failurePolicy : Option WorkflowFailurePolicy
  budget : Option WorkflowBudget
  cancelStrategy : Option AgentCancellationStrategy
  deriving DecidableEq, Repr

/-- A workflow as a user writes it. -/
structure WorkflowDefinition where
  version : Nat
  id : String
  description : Option String
  maxConcurrency : Option Nat
  nodes : List WorkflowNodeDefinition
  deriving DecidableEq, Repr

/-- A node with its defaults filled in. -/
structure NormalizedWorkflowNodeDefinition where
  id : String
  profile : String
  task : String
  dependsOn : List String
  condition : Option String
  writePolicy : WorkflowWritePolicy
  timeoutMs : Option Nat
  failurePolicy : WorkflowFailurePolicy
  budget : Option WorkflowBudget
  cancelStrategy : Option AgentCancellationStrategy
  deriving DecidableEq, Repr

/-- A workflow with its defaults filled in. -/
structure NormalizedWorkflowDefinition where
  version : Nat
  id : String
  description : Option String
  maxConcurrency : Nat
  nodes : List NormalizedWorkflowNodeDefinition
  deriving DecidableEq, Repr

/-- A coded message about a node. -/
structure WorkflowDiagnostic where
  code : String
  message : String
  nodeId : Option String
  deriving DecidableEq, Repr

/-- The error recorded on a node or on a workflow. -/
structure WorkflowError where
  code : String
  message : String
  deriving DecidableEq, Repr

/-- How an agent reports the end of its task. -/
inductive AgentTaskStatus
  | completed
  | failed
  | cancelled
  | timedOut
  deriving DecidableEq, Repr

/-- The text of an agent status. -/
def AgentTaskStatus.text : AgentTaskStatus → String
  | .completed => "completed"
  | .failed => "failed"
  | .cancelled => "cancelled"
  | .timedOut => "timed_out"

/-- The structured result of an agent.  The scheduler reads its status and its
error; the remaining fields (summary, citations, checks, usage and so on) are
data that conditions and prompts of later nodes may read. -/
structure AgentTaskResult where
  status : AgentTaskStatus
  error : Option WorkflowError
  fields : List (String × Json)
  deriving DecidableEq, Repr

/-- What is known about a node while its workflow runs. -/
structure WorkflowNodeSnapshot where
  id : String
  writePolicy : WorkflowWritePolicy
  status : WorkflowNodeStatus
  output : Option AgentTaskResult
  diagnostics : List WorkflowDiagnostic
  error : Option WorkflowError
  deriving DecidableEq, Repr

/-! ## As JSON -/

/-- `{ code, message }`. -/
def WorkflowError.toJson (e : WorkflowError) : Json :=
  .obj [("code", .str e.code), ("message", .str e.message)]

/-- `{ code, message, nodeId }`. -/
def WorkflowDiagnostic.toJson (d : WorkflowDiagnostic) : Json :=
  .obj ([("code", .str d.code), ("message", .str d.message)] ++
    Json.optField "nodeId" (d.nodeId.map .str))

/-- An agent result as the object that conditions and prompts see. -/
def AgentTaskResult.toJson (r : AgentTaskResult) : Json :=
  .obj ([("status", .str r.status.text)] ++ r.fields ++
    Json.optField "error" (r.error.map WorkflowError.toJson))

end BeauPi.Workflow
