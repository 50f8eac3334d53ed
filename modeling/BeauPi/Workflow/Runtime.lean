import BeauPi.Machine.Closure
import BeauPi.Machine.Runs
import BeauPi.Workflow.Schema

/-!
# The workflow scheduler

`core/workflow/workflow-runtime.ts`.  Every active workflow has one scheduling loop
(`execute`) and any number of suspended calls of `runNode`; both run until their next
`await`, and everything in between is one step here.  An event says which
continuation runs next and what the outside answered: whether a worktree could be
created, what an agent returned, that a cancellation was requested.

* `scheduleNode` — the body of the `for` loop of a scheduling pass.
* `iterate` — one round of the `while` loop, from its test to its next `await`.
* `advance` — what an event does to the workflow it belongs to.
* `step` — the whole runtime: `advance` on one workflow, then waking the loops that
  wait for a schedule change when something was published.

A workflow that has ended keeps its record, because a call of `runNode` may outlive
the loop.  `entered` is a log of the calls of `runNode`; nothing in the model reads it
except to number the calls, which is how two promises for the same node are told
apart.  Observers, monitors (their updates are assumed not to throw) and time stamps
are left out.
-/

namespace BeauPi.Workflow

open Machine

/-! ## Prompts -/

/-- The node with a given id. -/
def nodeById (nodes : List WorkflowNodeSnapshot) (id : String) : Option WorkflowNodeSnapshot :=
  nodes.find? fun node => node.id == id

/-- What a node is told about one dependency. -/
def WorkflowNodeSnapshot.payload (node : WorkflowNodeSnapshot) : Json :=
  .obj ([("nodeId", .str node.id), ("status", .str node.status.text)] ++
    Json.optField "output" (node.output.map AgentTaskResult.toJson) ++
    Json.optField "error" (node.error.map WorkflowError.toJson) ++
    [("diagnostics", .arr (node.diagnostics.map WorkflowDiagnostic.toJson))])

/-- The dependencies of a node, as its prompt shows them.  Every dependency is a
node of the workflow. -/
def dependencyPayload (node : NormalizedWorkflowNodeDefinition)
    (nodes : List WorkflowNodeSnapshot) : List Json :=
  (node.dependsOn.filterMap (nodeById nodes)).map WorkflowNodeSnapshot.payload

/-- The prompt of a node: its task, and the outcome of its dependencies. -/
def nodePrompt (node : NormalizedWorkflowNodeDefinition) (nodes : List WorkflowNodeSnapshot) :
    String :=
  if node.dependsOn.isEmpty then node.task
  else
    node.task ++ "\n\n<workflow_dependencies version=\"1\">\n" ++
      Json.stringify (.arr (dependencyPayload node nodes)) ++
      "\n</workflow_dependencies>\nUse only these structured dependency outputs; " ++
      "do not request or reconstruct child transcripts."

/-! ## Changing nodes -/

/-- Apply a change to the node with a given id. -/
def updateNode (id : String) (f : WorkflowNodeSnapshot → WorkflowNodeSnapshot)
    (nodes : List WorkflowNodeSnapshot) : List WorkflowNodeSnapshot :=
  nodes.map fun node => if node.id = id then f node else node

/-- Record the end of a node, unless it has ended before. -/
def finishNode (status : WorkflowNodeStatus) (output : Option AgentTaskResult)
    (error : Option WorkflowError) (node : WorkflowNodeSnapshot) : WorkflowNodeSnapshot :=
  if isWorkflowNodeTerminal node.status then node
  else
    { node with
      status := status
      output := output <|> node.output
      error := error <|> node.error
      diagnostics := node.diagnostics ++
        (error.map fun e => WorkflowDiagnostic.mk e.code e.message (some node.id)).toList }

/-- End a node if it is pending and selected. -/
def finishIfPending (select : String → Bool) (status : WorkflowNodeStatus) (error : WorkflowError)
    (node : WorkflowNodeSnapshot) : WorkflowNodeSnapshot :=
  if node.status = .pending ∧ select node.id = true then finishNode status none (some error) node
  else node

/-- End every pending node that is selected. -/
def finishPending (select : String → Bool) (status : WorkflowNodeStatus) (error : WorkflowError)
    (nodes : List WorkflowNodeSnapshot) : List WorkflowNodeSnapshot :=
  nodes.map (finishIfPending select status error)

/-- Append what was noted about the worktree of a node. -/
def noteDiagnostics (diagnostics : List WorkflowDiagnostic) (node : WorkflowNodeSnapshot) :
    WorkflowNodeSnapshot :=
  { node with diagnostics := node.diagnostics ++ diagnostics }

/-! ## The state of a workflow -/

/-- Where a call of `runNode` is suspended. -/
inductive RunNodePoint
  /-- In `worktrees.create`. -/
  | creatingWorktree
  /-- In `agentPool.delegateTask`, with the prompt it was given. -/
  | delegating (prompt : String)
  /-- In `worktrees.cleanupNode`. -/
  | cleaning
  /-- `runNode` has returned; the callback that removes its promise has not run. -/
  | returned
  deriving DecidableEq, Repr

/-- A call of `runNode`, with the state of its abort controller. -/
structure RunNodeCall where
  token : Nat
  node : NormalizedWorkflowNodeDefinition
  point : RunNodePoint
  aborted : Bool
  deriving DecidableEq, Repr

/-- Where the scheduling loop is. -/
inductive ExecuteLoop
  /-- At the test of the `while` loop. -/
  | ready
  /-- In `Promise.race` over the promises of the given calls. -/
  | racing (tokens : List Nat)
  /-- In `waitForScheduleChange`. -/
  | waiting
  /-- In `Promise.all` after the `while` loop. -/
  | draining (tokens : List Nat)
  /-- In the `finally` block. -/
  | finalizing
  | done
  deriving DecidableEq, Repr

/-- One workflow and everything that may still act on it. -/
structure ActiveWorkflow where
  definition : NormalizedWorkflowDefinition
  status : WorkflowStatus
  error : Option WorkflowDiagnostic
  nodes : List WorkflowNodeSnapshot
  cancelRequested : Bool
  failureNodeId : Option String
  /-- The abort controllers that can be found by node, as call numbers. -/
  nodeControllers : OrderedMap String Nat
  /-- The promises the loop knows, as call numbers. -/
  running : OrderedMap String Nat
  calls : List RunNodeCall
  loop : ExecuteLoop
  /-- The node of every call of `runNode` so far. -/
  entered : List String

namespace ActiveWorkflow

/-- The workflow is in the `active` map of the runtime. -/
def isActive (w : ActiveWorkflow) : Bool := decide (w.loop ≠ .done)

/-- The snapshot of a node. -/
def node? (w : ActiveWorkflow) (id : String) : Option WorkflowNodeSnapshot := nodeById w.nodes id

/-- The nodes that are running. -/
def runningNodes (w : ActiveWorkflow) : List WorkflowNodeSnapshot :=
  w.nodes.filter fun node => decide (node.status = .running)

/-- A call of `runNode`. -/
def call? (w : ActiveWorkflow) (token : Nat) : Option RunNodeCall :=
  w.calls.find? fun call => call.token == token

/-- The promise of a call is settled. -/
def isSettled (w : ActiveWorkflow) (token : Nat) : Bool :=
  w.calls.all fun call => decide (call.token ≠ token)

/-- Move a call to another point. -/
def moveCall (w : ActiveWorkflow) (token : Nat) (point : RunNodePoint) : ActiveWorkflow :=
  { w with
    calls := w.calls.map fun call =>
      if call.token = token then { call with point := point } else call }

/-- Abort the controllers of some calls. -/
def abortCalls (w : ActiveWorkflow) (tokens : List Nat) : ActiveWorkflow :=
  { w with
    calls := w.calls.map fun call =>
      if call.token ∈ tokens then { call with aborted := true } else call }

/-- Change one node. -/
def changeNode (w : ActiveWorkflow) (id : String)
    (f : WorkflowNodeSnapshot → WorkflowNodeSnapshot) : ActiveWorkflow :=
  { w with nodes := updateNode id f w.nodes }

/-! ## `runNode` -/

/-- The part of `runNode` that starts the agent: the node is running from here on. -/
def delegate (w : ActiveWorkflow) (token : Nat) (definition : NormalizedWorkflowNodeDefinition) :
    ActiveWorkflow :=
  let started := w.changeNode definition.id fun node => { node with status := .running }
  started.moveCall token (.delegating (nodePrompt definition started.nodes))

/-- A new call of `runNode`, with its abort controller. -/
def registerCall (w : ActiveWorkflow) (definition : NormalizedWorkflowNodeDefinition) :
    ActiveWorkflow :=
  { w with
    entered := w.entered ++ [definition.id]
    nodeControllers := w.nodeControllers.set definition.id w.entered.length
    calls := w.calls ++ [⟨w.entered.length, definition, .creatingWorktree, false⟩] }

/-- The call of `runNode` up to its first `await`, and whether it published. -/
def enterRunNode (w : ActiveWorkflow) (definition : NormalizedWorkflowNodeDefinition) :
    ActiveWorkflow × Bool :=
  if definition.writePolicy = .isolated then (w.registerCall definition, false)
  else ((w.registerCall definition).delegate w.entered.length definition, true)

/-- The nodes that depend on a node, directly. -/
def dependentsOf (definition : NormalizedWorkflowDefinition) (id : String) : List String :=
  (definition.nodes.filter fun candidate => candidate.dependsOn.contains id).map (·.id)

/-- The nodes that depend on a node, directly or through others. -/
def allDependentsOf (definition : NormalizedWorkflowDefinition) (id : String) : List String :=
  closure (dependentsOf definition) definition.nodes.length id

/-- What the failure of a node does to the other nodes. -/
def applyFailurePolicy (w : ActiveWorkflow) (definition : NormalizedWorkflowNodeDefinition) :
    ActiveWorkflow :=
  match definition.failurePolicy with
  | .continue => w
  | .failWorkflow =>
    let failure := (w.node? definition.id).bind (·.error)
    let stopped := w.abortCalls
      ((w.nodeControllers.entries.filter fun p => decide (p.1 ≠ definition.id)).map Prod.snd)
    { stopped with
      failureNodeId := some definition.id
      error := some
        { code := (failure.map (·.code)).getD "workflow_node_failed"
          message := (failure.map (·.message)).getD
            ("Workflow node " ++ definition.id ++ " failed")
          nodeId := some definition.id }
      nodes := finishPending (fun _ => true) .cancelled
        ⟨"upstream_failure", "Workflow stopped after node " ++ definition.id ++ " failed"⟩
        w.nodes }
  | .skipDependents =>
    { w with
      nodes := finishPending (fun id => decide (id ∈ allDependentsOf w.definition definition.id))
        .skipped
        ⟨"upstream_failure", "Skipped because dependency " ++ definition.id ++ " failed"⟩
        w.nodes }

/-- The `finally` block of `runNode` up to its `await` or its end, and whether it
published.  `leased` says that the call got a worktree. -/
def leaveRunNode (w : ActiveWorkflow) (token : Nat) (id : String) (leased : Bool) :
    ActiveWorkflow × Bool :=
  let left := { w with nodeControllers := w.nodeControllers.delete id }
  if leased && decide ((left.node? id).map (·.status) ≠ some .completed) then
    (left.moveCall token .cleaning, false)
  else (left.moveCall token .returned, true)

/-- The status a node takes from the result of its agent. -/
def statusOfResult : AgentTaskStatus → WorkflowNodeStatus
  | .completed => .completed
  | .cancelled => .cancelled
  | .timedOut => .timedOut
  | .failed => .failed

/-- The end of `runNode`: the node is finished, its failure policy is applied if it
failed, and the call leaves through its `finally` block. -/
def endRunNode (w : ActiveWorkflow) (call : RunNodeCall) (status : WorkflowNodeStatus)
    (output : Option AgentTaskResult) (error : Option WorkflowError) (failed leased : Bool) :
    ActiveWorkflow × Bool :=
  let finished := w.changeNode call.node.id (finishNode status output error)
  let handled := if failed then finished.applyFailurePolicy call.node else finished
  handled.leaveRunNode call.token call.node.id leased

/-- The rest of `runNode` after its agent returned. -/
def agentReturned (w : ActiveWorkflow) (call : RunNodeCall) (result : AgentTaskResult) :
    ActiveWorkflow × Bool :=
  let status := statusOfResult result.status
  w.endRunNode call status (some result) result.error (nodeFailureStatus status)
    (decide (call.node.writePolicy = .isolated))

/-- The `catch` block of `runNode` and what follows it. -/
def runNodeThrew (w : ActiveWorkflow) (call : RunNodeCall) (leased : Bool) (message : String) :
    ActiveWorkflow × Bool :=
  let cancelled := call.aborted || w.cancelRequested
  w.endRunNode call (if cancelled then .cancelled else .failed) none
    (some ⟨if cancelled then "cancelled" else "workflow_node_error", message⟩) (!cancelled) leased

/-! ## The scheduling loop -/

end ActiveWorkflow

/-- A candidate may start next to the nodes that are running. -/
def canStart (active : List WorkflowNodeSnapshot) (candidate : WorkflowNodeSnapshot) : Bool :=
  match candidate.writePolicy with
  | .isolated => true
  | .shared => active.all fun node => decide (node.writePolicy = .isolated)
  | .none => !active.any fun node => decide (node.writePolicy = .shared)

/-- A scheduling pass under way: whether it did something, and whether it
published. -/
structure Pass where
  workflow : ActiveWorkflow
  started : Bool
  published : Bool

namespace ActiveWorkflow

/-- The condition of a node is false: the node is skipped. -/
def skipTurn (pass : Pass) (definition : NormalizedWorkflowNodeDefinition) : Pass :=
  { pass with
    workflow := pass.workflow.changeNode definition.id (finishNode .skipped none (some
      ⟨"condition_false",
        "Condition evaluated to false: " ++ definition.condition.getD "default"⟩))
    started := true }

/-- A node starts: `runNode` is called and its promise is stored. -/
def startTurn (pass : Pass) (definition : NormalizedWorkflowNodeDefinition) : Pass :=
  let w := pass.workflow
  let entered := w.enterRunNode definition
  { workflow := { entered.1 with running := entered.1.running.set definition.id w.entered.length }
    started := true
    published := pass.published || entered.2 }

/-- One node's turn in a scheduling pass; `others` are the running nodes of the
other active workflows.  An error is what the source throws. -/
def scheduleNode (others : List WorkflowNodeSnapshot) (pass : Pass)
    (definition : NormalizedWorkflowNodeDefinition) : Except (Pass × String) Pass :=
  let w := pass.workflow
  match w.node? definition.id with
  | none => .error (pass, "Cannot read properties of undefined (reading 'status')")
  | some node =>
    if node.status ≠ .pending then .ok pass
    else
      match definition.dependsOn.mapM w.node? with
      | none => .error (pass, "Cannot read properties of undefined (reading 'status')")
      | some dependencies =>
        if !dependencies.all (fun dependency => isWorkflowNodeTerminal dependency.status) then
          .ok pass
        else
          match evaluateWorkflowCondition definition.condition dependencies with
          | .error message => .error (pass, message)
          | .ok false => .ok (skipTurn pass definition)
          | .ok true =>
            if w.definition.maxConcurrency ≤ w.running.size ∨
                canStart (others ++ w.runningNodes) node = false then .ok pass
            else .ok (startTurn pass definition)

/-- Abort the controller of every node. -/
def abortControllers (w : ActiveWorkflow) : ActiveWorkflow :=
  w.abortCalls w.nodeControllers.values

/-- The workflow as a scheduling pass begins. -/
def beginPass (w : ActiveWorkflow) : Pass :=
  ⟨if w.cancelRequested || w.failureNodeId.isSome then w.abortControllers else w, false, false⟩

/-- A scheduling pass over all nodes, in the order of the definition. -/
def schedulingPass (others : List WorkflowNodeSnapshot) (w : ActiveWorkflow) :
    Except (Pass × String) Pass :=
  w.definition.nodes.foldlM (scheduleNode others) w.beginPass

/-- What the loop does when a pass did nothing, nothing is running here and nothing
is running elsewhere. -/
def schedulerDeadlock (w : ActiveWorkflow) : ActiveWorkflow :=
  { w with
    nodes := finishPending (fun _ => true) .lost
      ⟨"scheduler_deadlock", "Workflow scheduler could not make deterministic progress"⟩ w.nodes }

/-- What the loop does after a pass. -/
def afterPass (others : List WorkflowNodeSnapshot) (pass : Pass) : ActiveWorkflow :=
  let w := pass.workflow
  if 0 < w.running.size then { w with loop := .racing w.running.values }
  else if pass.started then { w with loop := .ready }
  else if !others.isEmpty then { w with loop := .waiting }
  else { w.schedulerDeadlock with loop := .ready }

/-- The `catch` block of `execute`. -/
def executeThrew (w : ActiveWorkflow) (message : String) : ActiveWorkflow :=
  { w with
    status := if w.cancelRequested then .cancelled else .failed
    error := some ⟨"workflow_error", message, none⟩
    loop := .finalizing }

/-- One round of the `while` loop, or the way out of it. -/
def iterate (others : List WorkflowNodeSnapshot) (w : ActiveWorkflow) : ActiveWorkflow × Bool :=
  if w.nodes.all (fun node => isWorkflowNodeTerminal node.status) then
    ({ w with loop := .draining w.running.values }, false)
  else
    match schedulingPass others w with
    | .error (pass, message) => (pass.workflow.executeThrew message, pass.published)
    | .ok pass => (afterPass others pass, pass.published)

/-- The status of a workflow whose nodes have all ended. -/
def finalStatus (w : ActiveWorkflow) : WorkflowStatus :=
  if w.cancelRequested then .cancelled
  else if w.nodes.any (fun node => nodeFailureStatus node.status) then .failed
  else .completed

/-- The loop continues, when what it awaits has happened. -/
def resume (others : List WorkflowNodeSnapshot) (w : ActiveWorkflow) :
    Option (ActiveWorkflow × Bool) :=
  match w.loop with
  | .ready => some (w.iterate others)
  | .racing tokens => if tokens.any w.isSettled then some (w.iterate others) else none
  | .draining tokens =>
    if tokens.all w.isSettled then
      some ({ w with status := w.finalStatus, loop := .finalizing }, false)
    else none
  | .waiting => none
  | .finalizing => none
  | .done => none

/-- The `finally` block of `execute`.  Only isolated nodes have worktrees; `leases`
lists what was noted about them. -/
def finalize (w : ActiveWorkflow) (leases : List (String × List WorkflowDiagnostic)) :
    ActiveWorkflow :=
  { w with
    nodes := w.nodes.map fun node =>
      if node.writePolicy = .isolated then
        noteDiagnostics
          ((leases.filter fun lease => decide (lease.1 = node.id)).map Prod.snd).flatten node
      else node
    loop := .done }

/-- A request to cancel the workflow, and whether it published. -/
def requestCancel (w : ActiveWorkflow) : ActiveWorkflow × Bool :=
  if w.cancelRequested || isWorkflowTerminal w.status then (w, false)
  else
    ({ w.abortCalls (w.calls.map (·.token)) with
        cancelRequested := true
        nodes := finishPending (fun _ => true) .cancelled
          ⟨"cancelled", "Workflow was cancelled before the node started"⟩ w.nodes }, true)

end ActiveWorkflow

/-! ## Events -/

/-- What can happen to a workflow. -/
inductive WorkflowEvent
  /-- The scheduling loop continues. -/
  | resume
  | worktreeCreated (token : Nat)
  | worktreeFailed (token : Nat) (message : String)
  | agentProgress (token : Nat)
  | agentReturned (token : Nat) (result : AgentTaskResult)
  | agentThrew (token : Nat) (message : String)
  | worktreeCleaned (token : Nat) (diagnostics : List WorkflowDiagnostic)
  /-- The promise of a call that has returned settles. -/
  | runNodeSettled (token : Nat)
  | finalized (leases : List (String × List WorkflowDiagnostic))
  | requestCancel

namespace ActiveWorkflow

/-- The call a suspended `runNode` event is for, if it waits at the given point. -/
def waitingCall? (w : ActiveWorkflow) (token : Nat) (waits : RunNodePoint → Bool) :
    Option RunNodeCall :=
  (w.call? token).filter fun call => waits call.point

/-- The point is in `delegateTask`. -/
def isDelegating : RunNodePoint → Bool
  | .delegating _ => true
  | _ => false

/-- What an event does to its workflow, and whether it published; `none` when the
event cannot happen. -/
def advance (others : List WorkflowNodeSnapshot) (w : ActiveWorkflow) :
    WorkflowEvent → Option (ActiveWorkflow × Bool)
  | .resume => w.resume others
  | .worktreeCreated token =>
    (w.waitingCall? token (· == .creatingWorktree)).map fun call =>
      (w.delegate token call.node, true)
  | .worktreeFailed token message =>
    (w.waitingCall? token (· == .creatingWorktree)).map fun call =>
      w.runNodeThrew call false message
  | .agentProgress token =>
    (w.waitingCall? token isDelegating).map fun _ => (w, true)
  | .agentReturned token result =>
    (w.waitingCall? token isDelegating).map fun call => w.agentReturned call result
  | .agentThrew token message =>
    (w.waitingCall? token isDelegating).map fun call =>
      w.runNodeThrew call (decide (call.node.writePolicy = .isolated)) message
  | .worktreeCleaned token diagnostics =>
    (w.waitingCall? token (· == .cleaning)).map fun call =>
      ((w.changeNode call.node.id (noteDiagnostics diagnostics)).moveCall token .returned, true)
  | .runNodeSettled token =>
    (w.waitingCall? token (· == .returned)).map fun call =>
      ({ w with
          calls := w.calls.filter fun other => decide (other.token ≠ token)
          running := w.running.delete call.node.id }, false)
  | .finalized leases =>
    if w.loop = .finalizing then some (w.finalize leases, true) else none
  | .requestCancel => if w.isActive then some w.requestCancel else none

/-- A publication wakes a loop that waits for a schedule change. -/
def wake (w : ActiveWorkflow) : ActiveWorkflow :=
  if w.loop = .waiting then { w with loop := .ready } else w

/-- A workflow as `start` hands it to `execute`. -/
def initial (definition : NormalizedWorkflowDefinition) : ActiveWorkflow :=
  { definition
    status := .pending
    error := none
    nodes := definition.nodes.map fun node =>
      { id := node.id, writePolicy := node.writePolicy, status := .pending, output := none,
        diagnostics := [], error := none }
    cancelRequested := false
    failureNodeId := none
    nodeControllers := .empty
    running := .empty
    calls := []
    loop := .ready
    entered := [] }

end ActiveWorkflow

/-! ## The runtime -/

/-- The workflows that were started, by id. -/
abbrev RuntimeState := OrderedMap String ActiveWorkflow

/-- The agent profiles of the session. -/
structure Profiles where
  exists? : String → Bool
  options : WorkflowProfileResolutionOptions

/-- What can happen to the runtime. -/
inductive RuntimeEvent
  /-- `start`, with the id drawn for the workflow and whether its signal was
  aborted already. -/
  | start (workflowId : String) (input : WorkflowDefinition) (task : Option String)
      (aborted : Bool)
  | workflow (workflowId : String) (event : WorkflowEvent)

/-- The running nodes of the active workflows other than a given one. -/
def runningElsewhere (s : RuntimeState) (workflowId : String) : List WorkflowNodeSnapshot :=
  (s.entries.filter fun p => decide (p.1 ≠ workflowId) && p.2.isActive).flatMap fun p =>
    p.2.runningNodes

/-- Store a workflow, and wake the waiting loops if it published. -/
def store (s : RuntimeState) (workflowId : String) (result : ActiveWorkflow × Bool) :
    RuntimeState :=
  let stored := s.set workflowId result.1
  if result.2 then stored.mapValues ActiveWorkflow.wake else stored

/-- The workflow that `start` creates from a definition. -/
def started (profiles : Profiles) (input : WorkflowDefinition) (task : Option String)
    (aborted : Bool) : Except WorkflowValidationError ActiveWorkflow := do
  let definition ← validateWorkflowDefinition input profiles.exists? profiles.options
  let definition ← materializeWorkflowTask definition task
  let created := ActiveWorkflow.initial definition
  let created := if aborted then created.requestCancel.1 else created
  return { created with status := .running }

/-- One step of the runtime.  A rejected definition changes nothing. -/
def step (profiles : Profiles) (s : RuntimeState) : RuntimeEvent → Option RuntimeState
  | .start workflowId input task aborted =>
    if (s.get? workflowId).isSome then none
    else
      match started profiles input task aborted with
      | .error _ => some s
      | .ok w => some (store s workflowId (w, true))
  | .workflow workflowId event =>
    match s.get? workflowId with
    | none => none
    | some w =>
      (w.advance (runningElsewhere s workflowId) event).map (store s workflowId)

end BeauPi.Workflow
