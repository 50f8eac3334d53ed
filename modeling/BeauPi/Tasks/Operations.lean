import BeauPi.Tasks.Runtime

/-!
# Dynamic Tasks: the operations

The mutating operations of `core/tasks/dynamic-task-runtime.ts`.  The runtime
executes them one at a time, in the order in which they were called (`serial`), so
each is a function from states to states.  The time `now()` returns and the id
`createPlanId()` draws are arguments.  An operation answers with a mutation result
or is rejected with a validation error.

* `noteToolStarted`, `noteToolFinished` — facts about tool calls.
* `recordFact`, `noteWorkflow`, `noteBackground`, `noteMonitor` — external facts.
* `updatePlan` — the plan the main agent sends, rebased if its revision is stale.
* `applyReviewerPatch` — the reviewer's patch.
* `rebuild` — the state a branch of the session restores.
-/

namespace BeauPi.Tasks

open Machine Session

variable (host : Host)

/-! ## Tool calls -/

/-- `DynamicTaskToolStartFact`. -/
structure DynamicTaskToolStartFact where
  toolCallId : String
  toolName : String
  args : Json
  workspaceMutation : Bool
  verification : Bool
  createdAt : Option ℚ
  deriving DecidableEq

/-- How a tool call ended. -/
inductive ToolStatus
  | success
  | failed
  | cancelled
  deriving DecidableEq, Repr

/-- The literal of a tool status. -/
def ToolStatus.name : ToolStatus → String
  | success => "success"
  | failed => "failed"
  | cancelled => "cancelled"

/-- `DynamicTaskToolFinishFact`. -/
structure DynamicTaskToolFinishFact where
  toolCallId : String
  toolName : String
  status : ToolStatus
  filesModified : Option (List String)
  verification : Bool
  diagnostic : Option String
  createdAt : Option ℚ
  deriving DecidableEq, Repr

/-- The answer of an operation that changes nothing. -/
def noChange (snapshot : Option DynamicTaskPlanV1) : Answer :=
  .ok (mutationResult .noChange (revisionOf snapshot) (revisionOf snapshot) snapshot [])

/-- The fact that a tool call started. -/
def startedFact (snapshot : DynamicTaskPlanV1) (input : DynamicTaskToolStartFact)
    (timestamp : ℚ) : DynamicTaskFactV1 :=
  let summary := toolSummary input.toolName input.args
  { sequence := snapshot.factSequence + 1
    id := factId host "tool" (input.toolCallId ++ ":started")
    kind := .tool
    ref := input.toolCallId
    status := .started
    summary := input.toolName ++ " started" ++
      (if summary = input.toolName then ""
       else " · " ++ Js.sliceFrom (Js.utf16Length input.toolName + 2) summary)
    path := none
    createdAt := timestamp }

/-- The task a starting tool call is bound to. -/
def startedTask (snapshot : DynamicTaskPlanV1) (input : DynamicTaskToolStartFact) :
    Option DynamicTaskItemV1 :=
  let summary := toolSummary input.toolName input.args
  if input.workspaceMutation || input.verification then
    selectTask host snapshot summary input.verification [.active, .pending]
  else selectTask host snapshot summary false [.active]

/-- What the start of a tool call makes of its task. -/
def startTask (fact : DynamicTaskFactV1) (timestamp : ℚ) (task : DynamicTaskItemV1) :
    DynamicTaskItemV1 :=
  { task with
    status := if task.status = .pending then .active else task.status
    activity := some fact.summary
    evidence := addEvidence task.evidence [fact.id]
    updatedAt := timestamp }

/-- Change the selected task and keep the others. -/
def mapSelected (selected : Option DynamicTaskItemV1) (f : DynamicTaskItemV1 → DynamicTaskItemV1)
    (tasks : List DynamicTaskItemV1) : List DynamicTaskItemV1 :=
  tasks.map fun task => if some task.id = selected.map (·.id) then f task else task

/-- `noteToolStarted`. -/
def noteToolStarted (now : ℚ) (input : DynamicTaskToolStartFact) (s : DynamicTaskRuntime) :
    Answer × DynamicTaskRuntime :=
  if s.disposed then (.ok (mutationAfterDispose s.snapshot), s)
  else match s.snapshot with
  | none => (noChange none, s)
  | some snapshot =>
    if input.toolName = "tasks_update" then (noChange (some snapshot), s)
    else
      let timestamp := input.createdAt.getD now
      let fact := startedFact host snapshot input timestamp
      if snapshot.facts.any (fun known => known.id == fact.id) then (noChange (some snapshot), s)
      else
        let selected := startedTask host snapshot input
        let tasks := mapSelected selected (startTask fact timestamp) snapshot.tasks
        match withFacts host snapshot tasks [fact] timestamp with
        | .error e => (.error e, s)
        | .ok next =>
          let tool : ActiveDynamicTool :=
            { toolName := input.toolName, taskId := selected.map (·.id),
              summary := toolSummary input.toolName input.args,
              verification := input.verification }
          let reminder := match selected with
            | some task =>
              if input.workspaceMutation then
                some ("Work started on " ++ task.id ++ ". Continue the mutation without waiting, " ++
                  "then call tasks_update(reason: work_started or plan_changed) only if the plan " ++
                  "needs a material refresh.")
              else s.refreshReminder
            | none => s.refreshReminder
          (.ok (mutationResult .accepted snapshot.revision next.revision (some next) []),
            acceptSnapshot host next
              { s with activeTools := s.activeTools.set input.toolCallId tool
                       refreshReminder := reminder })

/-- The status of a fact about a finished tool call. -/
def finishedFactStatus (success : DynamicTaskFactStatus) : ToolStatus → DynamicTaskFactStatus
  | .success => success
  | .failed => .failed
  | .cancelled => .cancelled

/-- The facts a finished tool call reports; their sequence numbers are assigned later. -/
def finishedCandidates (input : DynamicTaskToolFinishFact) (timestamp : ℚ) :
    List DynamicTaskFactV1 :=
  let succeeded : Bool := input.status = .success
  let tool : DynamicTaskFactV1 :=
    { sequence := 0
      id := factId host "tool" (input.toolCallId ++ ":" ++ input.status.name)
      kind := if succeeded then .tool else .failure
      ref := input.toolCallId
      status := finishedFactStatus .succeeded input.status
      summary :=
        if succeeded then input.toolName ++ " completed"
        else input.toolName ++ " " ++ input.status.name ++
          (match input.diagnostic with
           | some text => if text.isEmpty then "" else " · " ++ text
           | none => "")
      path := none
      createdAt := timestamp }
  let files := (Js.unique (input.filesModified.getD [])).map fun path =>
    ({ sequence := 0
       id := factId host "file" (input.toolCallId ++ ":" ++ path)
       kind := .file
       ref := input.toolCallId
       status := finishedFactStatus .succeeded input.status
       summary := (if succeeded then "Modified" else "Failed to modify") ++ " " ++ path
       path := some path
       createdAt := timestamp } : DynamicTaskFactV1)
  let outcome := if succeeded then "passed" else input.status.name
  let verification : DynamicTaskFactV1 :=
    { sequence := 0
      id := factId host "verify" (input.toolCallId ++ ":" ++ outcome)
      kind := .verification
      ref := input.toolCallId
      status := finishedFactStatus .passed input.status
      summary := "Verification " ++ outcome
      path := none
      createdAt := timestamp }
  tool :: files ++ (if input.verification then [verification] else [])

/-- The facts of a finished tool call that the plan does not have yet, numbered. -/
def finishedFacts (snapshot : DynamicTaskPlanV1) (input : DynamicTaskToolFinishFact)
    (timestamp : ℚ) : List DynamicTaskFactV1 :=
  let new := (finishedCandidates host input timestamp).filter fun fact =>
    !(snapshot.facts.map (·.id)).contains fact.id
  new.zipIdx.map fun (fact, index) => { fact with sequence := snapshot.factSequence + index + 1 }

/-- The task a tool call was bound to when it started, if the plan still has it. -/
def boundTask (snapshot : DynamicTaskPlanV1) (active : Option ActiveDynamicTool) :
    Option DynamicTaskItemV1 :=
  match active.bind (·.taskId) with
  | some taskId =>
    if taskId.isEmpty then none
    else snapshot.tasks.find? fun candidate => candidate.id == taskId
  | none => none

/-- The task a finished tool call belongs to: the one it was bound to at its start,
else the best match. -/
def finishedTask (snapshot : DynamicTaskPlanV1) (active : Option ActiveDynamicTool)
    (input : DynamicTaskToolFinishFact) : Option DynamicTaskItemV1 :=
  let summary := (active.map (·.summary)).getD input.toolName
  (boundTask snapshot active).or
    (selectTask host snapshot summary input.verification [.active, .pending])

/-- The status a finished tool call gives its task. -/
def finishedStatus (input : DynamicTaskToolFinishFact) (status : DynamicTaskStatus) :
    DynamicTaskStatus :=
  if input.verification then if input.status = .success then .completed else .failed else status

/-- What the end of a tool call makes of its task. -/
def finishTask (input : DynamicTaskToolFinishFact) (facts : List DynamicTaskFactV1)
    (timestamp : ℚ) (task : DynamicTaskItemV1) : DynamicTaskItemV1 :=
  let status := finishedStatus input task.status
  { task with
    status := status
    activity := (facts.getLast?.map (·.summary)).or task.activity
    evidence := addEvidence task.evidence (facts.map (·.id))
    updatedAt := timestamp
    completedAt := if status = .completed then some timestamp else none }

/-- `noteToolFinished`. -/
def noteToolFinished (now : ℚ) (input : DynamicTaskToolFinishFact) (s : DynamicTaskRuntime) :
    Answer × DynamicTaskRuntime :=
  if s.disposed then (.ok (mutationAfterDispose s.snapshot), s)
  else
    let forgotten := { s with activeTools := s.activeTools.delete input.toolCallId }
    match s.snapshot with
    | none => (noChange none, forgotten)
    | some snapshot =>
      if input.toolName = "tasks_update" then (noChange (some snapshot), forgotten)
      else
        let timestamp := input.createdAt.getD now
        let task := finishedTask host snapshot (s.activeTools.get? input.toolCallId) input
        let facts := finishedFacts host snapshot input timestamp
        if facts.isEmpty then (noChange (some snapshot), forgotten)
        else
          let tasks := mapSelected task (finishTask input facts timestamp) snapshot.tasks
          match withFacts host snapshot tasks facts timestamp with
          | .error e => (.error e, forgotten)
          | .ok next =>
            (.ok (mutationResult .accepted snapshot.revision next.revision (some next) []),
              acceptSnapshot host next forgotten)

/-! ## External facts -/

/-- `terminalExternalStatus`. -/
def terminalExternalStatus : DynamicTaskFactStatus → Option DynamicTaskStatus
  | .completed | .passed => some .completed
  | .failed | .cancelled | .lost => some .failed
  | .blocked | .stalled => some .blocked
  | .started | .running | .healthy | .succeeded => none

/-- Facts from outside the agent's own tool calls. -/
def isExternal : DynamicTaskFactKind → Bool
  | .workflow | .background | .monitor => true
  | .tool | .file | .verification | .failure => false

/-- The status and the blockers a recorded fact gives its task.  A completed task
keeps both. -/
def recordedStatus (input : DynamicTaskFactInputV1) (task : DynamicTaskItemV1) :
    DynamicTaskStatus × List String :=
  if task.status = .completed then (task.status, task.blockedBy)
  else match (if isExternal input.kind then terminalExternalStatus input.status else none) with
  | some terminal =>
    (terminal, if terminal = .blocked then [promptValue input.summary 240] else [])
  | none =>
    if task.status = .pending ∧ input.status ∈
        [DynamicTaskFactStatus.started, .running, .healthy] then (.active, task.blockedBy)
    else (task.status, task.blockedBy)

/-- What a recorded fact makes of its task. -/
def recordOnTask (input : DynamicTaskFactInputV1) (timestamp : ℚ) (task : DynamicTaskItemV1) :
    DynamicTaskItemV1 :=
  let (status, blockedBy) := recordedStatus input task
  { task with
    status := status
    activity := some input.summary
    evidence := addEvidence task.evidence [input.id]
    blockedBy := blockedBy
    updatedAt := timestamp
    completedAt := if status = .completed then some (task.completedAt.getD timestamp) else none }

/-- The task a recorded fact belongs to: the one it names, else the best match. -/
def recordedTask (snapshot : DynamicTaskPlanV1) (input : DynamicTaskFactInputV1) :
    Option DynamicTaskItemV1 :=
  match input.taskId.filter (fun taskId => !taskId.isEmpty) with
  | some taskId => snapshot.tasks.find? fun task => task.id == taskId
  | none =>
    let path := match input.path with
      | some path => if path.isEmpty then "" else " " ++ path
      | none => ""
    selectTask host snapshot (input.ref ++ " " ++ input.summary ++ path)
      (input.kind = .verification) [.active, .pending]

/-- The plan with a recorded fact. -/
def recordedPlan (snapshot : DynamicTaskPlanV1) (input : DynamicTaskFactInputV1)
    (timestamp : ℚ) : DynamicTaskPlanV1 :=
  let fact : DynamicTaskFactV1 :=
    { sequence := snapshot.factSequence + 1, id := input.id, kind := input.kind
      ref := input.ref, status := input.status, summary := input.summary, path := input.path
      createdAt := timestamp }
  let facts := retainFacts (snapshot.facts ++ [fact])
  let retained := snapshot.tasks.map fun task =>
    { task with evidence := retainEvidence facts task.evidence }
  { snapshot with
    revision := snapshot.revision + 1
    updatedAt := timestamp
    factSequence := fact.sequence
    tasks := mapSelected (recordedTask host snapshot input) (recordOnTask input timestamp) retained
    facts := facts }

/-- `recordFact`. -/
def recordFact (now : ℚ) (input : DynamicTaskFactInputV1) (s : DynamicTaskRuntime) :
    Answer × DynamicTaskRuntime :=
  if s.disposed then (.ok (mutationAfterDispose s.snapshot), s)
  else match s.snapshot with
  | none => (noChange none, s)
  | some snapshot =>
    let invalid := fun (e : DynamicTaskDiagnosticV1) =>
      mutationResult .invalid snapshot.revision snapshot.revision (some snapshot) [e]
    if snapshot.facts.any (fun known => known.id == input.id) then (noChange (some snapshot), s)
    else if input.id.isEmpty || input.ref.isEmpty || input.summary.isEmpty then
      (.ok (invalid ⟨"invalid_fact", "Dynamic Task facts require id, ref, and summary", none⟩), s)
    else match input.taskId.filter (fun taskId => !taskId.isEmpty &&
        !(snapshot.tasks.any fun task => task.id == taskId)) with
    | some taskId =>
      (.ok (invalid ⟨"task_not_found", "Unknown Dynamic Task " ++ Json.quote taskId, none⟩), s)
    | none =>
      let next := recordedPlan host snapshot input (input.createdAt.getD now)
      match validateDynamicTaskPlan host (next.toJson host) with
      | .error e => (.ok (invalid e), s)
      | .ok _ =>
        (.ok (mutationResult .accepted snapshot.revision next.revision (some next) []),
          acceptSnapshot host next s)

/-- `DynamicTaskWorkflowFact`. -/
structure DynamicTaskWorkflowFact where
  workflowId : String
  nodeId : String
  status : DynamicTaskFactStatus
  summary : String
  createdAt : Option ℚ
  deriving DecidableEq, Repr

/-- `DynamicTaskBackgroundFact`. -/
structure DynamicTaskBackgroundFact where
  taskId : String
  status : DynamicTaskFactStatus
  summary : String
  eventId : Option String
  createdAt : Option ℚ
  deriving DecidableEq, Repr

/-- `DynamicTaskMonitorFact`. -/
structure DynamicTaskMonitorFact where
  monitorId : String
  status : DynamicTaskFactStatus
  summary : String
  createdAt : Option ℚ
  deriving DecidableEq, Repr

/-- `noteWorkflow`. -/
def noteWorkflow (now : ℚ) (input : DynamicTaskWorkflowFact) :
    DynamicTaskRuntime → Answer × DynamicTaskRuntime :=
  recordFact host now
    { id := factId host "workflow"
        (input.workflowId ++ ":" ++ input.nodeId ++ ":" ++ input.status.name)
      kind := .workflow, ref := input.workflowId ++ ":" ++ input.nodeId
      status := input.status, summary := input.summary, path := none, taskId := none
      createdAt := input.createdAt }

/-- `noteBackground`. -/
def noteBackground (now : ℚ) (input : DynamicTaskBackgroundFact) :
    DynamicTaskRuntime → Answer × DynamicTaskRuntime :=
  recordFact host now
    { id := factId host "background"
        (input.taskId ++ ":" ++ input.eventId.getD input.status.name)
      kind := .background, ref := input.taskId
      status := input.status, summary := input.summary, path := none, taskId := none
      createdAt := input.createdAt }

/-- `noteMonitor`. -/
def noteMonitor (now : ℚ) (input : DynamicTaskMonitorFact) :
    DynamicTaskRuntime → Answer × DynamicTaskRuntime :=
  recordFact host now
    { id := factId host "monitor" (input.monitorId ++ ":" ++ input.status.name)
      kind := .monitor, ref := input.monitorId
      status := input.status, summary := input.summary, path := none, taskId := none
      createdAt := input.createdAt }

/-! ## The main agent's plan -/

/-- The number `expectedRevision` of an arbitrary value, `0` without one. -/
def claimedRevision (value : Json) : ℚ :=
  (Json.asNumber? (value.get? "expectedRevision")).getD 0

/-- The task with a given id. -/
def taskById (plan : Option DynamicTaskPlanV1) (id : String) : Option DynamicTaskItemV1 :=
  (plan.map (·.tasks)).getD [] |>.find? fun task => task.id == id

/-- The current and the base version of a task, if an update is rebased and both
exist. -/
def rebaseVersions (rebasing : Bool) (previous base : Option DynamicTaskItemV1) :
    Option (DynamicTaskItemV1 × DynamicTaskItemV1) :=
  if rebasing then previous.bind fun p => base.map fun b => (p, b) else none

/-- What an update makes of a task: `previous` is its current version and `base` the
version the update started from. -/
def updatedTask (rebasing : Bool) (previous base : Option DynamicTaskItemV1) (timestamp : ℚ)
    (task : TasksUpdateTaskV1) : DynamicTaskItemV1 :=
  let versions := rebaseVersions rebasing previous base
  let status := match versions with
    | some (p, b) => if task.status = b.status then p.status else task.status
    | none => task.status
  let activity := match versions with
    | some (p, b) =>
      if task.activity ≠ none ∧ task.activity = b.activity then p.activity
      else task.activity.or p.activity
    | none => task.activity.or (previous.bind (·.activity))
  let blockedBy := match task.blockedBy with
    | some blockers =>
      match versions with
      | some (p, b) => if blockers = b.blockedBy then p.blockedBy else blockers
      | none => blockers
    | none =>
      match previous with
      | some p => if p.status = status then p.blockedBy else []
      | none => []
  let completedAt :=
    if status = .completed then
      match previous with
      | some p => if p.status = .completed then p.completedAt else some timestamp
      | none => some timestamp
    else none
  { id := task.id, title := task.title, status, dependsOn := task.dependsOn.getD []
    matchHints := task.matchHints.getD [], activity
    evidence := (previous.map (·.evidence)).getD [], blockedBy
    createdAt := (previous.map (·.createdAt)).getD timestamp, updatedAt := timestamp
    completedAt }

/-- The snapshot an update starts from: the current one, or the one of the revision
it expects if nothing but statuses, activities, evidence and blockers changed since. -/
def baseSnapshot (s : DynamicTaskRuntime) (expectedRevision : Nat) :
    Option (Option DynamicTaskPlanV1) :=
  if expectedRevision = revisionOf s.snapshot then some s.snapshot
  else match s.snapshot, s.snapshotHistory.get? expectedRevision with
  | some current, some expected =>
    if expected.planId = current.planId ∧
        stablePlanStructure expected = stablePlanStructure current then some (some expected)
    else none
  | _, _ => none

/-- The plan an update asks for. -/
def updatedPlan (s : DynamicTaskRuntime) (base : Option DynamicTaskPlanV1)
    (input : TasksUpdateInputV1) (now : ℚ) (newPlanId : String) : DynamicTaskPlanV1 :=
  let rebasing : Bool := input.expectedRevision ≠ revisionOf s.snapshot
  { planId := (s.snapshot.map (·.planId)).getD newPlanId
    revision := revisionOf s.snapshot + 1
    goal := input.goal
    createdAt := (s.snapshot.map (·.createdAt)).getD now
    updatedAt := now
    factSequence := (s.snapshot.map (·.factSequence)).getD 0
    tasks := input.tasks.map fun task =>
      updatedTask rebasing (taskById s.snapshot task.id) (taskById base task.id) now task
    facts := (s.snapshot.map (·.facts)).getD [] }

/-- `updatePlan`.  Notifications carry no authority and are left out. -/
def updatePlan (now : ℚ) (newPlanId : String) (value : Json) (s : DynamicTaskRuntime) :
    Answer × DynamicTaskRuntime :=
  let actualRevision := revisionOf s.snapshot
  if s.disposed then (.ok (mutationAfterDispose s.snapshot), s)
  else match validateTasksUpdateInput host value with
  | .error e =>
    (.ok (mutationResult .invalid (claimedRevision value) actualRevision s.snapshot [e]), s)
  | .ok input =>
    match baseSnapshot s input.expectedRevision with
    | none =>
      (.ok (mutationResult .revisionConflict input.expectedRevision actualRevision s.snapshot
        [⟨"revision_conflict", "Dynamic Task structure changed after revision " ++
          toString input.expectedRevision ++ "; current revision is " ++ toString actualRevision,
          none⟩]), s)
    | some base =>
      if s.snapshot = none ∧ input.reason ≠ .initialPlan then
        (.ok (mutationResult .invalid input.expectedRevision actualRevision none
          [⟨"initial_plan_required",
            "Create the first Dynamic Task plan with reason initial_plan", none⟩]), s)
      else if s.snapshot ≠ none ∧ input.reason = .initialPlan then
        (.ok (mutationResult .invalid input.expectedRevision actualRevision s.snapshot
          [⟨"plan_exists", "initial_plan cannot replace an existing Dynamic Task plan", none⟩]), s)
      else
        let next := updatedPlan s base input now newPlanId
        match validateDynamicTaskPlan host (next.toJson host) with
        | .error e =>
          (.ok (mutationResult .invalid input.expectedRevision actualRevision s.snapshot [e]), s)
        | .ok _ =>
          if s.snapshot.map (stablePlanContent host) = some (stablePlanContent host next) then
            (.ok (mutationResult .noChange input.expectedRevision actualRevision s.snapshot []), s)
          else
            let accepted := acceptSnapshot host next s
            (.ok (mutationResult .accepted input.expectedRevision next.revision (some next) []),
              { accepted with
                initialPlanRequired := false
                refreshReminder :=
                  if input.reason = .workStarted then accepted.refreshReminder else none })

/-! ## The reviewer's patch -/

/-- `reviewerTransitionAllowed`. -/
def reviewerTransitionAllowed (source target : DynamicTaskStatus) : Bool :=
  if source = target then true
  else match source with
  | .pending => target = .active || target = .failed || target = .blocked
  | .active => target = .completed || target = .failed || target = .blocked
  | .failed | .blocked => target = .active
  | .completed => false

/-- How far the last review went. -/
def reviewedThrough (lastReview : Option DynamicTaskReviewEntryV1) : ℚ :=
  (lastReview.map (·.throughFactSequence)).getD 0

/-- The facts no review has covered yet. -/
def unreviewedFacts (facts : List DynamicTaskFactV1)
    (lastReview : Option DynamicTaskReviewEntryV1) : List DynamicTaskFactV1 :=
  facts.filter fun fact => reviewedThrough lastReview < fact.sequence

/-- The checks on one update of a patch. -/
def checkPatchUpdate (snapshot : DynamicTaskPlanV1) (eligibleFactIds : List String)
    (update : TaskPatchUpdateV1) : Except DynamicTaskDiagnosticV1 Unit :=
  match snapshot.tasks.find? fun candidate => candidate.id == update.id with
  | none =>
    .error ⟨"task_not_found", "Unknown Dynamic Task " ++ Json.quote update.id, some update.id⟩
  | some task => do
    let nextStatus := update.status.getD task.status
    let evidence := update.evidence.getD []
    let hasNewEvidence := evidence.any (eligibleFactIds.contains ·)
    if !reviewerTransitionAllowed task.status nextStatus then
      .error ⟨"reviewer_transition_forbidden", "Reviewer cannot transition Task " ++
        Json.quote update.id ++ " from " ++ task.status.name ++ " to " ++ nextStatus.name,
        some update.id⟩
    evidence.forM fun id =>
      if id ∉ snapshot.facts.map (·.id) then
        .error ⟨"unknown_evidence", "Reviewer patch references unknown evidence " ++ Json.quote id,
          some update.id⟩
      else .ok ()
    if nextStatus = .completed && !hasNewEvidence then
      .error ⟨"completion_new_evidence_required", "Reviewer completion for " ++
        Json.quote update.id ++ " requires evidence from the current review facts", some update.id⟩
    if (task.status = .failed || task.status = .blocked) && nextStatus = .active &&
        !hasNewEvidence then
      .error ⟨"reactivation_new_evidence_required", "Reviewer reactivation for " ++
        Json.quote update.id ++ " requires evidence from the current review facts", some update.id⟩

/-- What a patch makes of a task. -/
def patchTask (patch : TaskPatchV1) (timestamp : ℚ) (task : DynamicTaskItemV1) :
    Except DynamicTaskValidationError DynamicTaskItemV1 :=
  match patch.updates.find? fun update => update.id == task.id with
  | none => .ok task
  | some update =>
    let status := update.status.getD task.status
    let blockedBy := update.blockedBy.getD task.blockedBy
    if status = .blocked ∧ blockedBy.length = 0 then
      .error ⟨"blocked_reason_required",
        "Reviewer blocked status for " ++ Json.quote task.id ++ " requires blockedBy", some task.id⟩
    else .ok
      { task with
        status := status
        activity := update.activity.or task.activity
        evidence := Js.unique (task.evidence ++ update.evidence.getD [])
        blockedBy := blockedBy
        updatedAt := timestamp
        completedAt :=
          if status = .completed then
            if task.status = .completed then task.completedAt else some timestamp
          else none }

/-- `applyReviewerPatch`. -/
def applyReviewerPatch (now : ℚ) (value : Json) (s : DynamicTaskRuntime) :
    Answer × DynamicTaskRuntime :=
  let actualRevision := revisionOf s.snapshot
  if s.disposed then (.ok (mutationAfterDispose s.snapshot), s)
  else match validateTaskPatch host value with
  | .error e =>
    (.ok (mutationResult .invalid (claimedRevision value) actualRevision s.snapshot [e]), s)
  | .ok patch =>
    let answer := fun status diagnostics =>
      mutationResult status patch.expectedRevision actualRevision s.snapshot diagnostics
    match s.snapshot with
    | none =>
      (.ok (answer .invalid [⟨"plan_missing",
        "Cannot apply a Task patch without a Dynamic Task plan", none⟩]), s)
    | some snapshot =>
      let eligibleFacts := unreviewedFacts snapshot.facts s.lastReview
      if patch.expectedRevision ≠ actualRevision then
        (.ok (answer .revisionConflict [⟨"revision_conflict",
          "Expected Dynamic Task revision " ++ toString patch.expectedRevision ++
            ", current revision is " ++ toString actualRevision, none⟩]), s)
      else if eligibleFacts.isEmpty ∨ patch.factsHash ≠ hashDynamicTaskFacts host eligibleFacts then
        (.ok (answer .invalid [⟨"facts_hash_mismatch",
          "Reviewer patch factsHash does not match the current unreviewed Dynamic Task facts",
          none⟩]), s)
      else match patch.updates.forM (checkPatchUpdate snapshot (eligibleFacts.map (·.id))) with
      | .error e => (.ok (answer .invalid [e]), s)
      | .ok _ =>
        match snapshot.tasks.mapM (patchTask patch now) with
        | .error e =>
          (.ok (mutationResult .invalid (claimedRevision value) actualRevision s.snapshot [e]), s)
        | .ok tasks =>
          let next := { snapshot with
            revision := snapshot.revision + 1, updatedAt := now, tasks := tasks }
          match validateDynamicTaskPlan host (next.toJson host) with
          | .error e => (.ok (answer .invalid [e]), s)
          | .ok _ =>
            if stablePlanContent host next = stablePlanContent host snapshot then
              (.ok (answer .noChange []), s)
            else
              (.ok (mutationResult .accepted patch.expectedRevision next.revision (some next) []),
                acceptSnapshot host next s)

/-! ## Restoring a branch -/

/-- The snapshot a session entry holds, if it is a snapshot entry. -/
def snapshotValue? : SessionEntry → Option Json
  | .custom customType (some data) =>
    if customType = dynamicTaskSnapshotEntryType ∧ data.get? "version" = some (.num 1) then
      data.get? "snapshot"
    else none
  | _ => none

/-- One turn of the loop over the entries: the snapshot restored so far and the
history.  An entry counts if its plan is valid and of the next revision; the check
for a repeated entry of the current revision, which is skipped as well, is left out. -/
def restoreEntry (acc : Option DynamicTaskPlanV1 × OrderedMap Nat DynamicTaskPlanV1)
    (entry : SessionEntry) : Option DynamicTaskPlanV1 × OrderedMap Nat DynamicTaskPlanV1 :=
  match snapshotValue? entry with
  | none => acc
  | some value =>
    match validateDynamicTaskPlan host value with
    | .error _ => acc
    | .ok candidate =>
      if candidate.revision = revisionOf acc.1 + 1 then
        (some candidate, acc.2.set candidate.revision candidate)
      else acc

/-- The snapshot and the history that a branch restores. -/
def restoreSnapshots (entries : List SessionEntry) :
    Option DynamicTaskPlanV1 × OrderedMap Nat DynamicTaskPlanV1 :=
  entries.foldl (restoreEntry host) (none, OrderedMap.empty)

/-- The review a session entry holds, if it is a review entry. -/
def reviewValue? : SessionEntry → Option DynamicTaskReviewEntryV1
  | .custom customType (some data) =>
    if customType = dynamicTaskReviewEntryType then getDynamicTaskReviewEntry data else none
  | _ => none

/-- The reviews of a branch that count for a plan. -/
def reviewsFor (plan : DynamicTaskPlanV1) (entries : List SessionEntry) :
    List DynamicTaskReviewEntryV1 :=
  (entries.filterMap reviewValue?).filter fun review =>
    review.planId = plan.planId && review.throughFactSequence ≤ plan.factSequence

/-- The last review that a branch restores for a plan. -/
def restoreReview (restored : Option DynamicTaskPlanV1) (entries : List SessionEntry) :
    Option DynamicTaskReviewEntryV1 :=
  restored.bind fun plan => (reviewsFor plan entries).getLast?

/-- `rebuild`, when the session has moved to the branch `entries`. -/
def rebuild (entries : List SessionEntry) (s : DynamicTaskRuntime) : DynamicTaskRuntime :=
  if s.disposed then { s with branch := entries }
  else
    let restored := restoreSnapshots host entries
    { s with
      snapshot := restored.1
      snapshotHistory := restored.2
      lastReview := restoreReview restored.1 entries
      activeTools := OrderedMap.empty
      reviewedRuns := []
      initialPlanRequired := false
      refreshReminder := none
      branch := entries }

/-- The constructor: a runtime that has restored the branch of its session. -/
def createRuntime (entries : List SessionEntry) : DynamicTaskRuntime :=
  rebuild host entries
    { snapshot := none, snapshotHistory := OrderedMap.empty, activeTools := OrderedMap.empty
      reviewedRuns := [], lastReview := none, reviewController := none, reviewActive := false
      initialPlanRequired := false, refreshReminder := none, disposed := false, branch := [] }

end BeauPi.Tasks
