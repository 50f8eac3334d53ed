import BeauPi.Tasks.Types
import BeauPi.Js.Shape
import BeauPi.Machine.DepthFirst

/-!
# Dynamic Tasks: schemas and validation

`core/tasks/schema.ts`.  The three strict schemas are shapes, so a validated plan
is written to the session and read back without loss; on top of them stand the
rules the schema language cannot express.

* `validateTasksUpdateInput`, `validateDynamicTaskPlan`, `validateTaskPatch` — the
  validators, on arbitrary JSON values.
* `validateDynamicTaskPlan_toJson` — **round trip**: validating a written plan
  gives that plan or an error.
-/

namespace BeauPi.Tasks

open Machine

/-- `DYNAMIC_TASK_LIMITS`. -/
structure DynamicTaskLimits where
  maxTasks : Nat := 16
  maxIdLength : Nat := 64
  maxGoalLength : Nat := 1000
  maxTitleLength : Nat := 240
  maxActivityLength : Nat := 500
  maxDependsOn : Nat := 16
  maxMatchHints : Nat := 12
  maxMatchHintLength : Nat := 240
  maxEvidence : Nat := 32
  maxBlockers : Nat := 8
  maxBlockerLength : Nat := 240
  maxFacts : Nat := 128
  maxFactIdLength : Nat := 240
  maxFactRefLength : Nat := 500
  maxFactSummaryLength : Nat := 500
  maxPathLength : Nat := 1000
  maxPlanCharacters : Nat := 64000
  maxPatchUpdates : Nat := 16

/-- The limits in force. -/
def limits : DynamicTaskLimits := {}

/-- A `DynamicTaskValidationError`. -/
abbrev DynamicTaskValidationError := DynamicTaskDiagnosticV1

variable (host : Host)

/-! ## The schemas -/

/-- `Type.String({ minLength: 1, maxLength })`. -/
def boundedText (maxLength : Nat) : Shape String :=
  .text fun s => 1 ≤ host.textLength s && host.textLength s ≤ maxLength

/-- `taskIdSchema`. -/
def taskIdShape : Shape String :=
  .text fun s => 1 ≤ host.textLength s && host.textLength s ≤ limits.maxIdLength &&
    Js.isIdentifier s

/-- `taskStatusSchema`. -/
def taskStatusShape : Shape DynamicTaskStatus :=
  .keyword [.pending, .active, .completed, .failed, .blocked] (·.name) (by
    intro a _ b h; cases a <;> cases b <;> first | rfl | simp [DynamicTaskStatus.name] at h)

/-- `updateReasonSchema`. -/
def updateReasonShape : Shape DynamicTaskUpdateReason :=
  .keyword [.initialPlan, .workStarted, .planChanged, .blocked] (·.name) (by
    intro a _ b h; cases a <;> cases b <;> first | rfl | simp [DynamicTaskUpdateReason.name] at h)

/-- `factKindSchema`. -/
def factKindShape : Shape DynamicTaskFactKind :=
  .keyword [.tool, .file, .verification, .workflow, .background, .monitor, .failure] (·.name) (by
    intro a _ b h; cases a <;> cases b <;> first | rfl | simp [DynamicTaskFactKind.name] at h)

/-- `factStatusSchema`. -/
def factStatusShape : Shape DynamicTaskFactStatus :=
  .keyword [.started, .running, .healthy, .succeeded, .passed, .completed, .failed, .cancelled,
    .blocked, .stalled, .lost] (·.name) (by
    intro a _ b h; cases a <;> cases b <;> first | rfl | simp [DynamicTaskFactStatus.name] at h)

/-- `blockersSchema`. -/
def blockersShape : Shape (List String) :=
  .array (boundedText host limits.maxBlockerLength) 0 limits.maxBlockers true

/-- `dependenciesSchema`. -/
def dependenciesShape : Shape (List String) :=
  .array (taskIdShape host) 0 limits.maxDependsOn true

/-- `matchHintsSchema`. -/
def matchHintsShape : Shape (List String) :=
  .array (boundedText host limits.maxMatchHintLength) 0 limits.maxMatchHints true

/-- `evidenceSchema`. -/
def evidenceShape : Shape (List String) :=
  .array (boundedText host limits.maxFactIdLength) 0 limits.maxEvidence true

/-- `TASKS_UPDATE_TASK_SCHEMA`. -/
def tasksUpdateTaskShape : Shape TasksUpdateTaskV1 :=
  .object
    ((Shape.Fields.none TasksUpdateTaskV1.mk)
      |>.required "id" (taskIdShape host) (·.id)
      |>.required "title" (boundedText host limits.maxTitleLength) (·.title)
      |>.required "status" taskStatusShape (·.status)
      |>.optional "dependsOn" (dependenciesShape host) (·.dependsOn)
      |>.optional "matchHints" (matchHintsShape host) (·.matchHints)
      |>.optional "activity" (boundedText host limits.maxActivityLength) (·.activity)
      |>.optional "blockedBy" (blockersShape host) (·.blockedBy))
    (by simp) (fun _ => rfl)

/-- `TASKS_UPDATE_SCHEMA`. -/
def tasksUpdateShape : Shape TasksUpdateInputV1 :=
  .object
    ((Shape.Fields.none TasksUpdateInputV1.mk)
      |>.constant "version" (.num 1)
      |>.required "expectedRevision" (.integer 0) (·.expectedRevision)
      |>.required "reason" updateReasonShape (·.reason)
      |>.required "goal" (boundedText host limits.maxGoalLength) (·.goal)
      |>.required "tasks" (.array (tasksUpdateTaskShape host) 1 limits.maxTasks false) (·.tasks))
    (by simp) (fun _ => rfl)

/-- `DYNAMIC_TASK_FACT_SCHEMA`. -/
def dynamicTaskFactShape : Shape DynamicTaskFactV1 :=
  .object
    ((Shape.Fields.none DynamicTaskFactV1.mk)
      |>.constant "version" (.num 1)
      |>.required "sequence" (.integer 1) (·.sequence)
      |>.required "id" (boundedText host limits.maxFactIdLength) (·.id)
      |>.required "kind" factKindShape (·.kind)
      |>.required "ref" (boundedText host limits.maxFactRefLength) (·.ref)
      |>.required "status" factStatusShape (·.status)
      |>.required "summary" (boundedText host limits.maxFactSummaryLength) (·.summary)
      |>.optional "path" (boundedText host limits.maxPathLength) (·.path)
      |>.required "createdAt" (.number 0) (·.createdAt))
    (by simp) (fun _ => rfl)

/-- `DYNAMIC_TASK_ITEM_SCHEMA`. -/
def dynamicTaskItemShape : Shape DynamicTaskItemV1 :=
  .object
    ((Shape.Fields.none DynamicTaskItemV1.mk)
      |>.required "id" (taskIdShape host) (·.id)
      |>.required "title" (boundedText host limits.maxTitleLength) (·.title)
      |>.required "status" taskStatusShape (·.status)
      |>.required "dependsOn" (dependenciesShape host) (·.dependsOn)
      |>.required "matchHints" (matchHintsShape host) (·.matchHints)
      |>.optional "activity" (boundedText host limits.maxActivityLength) (·.activity)
      |>.required "evidence" (evidenceShape host) (·.evidence)
      |>.required "blockedBy" (blockersShape host) (·.blockedBy)
      |>.required "createdAt" (.number 0) (·.createdAt)
      |>.required "updatedAt" (.number 0) (·.updatedAt)
      |>.optional "completedAt" (.number 0) (·.completedAt))
    (by simp) (fun _ => rfl)

/-- `DYNAMIC_TASK_PLAN_SCHEMA`. -/
def dynamicTaskPlanShape : Shape DynamicTaskPlanV1 :=
  .object
    ((Shape.Fields.none DynamicTaskPlanV1.mk)
      |>.constant "version" (.num 1)
      |>.required "planId" (boundedText host 100) (·.planId)
      |>.required "revision" (.integer 1) (·.revision)
      |>.required "goal" (boundedText host limits.maxGoalLength) (·.goal)
      |>.required "createdAt" (.number 0) (·.createdAt)
      |>.required "updatedAt" (.number 0) (·.updatedAt)
      |>.required "factSequence" (.integer 0) (·.factSequence)
      |>.required "tasks" (.array (dynamicTaskItemShape host) 1 limits.maxTasks false) (·.tasks)
      |>.required "facts" (.array (dynamicTaskFactShape host) 0 limits.maxFacts false) (·.facts))
    (by simp) (fun _ => rfl)

/-- `TASK_PATCH_UPDATE_SCHEMA`. -/
def taskPatchUpdateShape : Shape TaskPatchUpdateV1 :=
  .object
    ((Shape.Fields.none TaskPatchUpdateV1.mk)
      |>.required "id" (taskIdShape host) (·.id)
      |>.optional "status" taskStatusShape (·.status)
      |>.optional "activity" (boundedText host limits.maxActivityLength) (·.activity)
      |>.optional "evidence" (evidenceShape host) (·.evidence)
      |>.optional "blockedBy" (blockersShape host) (·.blockedBy))
    (by simp) (fun _ => rfl)

/-- `^[a-f0-9]{64}$`. -/
def isFactsHash (s : String) : Bool :=
  s.toList.length == 64 && s.toList.all fun c => ('a' ≤ c && c ≤ 'f') || Js.isDigit c

/-- `TASK_PATCH_SCHEMA`. -/
def taskPatchShape : Shape TaskPatchV1 :=
  .object
    ((Shape.Fields.none TaskPatchV1.mk)
      |>.constant "version" (.num 1)
      |>.required "expectedRevision" (.integer 1) (·.expectedRevision)
      |>.required "factsHash" (.text isFactsHash) (·.factsHash)
      |>.required "updates" (.array (taskPatchUpdateShape host) 1 limits.maxPatchUpdates false)
        (·.updates))
    (by simp) (fun _ => rfl)

/-- The plan as the session stores it. -/
def DynamicTaskPlanV1.toJson (plan : DynamicTaskPlanV1) : Json :=
  (dynamicTaskPlanShape host).write plan

/-! ## The rules beyond the schemas -/

/-- `schemaError`: the first five errors of the schema library. -/
def schemaError (label : String) (value : Json) : DynamicTaskValidationError :=
  let details := "; ".intercalate (((host.schemaErrors label value).take 5).map fun error =>
    (if error.1.isEmpty then "/" else error.1) ++ ": " ++ error.2.getD "schema mismatch")
  ⟨"invalid_schema",
    label ++ " is invalid: " ++ (if details.isEmpty then "schema mismatch" else details), none⟩

/-- Read a value that must have a shape. -/
def assertShape {α : Type} (label : String) (shape : Shape α) (value : Json) :
    Except DynamicTaskValidationError α :=
  match shape.read? value with
  | some a => .ok a
  | none => .error (schemaError host label value)

/-- `assertUnique`. -/
def assertUnique (values : List String) (label : String) (taskId : Option String) :
    Except DynamicTaskValidationError Unit :=
  if values.Nodup then .ok ()
  else .error ⟨"duplicate_value", label ++ " contains duplicate values", taskId⟩

/-- The label of a list of a task. -/
def taskLabel (id list : String) : String := "Task " ++ Json.quote id ++ " " ++ list

/-- One turn of the loop that collects the task ids. -/
def collectTaskId (seen : List String) (id : String) :
    Except DynamicTaskValidationError (List String) :=
  if id ∈ seen then .error ⟨"duplicate_task_id", "Duplicate Task id " ++ Json.quote id, some id⟩
  else .ok (id :: seen)

/-- The first part of `validateDependencies`: no task id occurs twice. -/
def assertUniqueTaskIds (ids : List String) : Except DynamicTaskValidationError Unit := do
  let _ ← ids.foldlM collectTaskId []
  return ()

/-- The dependencies of one task name other tasks of the plan. -/
def assertTaskDependencies (ids : List String) (id : String) (dependsOn : List String) :
    Except DynamicTaskValidationError Unit := do
  assertUnique dependsOn (taskLabel id "dependsOn") (some id)
  dependsOn.forM fun dependency =>
    if dependency = id then
      .error ⟨"dependency_cycle", "Task " ++ Json.quote id ++ " cannot depend on itself", some id⟩
    else if dependency ∉ ids then
      .error ⟨"unknown_dependency",
        "Task " ++ Json.quote id ++ " depends on unknown Task " ++ Json.quote dependency, some id⟩
    else .ok ()

/-- The dependencies of the task with a given id. -/
def dependenciesOf (tasks : List (String × List String)) (id : String) : List String :=
  match tasks.find? (fun task => task.1 == id) with
  | some task => task.2
  | none => []

/-- The last part of `validateDependencies`: the dependencies run in no circle. -/
def assertNoCycle (tasks : List (String × List String)) :
    Except DynamicTaskValidationError Unit :=
  match visitAll (dependenciesOf tasks) (tasks.map Prod.fst) with
  | .ok _ => .ok ()
  | .error (.cycle path id) =>
    .error ⟨"dependency_cycle", "Dynamic Task dependency cycle: " ++ " -> ".intercalate path,
      some id⟩
  | .error .outOfFuel => .error ⟨"dependency_cycle", "", none⟩

/-- `validateDependencies`, on the ids and dependencies of the tasks. -/
def validateDependencies (tasks : List (String × List String)) :
    Except DynamicTaskValidationError Unit := do
  assertUniqueTaskIds (tasks.map Prod.fst)
  tasks.forM fun task => assertTaskDependencies (tasks.map Prod.fst) task.1 task.2
  assertNoCycle tasks

/-- One task of `validateBlockedState`. -/
def assertBlockedReason (id : String) (status : DynamicTaskStatus) (blockedBy : List String) :
    Except DynamicTaskValidationError Unit :=
  if status = .blocked ∧ blockedBy.length = 0 then
    .error ⟨"blocked_reason_required",
      "Task " ++ Json.quote id ++ " with blocked status requires blockedBy", some id⟩
  else assertUnique blockedBy (taskLabel id "blockedBy") (some id)

/-- `assertPlanBudget`: a bound on `JSON.stringify(value).length`. -/
def assertPlanBudget (value : Json) : Except DynamicTaskValidationError Unit :=
  if limits.maxPlanCharacters < Js.utf16LengthChars value.text then
    .error ⟨"plan_too_large",
      "Dynamic Task plan exceeds " ++ toString limits.maxPlanCharacters ++ " characters", none⟩
  else .ok ()

/-- `validateTasksUpdateInput`. -/
def validateTasksUpdateInput (value : Json) :
    Except DynamicTaskValidationError TasksUpdateInputV1 := do
  let input ← assertShape host "tasks_update input" (tasksUpdateShape host) value
  validateDependencies (input.tasks.map fun task => (task.id, task.dependsOn.getD []))
  input.tasks.forM fun task =>
    assertBlockedReason task.id task.status (task.blockedBy.getD [])
  input.tasks.forM fun task =>
    assertUnique (task.matchHints.getD []) (taskLabel task.id "matchHints") (some task.id)
  assertPlanBudget value
  return input

/-- One turn of the loop over the facts: the ids met so far and the last sequence
number. -/
def collectFact (factSequence : Nat) (acc : List String × Nat) (fact : DynamicTaskFactV1) :
    Except DynamicTaskValidationError (List String × Nat) :=
  if fact.id ∈ acc.1 then
    .error ⟨"duplicate_fact_id", "Duplicate fact id " ++ Json.quote fact.id, none⟩
  else if fact.sequence ≤ acc.2 ∨ factSequence < fact.sequence then
    .error ⟨"invalid_fact_sequence", "Invalid fact sequence for " ++ fact.id, none⟩
  else .ok (fact.id :: acc.1, fact.sequence)

/-- The facts of a plan have different ids and increasing sequence numbers, up to
the sequence number of the plan. -/
def assertFacts (factSequence : Nat) (facts : List DynamicTaskFactV1) :
    Except DynamicTaskValidationError Unit := do
  let _ ← facts.foldlM (collectFact factSequence) ([], 0)
  return ()

/-- The rules of `validateDynamicTaskPlan` for one task. -/
def assertTaskItem (factIds : List String) (task : DynamicTaskItemV1) :
    Except DynamicTaskValidationError Unit := do
  assertUnique task.matchHints (taskLabel task.id "matchHints") (some task.id)
  assertUnique task.evidence (taskLabel task.id "evidence") (some task.id)
  task.evidence.forM fun evidence =>
    if evidence ∉ factIds then
      .error ⟨"unknown_evidence",
        "Task " ++ Json.quote task.id ++ " references unknown evidence " ++ Json.quote evidence,
        some task.id⟩
    else .ok ()
  if task.status = .completed ∧ task.completedAt = none then
    .error ⟨"completed_at_required",
      "Completed Task " ++ Json.quote task.id ++ " requires completedAt", some task.id⟩
  else if task.status ≠ .completed ∧ task.completedAt ≠ none then
    .error ⟨"completed_at_forbidden",
      "Non-completed Task " ++ Json.quote task.id ++ " cannot have completedAt", some task.id⟩
  else .ok ()

/-- `validateDynamicTaskPlan`. -/
def validateDynamicTaskPlan (value : Json) :
    Except DynamicTaskValidationError DynamicTaskPlanV1 := do
  let plan ← assertShape host "Dynamic Task plan" (dynamicTaskPlanShape host) value
  validateDependencies (plan.tasks.map fun task => (task.id, task.dependsOn))
  plan.tasks.forM fun task => assertBlockedReason task.id task.status task.blockedBy
  assertFacts plan.factSequence plan.facts
  plan.tasks.forM (assertTaskItem (plan.facts.map (·.id)))
  assertPlanBudget value
  return plan

/-- One update of `validateTaskPatch`. -/
def assertPatchUpdate (update : TaskPatchUpdateV1) : Except DynamicTaskValidationError Unit := do
  if update.status = none ∧ update.activity = none ∧ update.evidence = none ∧
      update.blockedBy = none then
    .error ⟨"empty_patch", "Task patch for " ++ Json.quote update.id ++ " contains no updates",
      some update.id⟩
  assertUnique (update.evidence.getD []) ("Task patch " ++ Json.quote update.id ++ " evidence")
    (some update.id)
  assertUnique (update.blockedBy.getD []) ("Task patch " ++ Json.quote update.id ++ " blockedBy")
    (some update.id)

/-- `validateTaskPatch`. -/
def validateTaskPatch (value : Json) : Except DynamicTaskValidationError TaskPatchV1 := do
  let patch ← assertShape host "Task patch" (taskPatchShape host) value
  assertUnique (patch.updates.map (·.id)) "Task patch updates" none
  patch.updates.forM assertPatchUpdate
  return patch

/-! ## What validation guarantees -/

theorem assertShape_eq_ok {α : Type} {host : Host} {label : String} {shape : Shape α}
    {value : Json} {a : α} :
    assertShape host label shape value = .ok a ↔ shape.read? value = some a := by
  unfold assertShape
  cases shape.read? value with
  | none => simp
  | some b => simp

/-- **Round trip.**  Validating a plan as the session stores it gives that plan, or
an error. -/
theorem validateDynamicTaskPlan_toJson {host : Host} {plan result : DynamicTaskPlanV1}
    (h : validateDynamicTaskPlan host (plan.toJson host) = .ok result) : result = plan := by
  unfold validateDynamicTaskPlan at h
  obtain ⟨read, hread, h⟩ := bind_eq_ok.1 h
  obtain ⟨_, -, h⟩ := bind_eq_ok.1 h
  obtain ⟨_, -, h⟩ := bind_eq_ok.1 h
  obtain ⟨_, -, h⟩ := bind_eq_ok.1 h
  obtain ⟨_, -, h⟩ := bind_eq_ok.1 h
  obtain ⟨_, -, h⟩ := bind_eq_ok.1 h
  cases h
  exact (dynamicTaskPlanShape host).read?_write (assertShape_eq_ok.1 hread)

/-- What the operations rely on in a plan. -/
structure WellFormed (plan : DynamicTaskPlanV1) : Prop where
  taskIds : (plan.tasks.map (·.id)).Nodup
  completedAt : ∀ task ∈ plan.tasks, task.status = .completed → task.completedAt ≠ none

theorem collectTaskIds_nodup : ∀ (ids seen out : List String),
    ids.foldlM collectTaskId seen = .ok out → ids.Nodup ∧ ∀ id ∈ ids, id ∉ seen := by
  intro ids
  induction ids with
  | nil => intro seen out _; exact ⟨List.nodup_nil, by simp⟩
  | cons id ids ih =>
    intro seen out h
    rw [List.foldlM_cons, collectTaskId] at h
    by_cases hmem : id ∈ seen
    · rw [if_pos hmem] at h
      cases h
    · rw [if_neg hmem] at h
      obtain ⟨hnodup, hnew⟩ := ih _ _ h
      have hid : id ∉ ids := fun hin => hnew id hin (by simp)
      refine ⟨List.nodup_cons.2 ⟨hid, hnodup⟩, ?_⟩
      intro x hx
      rcases List.mem_cons.1 hx with rfl | hx
      · exact hmem
      · exact fun hseen => hnew x hx (List.mem_cons_of_mem _ hseen)

theorem assertTaskItem_completedAt {factIds : List String} {task : DynamicTaskItemV1} {u : Unit}
    (h : assertTaskItem factIds task = .ok u) (hstatus : task.status = .completed) :
    task.completedAt ≠ none := by
  unfold assertTaskItem at h
  obtain ⟨_, -, h⟩ := bind_eq_ok.1 h
  obtain ⟨_, -, h⟩ := bind_eq_ok.1 h
  obtain ⟨_, -, h⟩ := bind_eq_ok.1 h
  intro hnone
  rw [if_pos ⟨hstatus, hnone⟩] at h
  cases h

/-- **Every plan that passes validation is well formed.** -/
theorem validateDynamicTaskPlan_wellFormed {host : Host} {value : Json}
    {plan : DynamicTaskPlanV1} (h : validateDynamicTaskPlan host value = .ok plan) :
    WellFormed plan := by
  unfold validateDynamicTaskPlan at h
  obtain ⟨read, -, h⟩ := bind_eq_ok.1 h
  obtain ⟨_, hdeps, h⟩ := bind_eq_ok.1 h
  obtain ⟨_, -, h⟩ := bind_eq_ok.1 h
  obtain ⟨_, -, h⟩ := bind_eq_ok.1 h
  obtain ⟨_, hitems, h⟩ := bind_eq_ok.1 h
  obtain ⟨_, -, h⟩ := bind_eq_ok.1 h
  cases h
  constructor
  · unfold validateDependencies at hdeps
    obtain ⟨_, hids, -⟩ := bind_eq_ok.1 hdeps
    unfold assertUniqueTaskIds at hids
    obtain ⟨out, hout, -⟩ := bind_eq_ok.1 hids
    have hnodup := (collectTaskIds_nodup _ _ _ hout).1
    rw [List.map_map] at hnodup
    exact hnodup
  · intro task htask hstatus
    exact assertTaskItem_completedAt (forM_eq_ok hitems task htask) hstatus

end BeauPi.Tasks
