import BeauPi.Tasks.Schema
import BeauPi.Machine.OrderedMap
import Mathlib.Data.List.Sort

/-!
# Dynamic Tasks: the state of the runtime

`core/tasks/dynamic-task-runtime.ts`: what a `DynamicTaskRuntime` keeps, and the
functions its operations share.

* `DynamicTaskRuntime` — the state, with the branch of the session it writes to.
* `acceptSnapshot` — the one place where the snapshot changes.
* `selectTask` — the task a fact belongs to.
* `withFacts` — a plan with more facts, validated.
-/

namespace BeauPi.Tasks

open Machine Session

/-! ## Reviews -/

/-- `DynamicTaskReviewStatus`. -/
inductive DynamicTaskReviewStatus
  | completed
  | noChange
  | malformed
  | providerFailure
  | timedOut
  | aborted
  | revisionConflict
  | unavailable
  deriving DecidableEq, Repr

/-- The literal of a review status. -/
def DynamicTaskReviewStatus.name : DynamicTaskReviewStatus → String
  | completed => "completed"
  | noChange => "no_change"
  | malformed => "malformed"
  | providerFailure => "provider_failure"
  | timedOut => "timed_out"
  | aborted => "aborted"
  | revisionConflict => "revision_conflict"
  | unavailable => "unavailable"

/-- The review status with a given literal. -/
def reviewStatus? (text : String) : Option DynamicTaskReviewStatus :=
  [DynamicTaskReviewStatus.completed, .noChange, .malformed, .providerFailure, .timedOut,
    .aborted, .revisionConflict, .unavailable].find? fun status => status.name = text

/-- The checks of `asUsage`. -/
def isUsage (value : Json) : Bool :=
  let cost := (value.get? "cost").getD .null
  value.isRecord && cost.isRecord &&
    ["input", "output", "cacheRead", "cacheWrite", "totalTokens"].all
      (fun key => (Json.asNumber? (value.get? key)).isSome) &&
    ["input", "output", "cacheRead", "cacheWrite", "total"].all
      (fun key => (Json.asNumber? (cost.get? key)).isSome)

/-- The token usage of a review. -/
abbrev Usage := { value : Json // isUsage value = true }

/-- `asUsage`. -/
def asUsage (value : Json) : Option Usage :=
  if h : isUsage value = true then some ⟨value, h⟩ else none

/-- `DynamicTaskReviewEntryV1`. -/
structure DynamicTaskReviewEntryV1 where
  planId : String
  expectedRevision : ℚ
  actualRevision : ℚ
  factsHash : String
  throughFactSequence : ℚ
  status : DynamicTaskReviewStatus
  createdAt : ℚ
  model : Option String
  usage : Option Usage
  diagnostic : Option String
  deriving DecidableEq

/-- A review as the session stores it. -/
def DynamicTaskReviewEntryV1.toJson (entry : DynamicTaskReviewEntryV1) : Json :=
  .obj (Shape.compact [("version", some (.num 1)), ("planId", some (.str entry.planId)),
    ("expectedRevision", some (.num entry.expectedRevision)),
    ("actualRevision", some (.num entry.actualRevision)),
    ("factsHash", some (.str entry.factsHash)),
    ("throughFactSequence", some (.num entry.throughFactSequence)),
    ("status", some (.str entry.status.name)), ("createdAt", some (.num entry.createdAt)),
    ("model", entry.model.map .str), ("usage", entry.usage.map (·.1)),
    ("diagnostic", entry.diagnostic.map .str)])

/-- `getDynamicTaskReviewEntry`. -/
def getDynamicTaskReviewEntry (value : Json) : Option DynamicTaskReviewEntryV1 := do
  guard (value.get? "version" = some (.num 1))
  let planId ← Json.asString? (value.get? "planId")
  let expectedRevision ← Json.asNumber? (value.get? "expectedRevision")
  let actualRevision ← Json.asNumber? (value.get? "actualRevision")
  let factsHash ← Json.asString? (value.get? "factsHash")
  guard (isFactsHash factsHash)
  let throughFactSequence ← Json.asNumber? (value.get? "throughFactSequence")
  let status ← (Json.asString? (value.get? "status")).bind reviewStatus?
  let createdAt ← Json.asNumber? (value.get? "createdAt")
  let usage := (value.get? "usage").bind asUsage
  guard ((value.get? "usage").isSome → usage.isSome)
  return { planId, expectedRevision, actualRevision, factsHash, throughFactSequence, status,
           createdAt, model := Json.asString? (value.get? "model"), usage,
           diagnostic := Json.asString? (value.get? "diagnostic") }

/-! ## The state -/

/-- `ActiveDynamicTool`: a tool call that has started. -/
structure ActiveDynamicTool where
  toolName : String
  taskId : Option String
  summary : String
  verification : Bool
  deriving DecidableEq, Repr

/-- The state of a `DynamicTaskRuntime` and the branch of the session it writes to.
Reviews in flight are numbered; `reviewController` names the one whose controller
`abortReview` reaches. -/
structure DynamicTaskRuntime where
  snapshot : Option DynamicTaskPlanV1
  snapshotHistory : OrderedMap Nat DynamicTaskPlanV1
  activeTools : OrderedMap String ActiveDynamicTool
  reviewedRuns : List Nat
  lastReview : Option DynamicTaskReviewEntryV1
  reviewController : Option Nat
  reviewActive : Bool
  initialPlanRequired : Bool
  refreshReminder : Option String
  disposed : Bool
  branch : List SessionEntry

/-- The answer of an operation: a mutation result, or the error it is rejected with. -/
abbrev Answer := Except DynamicTaskValidationError DynamicTaskMutationResultV1

/-- `mutationResult`. -/
def mutationResult (status : DynamicTaskMutationStatus) (expectedRevision : ℚ)
    (actualRevision : Nat) (snapshot : Option DynamicTaskPlanV1)
    (diagnostics : List DynamicTaskDiagnosticV1) : DynamicTaskMutationResultV1 :=
  { status, expectedRevision, actualRevision, snapshot, diagnostics }

/-- The revision of a snapshot, `0` without one. -/
def revisionOf (snapshot : Option DynamicTaskPlanV1) : Nat :=
  (snapshot.map (·.revision)).getD 0

/-- `mutationAfterDispose`. -/
def mutationAfterDispose (snapshot : Option DynamicTaskPlanV1) : DynamicTaskMutationResultV1 :=
  mutationResult .invalid (revisionOf snapshot) (revisionOf snapshot) snapshot
    [⟨"runtime_disposed", "Dynamic Task Runtime is disposed", none⟩]

/-- `DYNAMIC_TASK_SNAPSHOT_ENTRY_TYPE`. -/
def dynamicTaskSnapshotEntryType : String := "beaupi.dynamic-task.snapshot"

/-- `DYNAMIC_TASK_REVIEW_ENTRY_TYPE`. -/
def dynamicTaskReviewEntryType : String := "beaupi.dynamic-task.review"

/-- The entries that the runtime itself writes. -/
def isDynamicTaskEntry : SessionEntry → Bool
  | .custom customType _ =>
    customType == dynamicTaskSnapshotEntryType || customType == dynamicTaskReviewEntryType
  | .other _ => false

variable (host : Host)

/-- The session entry of a snapshot. -/
def snapshotEntry (snapshot : DynamicTaskPlanV1) : SessionEntry :=
  .custom dynamicTaskSnapshotEntryType
    (some (.obj [("version", .num 1), ("snapshot", snapshot.toJson host)]))

/-- The session entry of a review. -/
def reviewEntry (entry : DynamicTaskReviewEntryV1) : SessionEntry :=
  .custom dynamicTaskReviewEntryType (some entry.toJson)

/-- `acceptSnapshot`. -/
def acceptSnapshot (snapshot : DynamicTaskPlanV1) (s : DynamicTaskRuntime) : DynamicTaskRuntime :=
  if s.disposed then s
  else { s with
    snapshot := some snapshot
    snapshotHistory := s.snapshotHistory.set snapshot.revision snapshot
    branch := s.branch ++ [snapshotEntry host snapshot] }

/-! ## Texts -/

/-- The fields `path ?? file_path ?? command ?? task ?? query` of the arguments. -/
def toolTarget (args : Json) : Option Json :=
  (["path", "file_path", "command", "task", "query"].filterMap args.get?).find? (· ≠ .null)

/-- `toolSummary`. -/
def toolSummary (toolName : String) (args : Json) : String :=
  let detail := ((Json.asString? (toolTarget args)).map Js.oneLine).getD ""
  if detail.isEmpty then toolName
  else Js.sliceTo limits.maxFactSummaryLength (toolName ++ ": " ++ detail)

/-- `promptValue`. -/
def promptValue (value : String) (maxCharacters : Nat) : String :=
  let normalized := Js.oneLine value
  if Js.utf16Length normalized ≤ maxCharacters then normalized
  else Js.sliceTo (maxCharacters - 1) normalized ++ "…"

/-- The value whose text `hashDynamicTaskFacts` hashes. -/
def factsContent (facts : List DynamicTaskFactV1) : Json :=
  .arr (facts.map fun fact =>
    .obj (Shape.compact [("sequence", some (.nat fact.sequence)), ("id", some (.str fact.id)),
      ("kind", some (.str fact.kind.name)), ("ref", some (.str fact.ref)),
      ("status", some (.str fact.status.name)), ("summary", some (.str fact.summary)),
      ("path", fact.path.map .str)]))

/-- `hashDynamicTaskFacts`. -/
def hashDynamicTaskFacts (facts : List DynamicTaskFactV1) : String :=
  host.sha256 (factsContent facts).stringify

/-- `factId`. -/
def factId (pre ref : String) : String :=
  let raw := pre ++ ":" ++ ref
  if Js.utf16Length raw ≤ limits.maxFactIdLength then raw else pre ++ ":" ++ host.sha256 ref

/-- The value whose text is `stablePlanContent`.  The runtime compares the texts; a
text determines the value. -/
def stablePlanContent (plan : DynamicTaskPlanV1) : Json :=
  .obj [("goal", .str plan.goal),
    ("tasks", .arr (plan.tasks.map fun task =>
      .obj (Shape.compact [("id", some (.str task.id)), ("title", some (.str task.title)),
        ("status", some (.str task.status.name)), ("dependsOn", some (Json.strings task.dependsOn)),
        ("matchHints", some (Json.strings task.matchHints)), ("activity", task.activity.map .str),
        ("evidence", some (Json.strings task.evidence)),
        ("blockedBy", some (Json.strings task.blockedBy)),
        ("completedAt", task.completedAt.map .num)]))),
    ("facts", .arr (plan.facts.map (dynamicTaskFactShape host).write)),
    ("factSequence", .nat plan.factSequence)]

/-- The value whose text is `stablePlanStructure`. -/
def stablePlanStructure (plan : DynamicTaskPlanV1) : Json :=
  .obj [("goal", .str plan.goal),
    ("tasks", .arr (plan.tasks.map fun task =>
      .obj [("id", .str task.id), ("title", .str task.title),
        ("dependsOn", Json.strings task.dependsOn),
        ("matchHints", Json.strings task.matchHints)]))]

/-! ## Which task a fact belongs to -/

/-- `matchTokens`. -/
def matchTokens (value : String) : List String :=
  let isWord := fun c => host.isLetterOrNumber c || c == '_' || c == '-'
  let words := (Js.wordRuns isWord false [] (host.normalize value).toList).map fun cs =>
    Js.trim (String.ofList cs)
  Js.unique (words.filter fun token => 2 ≤ Js.utf16Length token)

/-- The simple case folding of a character, as far as it reaches ASCII letters. -/
def foldCase (c : Char) : Char :=
  if c.toNat = 0x17f then 's' else if c.toNat = 0x212a then 'k' else c.toLower

/-- A word character of a regular expression with the flags `iu`. -/
def isRegExpWord (c : Char) : Bool :=
  Js.isLetter c || Js.isDigit c || c == '_' || c.toNat == 0x17f || c.toNat == 0x212a

/-- The words that mark a verification task, and those that do so inside a word. -/
def verificationWords : List String × List String :=
  (["test", "tests", "verify", "verification", "check", "lint", "typecheck", "build"],
    ["测试", "验证", "检查", "构建"])

/-- Is there a whole word of the list at the front of `rest`?  `before` is the
character in front of it. -/
def wordAt (before : Option Char) (rest : List Char) : Bool :=
  !(before.any isRegExpWord) && verificationWords.1.any fun word =>
    Js.startsWith word.toList (rest.map foldCase) &&
      !((rest.drop word.toList.length).head?.any isRegExpWord)

/-- Search a text for the words of a verification task. -/
def hasVerificationWord (before : Option Char) : List Char → Bool
  | [] => false
  | c :: cs =>
    wordAt before (c :: cs) ||
      verificationWords.2.any (fun word => Js.startsWith word.toList (c :: cs)) ||
      hasVerificationWord (some c) cs

/-- The text of a task that is matched: its title and its hints. -/
def taskText (task : DynamicTaskItemV1) : String :=
  task.title ++ " " ++ " ".intercalate task.matchHints

/-- `verificationTask`. -/
def verificationTask (task : DynamicTaskItemV1) : Bool :=
  hasVerificationWord none (taskText task).toList

/-- `taskMatchScore`. -/
def taskMatchScore (task : DynamicTaskItemV1) (summary : String) (verification : Bool) : Int :=
  let start : Int := if verificationTask task == verification then 4 else -4
  let target := host.normalize summary
  let hints := task.matchHints.filter fun hint =>
    !(host.normalize hint).isEmpty && Js.includes target (host.normalize hint)
  let targetTokens := matchTokens host target
  let tokens := (matchTokens host (taskText task)).filter (targetTokens.contains ·)
  start + 20 * hints.length + 2 * tokens.length

/-- `taskReady`. -/
def taskReady (task : DynamicTaskItemV1) (tasks : List DynamicTaskItemV1) : Bool :=
  task.dependsOn.all fun dependency =>
    ((tasks.find? fun candidate => candidate.id == dependency).map (·.status)) == some .completed

/-- A candidate of `selectTask` with its position and score. -/
structure Candidate where
  task : DynamicTaskItemV1
  index : Nat
  score : Int

/-- The order in which `selectTask` sorts the candidates. -/
def Candidate.Before (left right : Candidate) : Prop :=
  right.score < left.score ∨ (right.score = left.score ∧ left.index ≤ right.index)

instance : DecidableRel Candidate.Before := fun _ _ => inferInstanceAs (Decidable (_ ∨ _))

/-- `selectTask`. -/
def selectTask (plan : DynamicTaskPlanV1) (summary : String) (verification : Bool)
    (statuses : List DynamicTaskStatus) : Option DynamicTaskItemV1 :=
  let candidates := plan.tasks.filter fun task =>
    statuses.contains task.status && taskReady task plan.tasks
  let scored := candidates.zipIdx.map fun (task, index) =>
    ({ task, index, score := taskMatchScore host task summary verification } : Candidate)
  match (scored.insertionSort Candidate.Before).head? with
  | some best => if 6 ≤ best.score then some best.task else none
  | none => none

/-! ## Adding facts to a plan -/

/-- The last `maxFacts` facts. -/
def retainFacts (facts : List DynamicTaskFactV1) : List DynamicTaskFactV1 :=
  if limits.maxFacts < facts.length then Js.sliceLast limits.maxFacts facts else facts

/-- The evidence that still refers to a fact. -/
def retainEvidence (facts : List DynamicTaskFactV1) (evidence : List String) : List String :=
  evidence.filter fun id => (facts.map (·.id)).contains id

/-- `withFacts`. -/
def withFacts (snapshot : DynamicTaskPlanV1) (tasks : List DynamicTaskItemV1)
    (newFacts : List DynamicTaskFactV1) (timestamp : ℚ) :
    Except DynamicTaskValidationError DynamicTaskPlanV1 := do
  let facts := retainFacts (snapshot.facts ++ newFacts)
  let next : DynamicTaskPlanV1 := { snapshot with
    revision := snapshot.revision + 1
    updatedAt := timestamp
    factSequence := (newFacts.getLast?.map (·.sequence)).getD snapshot.factSequence
    tasks := tasks.map fun task => { task with evidence := retainEvidence facts task.evidence }
    facts := facts }
  let _ ← validateDynamicTaskPlan host (next.toJson host)
  return next

/-- `unique([...evidence, ...ids]).slice(-maxEvidence)`. -/
def addEvidence (evidence ids : List String) : List String :=
  Js.sliceLast limits.maxEvidence (Js.unique (evidence ++ ids))

end BeauPi.Tasks
