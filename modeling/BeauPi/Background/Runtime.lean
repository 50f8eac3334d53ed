import BeauPi.Background.Store
import BeauPi.Machine.OrderedMap
import Mathlib.Data.List.Sort

/-!
# Background tasks: the manager

The state of a `BackgroundTaskManager` and the sections of
`core/background/background-runtime.ts` that its operations execute without
suspending.

* `observeTask`, `finishProgressReview` — `observeTaskByMonitor`, up to the call of
  the progress reviewer and after it.
* `enqueueWake` — a new wake event, unless its key is known.
* `consumeWakeQueue` — hand the queued events to the host.
* `finishWakeDelivery`, `failWakeDelivery` — what the host's answer does.
* `rebuild`, `construct` — the state a branch of the session restores.

What the monitor, the progress reviewer and the clock return are arguments, and so are the
ids that are drawn for wake events.
-/

namespace BeauPi.Background

open Machine Session

/-- `WakeDeliveryState`. -/
structure WakeDeliveryState where
  generation : Nat
  eventIds : List String
  deriving DecidableEq, Repr

/-- The state of a manager and the branch of the session it writes to. -/
structure BackgroundTaskManager where
  sessionId : String
  tasks : OrderedMap String BackgroundTaskV1
  wakeEvents : OrderedMap String BackgroundWakeEventV1
  consumedEventKeys : List String
  wakeHostBound : Bool
  wakeDelivery : Option WakeDeliveryState
  generation : Nat
  branch : List SessionEntry

variable (host : Host)

/-- `persist`. -/
def persist (now : ℚ) (m : BackgroundTaskManager) : BackgroundTaskManager :=
  let store : BackgroundStoreSnapshotV1 :=
    { sessionId := m.sessionId, tasks := m.tasks.values, wakeEvents := m.wakeEvents.values
      consumedEventKeys := m.consumedEventKeys, updatedAt := now }
  { m with branch := m.branch ++ [storeEntry host store] }

/-- Store a task and persist: how `start`, `attach`, `logs` and `cancel` change the
task table. -/
def storeTask (now : ℚ) (task : BackgroundTaskV1) (m : BackgroundTaskManager) :
    BackgroundTaskManager :=
  persist host now { m with tasks := m.tasks.set task.id task }

/-! ## Wake events -/

/-- `triggerEnabled`. -/
def triggerEnabled (task : BackgroundTaskV1) (type : BackgroundWakeReason) :
    Option BackgroundTriggerV1 :=
  task.triggers.find? fun trigger => trigger.enabled && trigger.type == type

/-- `reasonForStatus`. -/
def reasonForStatus (status : MonitorStatus) (exitReason : Option String) :
    Option BackgroundWakeReason :=
  match status with
  | .completed => some .completed
  | .failed => some (if exitReason = some "monitor_timeout" then .timeout else .failed)
  | .stalled => some .stalled
  | .lost => some .failed
  | .starting | .running | .healthy | .cancelled => none

/-- The key under which equal wake events are recognised. -/
def wakeKey (task : BackgroundTaskV1) (reason : BackgroundWakeReason) (status : MonitorStatus)
    (log : Option BackgroundWakeLogV1) : String :=
  task.id ++ ":" ++ reason.name ++ ":" ++ status.name ++ ":" ++
    ((log.map (·.hash)).or task.logHash).getD ""

/-- `enqueueWake`. -/
def enqueueWake (now : ℚ) (newId : String) (task : BackgroundTaskV1)
    (reason : BackgroundWakeReason) (status : MonitorStatus) (log : Option BackgroundWakeLogV1)
    (review : Option ProgressReviewV1) (m : BackgroundTaskManager) : BackgroundTaskManager :=
  let dedupeKey := wakeKey task reason status log
  if task.waitRequestedAt = none then m
  else if dedupeKey ∈ m.consumedEventKeys then m
  else if m.wakeEvents.values.any (fun event =>
      event.dedupeKey == dedupeKey && event.state != .cancelled) then m
  else
    let event : BackgroundWakeEventV1 :=
      { id := newId, dedupeKey, taskId := task.id, monitorId := task.monitorId, reason
        monitorStatus := status, createdAt := now, state := .queued, deliveredAt := none
        consumedAt := none, log, diagnostic := none, progressReview := review }
    persist host now { m with wakeEvents := m.wakeEvents.set event.id event }

/-! ## Observing a task -/

/-- `shortText`, with `\r\n` replaced by `\n`. -/
def shortText (text : String) (max : Nat) : String :=
  let normalized := Js.trim (Js.replaceAll text "\r\n" "\n")
  if max < Js.utf16Length normalized then Js.sliceTo (max - 1) normalized ++ "…" else normalized

/-- The lines of a text, split at `\r\n`, `\r` and `\n`. -/
def splitLines : List Char → List Char → List (List Char)
  | line, [] => [line.reverse]
  | line, '\r' :: '\n' :: rest => line.reverse :: splitLines [] rest
  | line, '\r' :: rest => line.reverse :: splitLines [] rest
  | line, '\n' :: rest => line.reverse :: splitLines [] rest
  | line, c :: rest => splitLines (c :: line) rest

/-- Does a line mention an error or a warning? -/
def isErrorLine (line : List Char) : Bool :=
  ["error", "failed", "fatal", "exception", "warning", "warn"].any fun word =>
    line.tails.any fun rest => Js.startsWith word.toList (rest.map Char.toLower)

/-- `summarizeLog`. -/
def summarizeLog (content : String) : String :=
  if content.isEmpty then "No new log output."
  else
    let lines := (splitLines [] content.toList).filter fun line => !line.isEmpty
    let errors := (lines.filter isErrorLine).length
    toString lines.length ++ " new log line" ++ (if lines.length = 1 then "" else "s") ++
      (if errors = 0 then ""
       else " · " ++ toString errors ++ " error/warning line" ++ (if errors = 1 then "" else "s")) ++
      " · " ++ shortText (String.ofList (lines.getLast?.getD [])) 400

/-- `addDiagnostic`. -/
def addDiagnostic (diagnostic : String) (task : BackgroundTaskV1) : BackgroundTaskV1 :=
  if diagnostic.isEmpty || task.diagnostics.contains diagnostic then task
  else { task with diagnostics := task.diagnostics ++ [diagnostic] }

/-- What the observation reads of the log: the task with its new cursor, the new text
and what a wake event says about it. -/
def readLog (now : ℚ) (monitor : MonitorView) (read : MonitorLog) (task : BackgroundTaskV1) :
    BackgroundTaskV1 × String × Option BackgroundWakeLogV1 :=
  let hasLog := ((monitor.logPath.or monitor.targetLogPath).any fun path => !path.isEmpty) ||
    monitor.hasActivity
  if !hasLog then (task, "", none)
  else if read.missing then
    (if monitor.status ≠ .completed ∧ monitor.status ≠ .cancelled then
        addDiagnostic (read.diagnostic.getD "Background log unavailable") task
      else task, "", none)
  else
    ({ task with
        lastLogActivityAt := if read.changed then some now else task.lastLogActivityAt
        logCursor := read.cursor
        logHash := some read.hash
        logPrefixHash := some read.prefixHash },
      read.content,
      some { cursor := read.cursor, hash := read.hash, summary := summarizeLog read.content
             logPath := if read.path.isEmpty then none else some read.path
             truncated := read.truncated, rotated := read.rotated })

/-- Does an enabled error pattern match the new text? -/
def errorPatternMatches (task : BackgroundTaskV1) (logDelta : String) : Bool :=
  task.triggers.any fun trigger =>
    trigger.enabled && trigger.type == .errorPattern && !logDelta.isEmpty &&
      match trigger.pattern with
      | some pattern =>
        !pattern.isEmpty && host.regExpTest pattern (trigger.flags.getD "i") logDelta
      | none => false

/-- The first part of `maybeReview`: the task with the review counted, if one is due. -/
def startReview (now : ℚ) (logHash : String) (task : BackgroundTaskV1) :
    Option BackgroundTaskV1 :=
  if task.waitRequestedAt = none ∨ triggerEnabled task .progressReview = none ∨
      task.progressReview.enabled = false then none
  else if task.lastReviewHash = some logHash then none
  else if task.lastReviewAt.any fun last => now - last < task.progressReview.minimumIntervalMs then
    none
  else if task.progressReview.maxReviews ≤ task.reviewCount then none
  else some { task with
    lastReviewHash := some logHash, lastReviewAt := some now, reviewCount := task.reviewCount + 1 }

/-- A review that the reviewer is working on. -/
structure ProgressReviewInFlight where
  taskId : String
  status : MonitorStatus
  logPath : Option String
  logHash : String
  deriving DecidableEq, Repr

/-- `observeTaskByMonitor` up to the call of the reviewer: what it does to the
manager, and the review it waits for.  The id of an error-pattern event and the id of
a status event are drawn in this order. -/
def observeTask (now : ℚ) (patternId statusId : String) (hasReviewer : Bool) (monitorId : String)
    (preferred : Option BackgroundWakeReason) (monitor : Option MonitorView) (read : MonitorLog)
    (m : BackgroundTaskManager) : BackgroundTaskManager × Option ProgressReviewInFlight :=
  match m.tasks.values.find? fun candidate => candidate.monitorId == monitorId with
  | none => (m, none)
  | some before =>
    match monitor with
    | none =>
      let task := addDiagnostic
        "Monitor record unavailable; background task state is unconfirmed" before
      if task = before then (m, none) else (storeTask host now task m, none)
    | some monitor =>
      let (task, logDelta, log) := readLog now monitor read before
      let observed := { m with tasks := m.tasks.set task.id task }
      let matched :=
        if errorPatternMatches host task logDelta then
          enqueueWake host now patternId task .errorPattern monitor.status log none observed
        else observed
      let reason := preferred.or (reasonForStatus monitor.status monitor.exitReason)
      let woken := match reason with
        | some reason =>
          if (triggerEnabled task reason).isSome then
            enqueueWake host now statusId task reason monitor.status log none matched
          else matched
        | none => matched
      let logHash := ((log.map (·.hash)).or task.logHash).getD ""
      let due := if !logDelta.isEmpty && task.progressReview.enabled then
        startReview now logHash task else none
      match due with
      | some reviewed =>
        let counted := storeTask host now reviewed woken
        if hasReviewer then
          (counted, some { taskId := task.id, status := monitor.status
                           logPath := monitor.logPath, logHash := logHash })
        else
          (storeTask host now (addDiagnostic
            "Progress Reviewer is enabled but no shared AgentPool is available" reviewed) counted,
            none)
      | none => (if task = before then woken else persist host now woken, none)

/-- The rest of `maybeReview` and `observeTaskByMonitor`, when the reviewer has
answered or failed. -/
def finishProgressReview (now : ℚ) (newId : String) (review : ProgressReviewInFlight)
    (answer : Except String ProgressReviewV1) (m : BackgroundTaskManager) :
    BackgroundTaskManager :=
  match m.tasks.get? review.taskId with
  | none => m
  | some task =>
    match answer with
    | .error message =>
      persist host now
        (storeTask host now (addDiagnostic ("Progress Reviewer failed: " ++ message) task) m)
    | .ok result =>
      let summarised := { task with lastReviewSummary := some result.summary }
      let stored := { m with tasks := m.tasks.set task.id summarised }
      let log : BackgroundWakeLogV1 :=
        { cursor := task.logCursor, hash := review.logHash, summary := result.summary
          logPath := review.logPath, truncated := false, rotated := false }
      let woken :=
        if result.shouldWakeCoordinator && (triggerEnabled task .progressReview).isSome then
          enqueueWake host now newId summarised .progressReview review.status (some log)
            (some result) stored
        else stored
      persist host now (persist host now woken)

/-! ## Waiting for a task -/

/-- `DEFAULT_TRIGGERS`. -/
def defaultTriggers : List BackgroundTriggerInput :=
  [⟨.completed, none, none⟩, ⟨.failed, none, none⟩, ⟨.timeout, none, none⟩, ⟨.stalled, none, none⟩]

/-- The text by which equal triggers are recognised. -/
def triggerKey (trigger : BackgroundTriggerInput) : String :=
  trigger.type.name ++ ":" ++ trigger.pattern.getD "" ++ ":" ++ trigger.flags.getD ""

/-- One turn of `normalizeTriggers`: the keys seen so far and the triggers. -/
def normalizeTrigger (acc : List String × List BackgroundTriggerV1)
    (trigger : BackgroundTriggerInput) :
    Except String (List String × List BackgroundTriggerV1) := do
  let pattern := trigger.pattern.getD ""
  if trigger.type = .errorPattern then
    if pattern.isEmpty then .error "Background error-pattern trigger requires pattern"
    match host.regExpError pattern (trigger.flags.getD "i") with
    | some message => .error ("Invalid background error pattern: " ++ message)
    | none => pure ()
  let id := triggerKey trigger
  if id ∈ acc.1 then .error ("Duplicate background trigger " ++ Json.quote id)
  else
    return (id :: acc.1, acc.2 ++
      [{ id := "trigger-" ++ toString acc.2.length ++ "-" ++ Js.sliceTo 12 (host.sha256 id)
         type := trigger.type, enabled := true, pattern := trigger.pattern
         flags := trigger.flags }])

/-- `normalizeTriggers`. -/
def normalizeTriggers (input : Option (List BackgroundTriggerInput)) :
    Except String (List BackgroundTriggerV1) := do
  let source := match input with
    | some (trigger :: rest) => trigger :: rest
    | _ => defaultTriggers
  let normalized ← source.foldlM (normalizeTrigger host) ([], [])
  return normalized.2

/-- `wait`, up to the observation of the task; an error leaves the manager as it is. -/
def wait (now : ℚ) (taskId : String) (triggers : Option (List BackgroundTriggerInput))
    (m : BackgroundTaskManager) : Except String BackgroundTaskManager :=
  match m.tasks.get? taskId with
  | none => .error ("Unknown background task id " ++ Json.quote taskId)
  | some task => do
    let normalized ← match triggers with
      | some input => normalizeTriggers host (some input)
      | none => pure task.triggers
    return storeTask host now
      { task with
        triggers := normalized
        waitRequestedAt := some (task.waitRequestedAt.getD now) } m

/-! ## Delivering wake events -/

/-- `wakePriority`. -/
def wakePriority : BackgroundWakeReason → Nat
  | .progressReview => 1
  | .completed | .failed | .timeout | .stalled | .errorPattern => 0

/-- The order in which queued events are handed over. -/
def DeliveredBefore (left right : BackgroundWakeEventV1) : Prop :=
  wakePriority left.reason < wakePriority right.reason ∨
    (wakePriority left.reason = wakePriority right.reason ∧ left.createdAt ≤ right.createdAt)

instance : DecidableRel DeliveredBefore := fun _ _ => inferInstanceAs (Decidable (_ ∨ _))

/-- The queued events, in the order in which they are handed over. -/
def queuedEvents (m : BackgroundTaskManager) : List BackgroundWakeEventV1 :=
  (m.wakeEvents.values.filter fun event => event.state = .queued).insertionSort DeliveredBefore

/-- The events that `consumeWakeQueue` hands to the host, if it does. -/
def dueEvents (hasPendingUserMessages : Bool) (m : BackgroundTaskManager) :
    Option (List BackgroundWakeEventV1) :=
  let queued := queuedEvents m
  if m.wakeDelivery.isSome || !m.wakeHostBound then none
  else if queued.isEmpty then none
  else if queued.all (fun event => event.reason = .progressReview) && hasPendingUserMessages then
    none
  else some queued

/-- `consumeWakeQueue` up to the call of `wakeHost.deliver`: the manager, and the ids
of the events that are handed over. -/
def consumeWakeQueue (now : ℚ) (hasPendingUserMessages : Bool) (m : BackgroundTaskManager) :
    BackgroundTaskManager × Option (List String) :=
  match dueEvents hasPendingUserMessages m with
  | none => (m, none)
  | some queued =>
    let eventIds := queued.map (·.id)
    let marked := m.wakeEvents.mapValues fun event =>
      if event.state = .queued then { event with state := .delivered, deliveredAt := some now }
      else event
    (persist host now { m with
        wakeEvents := marked
        wakeDelivery := some { generation := m.generation, eventIds := eventIds } },
      some eventIds)

/-- The keys of the events with the given ids. -/
def eventKeys (eventIds : List String) (events : OrderedMap String BackgroundWakeEventV1) :
    List String :=
  eventIds.filterMap fun id => (events.get? id).map (·.dedupeKey)

/-- `Set.prototype.add`, for several keys. -/
def addKeys (keys known : List String) : List String :=
  keys.foldl (fun known key => if key ∈ known then known else known ++ [key]) known

/-- `finishWakeDelivery`, up to the call of `consumeWakeQueue` at its end. -/
def finishWakeDelivery (now : ℚ) (generation : Nat) (eventIds : List String)
    (m : BackgroundTaskManager) : BackgroundTaskManager :=
  if generation ≠ m.generation then m
  else persist host now { m with
    wakeEvents := m.wakeEvents.adjust eventIds fun event =>
      { event with state := .consumed, consumedAt := some now }
    consumedEventKeys := addKeys (eventKeys eventIds m.wakeEvents) m.consumedEventKeys
    wakeDelivery := none }

/-- `failWakeDelivery`. -/
def failWakeDelivery (now : ℚ) (generation : Nat) (eventIds : List String) (error : String)
    (m : BackgroundTaskManager) : BackgroundTaskManager :=
  if generation ≠ m.generation then m
  else persist host now { m with
    wakeEvents := m.wakeEvents.adjust eventIds fun event =>
      { event with state := .queued, diagnostic := some ("Wake delivery failed: " ++ error) }
    wakeDelivery := none }

/-! ## Restoring a branch -/

/-- The store that a branch restores for a session. -/
def restoredStore (sessionId : String) (entries : List SessionEntry) :
    Option BackgroundStoreSnapshotV1 :=
  (backgroundStoreFromEntries host entries).filter fun store => store.sessionId = sessionId

/-- The wake events that a branch restores. -/
def restoredEvents (sessionId : String) (entries : List SessionEntry) :
    OrderedMap String BackgroundWakeEventV1 :=
  ((restoredStore host sessionId entries).elim [] (·.wakeEvents)).foldl
    (fun events event => events.set event.id event) OrderedMap.empty

/-- `restore`, on a manager whose tables are empty. -/
def restore (entries : List SessionEntry) (m : BackgroundTaskManager) : BackgroundTaskManager :=
  let store := restoredStore host m.sessionId entries
  { m with
    tasks := (store.elim [] (·.tasks)).foldl (fun tasks task => tasks.set task.id task)
      OrderedMap.empty
    wakeEvents := restoredEvents host m.sessionId entries
    consumedEventKeys := addKeys (store.elim [] (·.consumedEventKeys)) [] }

/-- `rebuild`, when the session has moved to the branch `entries`. -/
def rebuild (now : ℚ) (entries : List SessionEntry) (m : BackgroundTaskManager) :
    BackgroundTaskManager :=
  let restored := restore host entries m
  let delivered := restored.wakeEvents.values.filter fun event => event.state = .delivered
  persist host now { restored with
    generation := m.generation + 1
    wakeDelivery := none
    wakeEvents := restored.wakeEvents.mapValues fun event =>
      if event.state = .delivered then { event with state := .consumed, consumedAt := some now }
      else event
    consumedEventKeys := addKeys (delivered.map (·.dedupeKey)) restored.consumedEventKeys
    branch := entries }

/-- The constructor. -/
def construct (sessionId : String) (entries : List SessionEntry) : BackgroundTaskManager :=
  restore host entries
    { sessionId, tasks := OrderedMap.empty, wakeEvents := OrderedMap.empty
      consumedEventKeys := [], wakeHostBound := false, wakeDelivery := none, generation := 0
      branch := entries }

end BeauPi.Background
