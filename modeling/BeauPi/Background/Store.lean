import BeauPi.Background.Types
import BeauPi.Js.Shape

/-!
# Background tasks: the persisted store

The schemas of `core/background/schema.ts` for the store that the runtime persists,
and the functions of `core/background/details.ts` that read it from a branch.  The
store is written whole on every change; the last entry that passes the schema counts.
-/

namespace BeauPi.Background

open Session

variable (host : Host)

/-- `Type.String({ minLength: 1 })`. -/
def nonEmptyText : Shape String := .text fun s => !s.isEmpty

/-- `Type.String()`. -/
def anyText : Shape String := .text fun _ => true

/-- `Type.String({ minLength: 1, maxLength })`. -/
def boundedText (maxLength : Nat) : Shape String :=
  .text fun s => 1 ≤ host.textLength s && host.textLength s ≤ maxLength

/-- `MONITOR_STATUS_SCHEMA`. -/
def monitorStatusShape : Shape MonitorStatus :=
  .keyword [.starting, .running, .healthy, .stalled, .completed, .failed, .cancelled, .lost]
    (·.name) (by
    intro a _ b h; cases a <;> cases b <;> first | rfl | simp [MonitorStatus.name] at h)

/-- The union of the trigger types. -/
def wakeReasonShape : Shape BackgroundWakeReason :=
  .keyword [.completed, .failed, .timeout, .stalled, .errorPattern, .progressReview] (·.name) (by
    intro a _ b h; cases a <;> cases b <;> first | rfl | simp [BackgroundWakeReason.name] at h)

/-- The union of the wake states. -/
def wakeStateShape : Shape BackgroundWakeState :=
  .keyword [.queued, .delivered, .consumed, .cancelled] (·.name) (by
    intro a _ b h; cases a <;> cases b <;> first | rfl | simp [BackgroundWakeState.name] at h)

/-- The union of the review states. -/
def reviewStateShape : Shape ProgressReviewState :=
  .keyword [.progressing, .stalled, .failed, .needsUser, .completed] (·.name) (by
    intro a _ b h; cases a <;> cases b <;> first | rfl | simp [ProgressReviewState.name] at h)

/-- The union of the task sources. -/
def taskSourceShape : Shape TaskSource :=
  .keyword [.started, .attached] (·.name) (by
    intro a _ b h; cases a <;> cases b <;> first | rfl | simp [TaskSource.name] at h)

/-- `^[im]*$` with at most two characters. -/
def flagsShape : Shape String :=
  .text fun s => s.toList.length ≤ 2 && s.toList.all fun c => c == 'i' || c == 'm'

/-- `BACKGROUND_TRIGGER_SCHEMA`. -/
def triggerShape : Shape BackgroundTriggerV1 :=
  .object
    ((Shape.Fields.none BackgroundTriggerV1.mk)
      |>.constant "version" (.num 1)
      |>.required "id" nonEmptyText (·.id)
      |>.required "type" wakeReasonShape (·.type)
      |>.required "enabled" .boolean (·.enabled)
      |>.optional "pattern" (boundedText host 256) (·.pattern)
      |>.optional "flags" flagsShape (·.flags))
    (by simp) (fun _ => rfl)

/-- `PROGRESS_REVIEW_CONFIG_SCHEMA`. -/
def progressReviewConfigShape : Shape BackgroundProgressReviewConfigV1 :=
  .object
    ((Shape.Fields.none BackgroundProgressReviewConfigV1.mk)
      |>.constant "version" (.num 1)
      |>.required "enabled" .boolean (·.enabled)
      |>.required "minimumIntervalMs" (.integer 1) (·.minimumIntervalMs)
      |>.required "maxReviews" (.integer 1) (·.maxReviews)
      |>.required "maxInputCharacters" (.integer 256) (·.maxInputCharacters)
      |>.required "timeoutMs" (.integer 1) (·.timeoutMs)
      |>.required "maxOutputTokens" (.integer 64) (·.maxOutputTokens))
    (by simp) (fun _ => rfl)

/-- `PROGRESS_REVIEW_SCHEMA`. -/
def progressReviewShape : Shape ProgressReviewV1 :=
  .object
    ((Shape.Fields.none ProgressReviewV1.mk)
      |>.constant "version" (.num 1)
      |>.required "state" reviewStateShape (·.state)
      |>.required "summary" (boundedText host 4000) (·.summary)
      |>.required "shouldWakeCoordinator" .boolean (·.shouldWakeCoordinator)
      |>.optional "suggestedAction" (boundedText host 2000) (·.suggestedAction)
      |>.required "reviewedAt" .anyNumber (·.reviewedAt)
      |>.required "logHash" anyText (·.logHash))
    (by simp) (fun _ => rfl)

/-- `BACKGROUND_TASK_SCHEMA`. -/
def taskShape : Shape BackgroundTaskV1 :=
  .object
    ((Shape.Fields.none BackgroundTaskV1.mk)
      |>.constant "version" (.num 1)
      |>.required "id" nonEmptyText (·.id)
      |>.required "sessionId" nonEmptyText (·.sessionId)
      |>.required "monitorId" nonEmptyText (·.monitorId)
      |>.required "source" taskSourceShape (·.source)
      |>.required "name" nonEmptyText (·.name)
      |>.optional "goal" anyText (·.goal)
      |>.optional "executable" anyText (·.executable)
      |>.required "args" (.list anyText) (·.args)
      |>.optional "cwd" anyText (·.cwd)
      |>.required "createdAt" .anyNumber (·.createdAt)
      |>.optional "waitRequestedAt" .anyNumber (·.waitRequestedAt)
      |>.required "triggers" (.list (triggerShape host)) (·.triggers)
      |>.required "logCursor" (.integer 0) (·.logCursor)
      |>.optional "logHash" anyText (·.logHash)
      |>.optional "logPrefixHash" anyText (·.logPrefixHash)
      |>.optional "lastLogActivityAt" .anyNumber (·.lastLogActivityAt)
      |>.optional "lastReviewAt" .anyNumber (·.lastReviewAt)
      |>.required "reviewCount" (.integer 0) (·.reviewCount)
      |>.optional "lastReviewHash" anyText (·.lastReviewHash)
      |>.optional "lastReviewSummary" anyText (·.lastReviewSummary)
      |>.required "progressReview" progressReviewConfigShape (·.progressReview)
      |>.required "diagnostics" (.list anyText) (·.diagnostics))
    (by simp) (fun _ => rfl)

/-- `WAKE_LOG_SCHEMA`. -/
def wakeLogShape : Shape BackgroundWakeLogV1 :=
  .object
    ((Shape.Fields.none BackgroundWakeLogV1.mk)
      |>.required "cursor" (.integer 0) (·.cursor)
      |>.required "hash" anyText (·.hash)
      |>.required "summary" anyText (·.summary)
      |>.optional "logPath" anyText (·.logPath)
      |>.required "truncated" .boolean (·.truncated)
      |>.required "rotated" .boolean (·.rotated))
    (by simp) (fun _ => rfl)

/-- `WAKE_EVENT_SCHEMA`. -/
def wakeEventShape : Shape BackgroundWakeEventV1 :=
  .object
    ((Shape.Fields.none BackgroundWakeEventV1.mk)
      |>.constant "version" (.num 1)
      |>.required "id" nonEmptyText (·.id)
      |>.required "dedupeKey" nonEmptyText (·.dedupeKey)
      |>.required "taskId" nonEmptyText (·.taskId)
      |>.required "monitorId" nonEmptyText (·.monitorId)
      |>.required "reason" wakeReasonShape (·.reason)
      |>.required "monitorStatus" monitorStatusShape (·.monitorStatus)
      |>.required "createdAt" .anyNumber (·.createdAt)
      |>.required "state" wakeStateShape (·.state)
      |>.optional "deliveredAt" .anyNumber (·.deliveredAt)
      |>.optional "consumedAt" .anyNumber (·.consumedAt)
      |>.optional "log" wakeLogShape (·.log)
      |>.optional "diagnostic" anyText (·.diagnostic)
      |>.optional "progressReview" (progressReviewShape host) (·.progressReview))
    (by simp) (fun _ => rfl)

/-- `BACKGROUND_STORE_SNAPSHOT_SCHEMA`. -/
def storeShape : Shape BackgroundStoreSnapshotV1 :=
  .object
    ((Shape.Fields.none BackgroundStoreSnapshotV1.mk)
      |>.constant "version" (.num 1)
      |>.required "sessionId" nonEmptyText (·.sessionId)
      |>.required "tasks" (.list (taskShape host)) (·.tasks)
      |>.required "wakeEvents" (.list (wakeEventShape host)) (·.wakeEvents)
      |>.required "consumedEventKeys" (.list anyText) (·.consumedEventKeys)
      |>.required "updatedAt" .anyNumber (·.updatedAt))
    (by simp) (fun _ => rfl)

/-- `BACKGROUND_SESSION_ENTRY_TYPE`. -/
def backgroundSessionEntryType : String := "beaupi.background.snapshot"

/-- The session entry of a store. -/
def storeEntry (store : BackgroundStoreSnapshotV1) : SessionEntry :=
  .custom backgroundSessionEntryType (some ((storeShape host).write store))

/-- The store that a session entry holds: `parseBackgroundStore` on its data. -/
def storeValue? : SessionEntry → Option BackgroundStoreSnapshotV1
  | .custom customType (some data) =>
    if customType = backgroundSessionEntryType then (storeShape host).read? data else none
  | _ => none

/-- `backgroundStoreFromEntries`. -/
def backgroundStoreFromEntries (entries : List SessionEntry) : Option BackgroundStoreSnapshotV1 :=
  (entries.filterMap (storeValue? host)).getLast?

end BeauPi.Background
