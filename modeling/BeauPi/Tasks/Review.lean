import BeauPi.Tasks.Steps
import BeauPi.Machine.Runs

/-!
# Dynamic Tasks: reviews in flight

`reviewAfterSettled` captures the snapshot and the facts no review has covered,
waits for the reviewer, hands the reviewer's patch to the queue of operations, and
at last records the review.  Everything else the runtime offers can happen while it
waits.  This module is the runtime as a transition system.

* `PendingReview` — a suspended `reviewAfterSettled` and what it has captured.
* `TaskSession` — the runtime with its suspended reviews.
* `Event`, `step` — the atomic sections between two suspensions.
* `step_cases` — **what an event can do to the runtime**.
-/

namespace BeauPi.Tasks

open Machine Session

/-! ## Suspended reviews -/

/-- `TaskReviewResultStatus`. -/
inductive TaskReviewResultStatus
  | skipped
  | completed
  | unavailable
  | malformed
  | providerFailure
  | timedOut
  | aborted
  deriving DecidableEq, Repr

/-- `TaskReviewResult`, as far as the runtime reads it. -/
structure TaskReviewResult where
  status : TaskReviewResultStatus
  patch : Option Json
  model : Option String
  usage : Option Usage
  error : Option String
  deriving DecidableEq

/-- `result.status === "completed" && result.patch`. -/
def TaskReviewResult.patch? (result : TaskReviewResult) : Option Json :=
  if result.status = .completed then result.patch else none

/-- How the reviewer's promise settles. -/
inductive ReviewerAnswer
  | resolved (result : TaskReviewResult)
  | rejected (message : String)
  deriving DecidableEq

/-- What a review will record, once its outcome is known. -/
structure ReviewOutcome where
  status : DynamicTaskReviewStatus
  actualRevision : Nat
  model : Option String
  usage : Option Usage
  diagnostic : Option String
  deriving DecidableEq

/-- Where a suspended review waits. -/
inductive ReviewPhase
  /-- for the reviewer -/
  | reviewing
  /-- for the queue of operations, with the reviewer's result and its patch -/
  | patching (result : TaskReviewResult) (patch : Json)
  /-- for its continuation, after the patch and between notifications -/
  | settling (outcome : ReviewOutcome)
  deriving DecidableEq

/-- A suspended `reviewAfterSettled`: what it captured of the snapshot, and whether
its controller has been aborted. -/
structure PendingReview where
  planId : String
  revision : Nat
  factsHash : String
  throughFactSequence : Nat
  aborted : Bool
  phase : ReviewPhase
  deriving DecidableEq

/-- The runtime and its suspended reviews, by number. -/
structure TaskSession where
  runtime : DynamicTaskRuntime
  pending : OrderedMap Nat PendingReview
  nextReview : Nat

/-- What can happen next. -/
inductive Event
  /-- the queue executes a call -/
  | call (now : ℚ) (call : Call)
  /-- `reviewAfterSettled` is called -/
  | beginReview (now : ℚ) (runId : Nat) (signalAborted : Bool)
  /-- the reviewer answers -/
  | answer (now : ℚ) (review : Nat) (answer : ReviewerAnswer)
  /-- the queue executes the patch of a review -/
  | applyPatch (now : ℚ) (review : Nat)
  /-- a review that has applied its patch and notified ends -/
  | endReview (now : ℚ) (review : Nat)
  /-- the signal given to a review fires -/
  | abortSignal (review : Nat)
  /-- `abortReview` -/
  | abortReview
  /-- the session moves to another branch and the runtime is rebuilt -/
  | rebuild (entries : List SessionEntry)
  /-- another part of the program appends an entry -/
  | append (entry : SessionEntry)
  /-- `dispose` -/
  | dispose
  deriving DecidableEq

variable (host : Host) (minimumIntervalMs : ℚ)

/-- The first part of `reviewAfterSettled`: what a review captures, if it starts. -/
def captureReview (now : ℚ) (runId : Nat) (signalAborted : Bool) (s : DynamicTaskRuntime) :
    Option PendingReview := do
  guard (s.disposed = false ∧ runId ∉ s.reviewedRuns)
  let snapshot ← s.snapshot
  let newFacts := unreviewedFacts snapshot.facts s.lastReview
  let last ← newFacts.getLast?
  let hash := hashDynamicTaskFacts host newFacts
  guard (s.lastReview.map (·.factsHash) ≠ some hash)
  guard (∀ review ∈ s.lastReview, minimumIntervalMs ≤ now - review.createdAt)
  return { planId := snapshot.planId, revision := snapshot.revision, factsHash := hash
           throughFactSequence := last.sequence, aborted := signalAborted, phase := .reviewing }

/-- The status of a review whose reviewer gave no patch to apply. -/
def statusWithoutPatch : TaskReviewResultStatus → DynamicTaskReviewStatus
  | .skipped => .noChange
  | .unavailable => .unavailable
  | .malformed => .malformed
  | .timedOut => .timedOut
  | .aborted => .aborted
  | .completed | .providerFailure => .providerFailure

/-- The outcome of a review that ends with an exception. -/
def caughtOutcome (review : PendingReview) (message : String) : ReviewOutcome :=
  { status := if review.aborted then .aborted else .providerFailure
    actualRevision := review.revision, model := none, usage := none, diagnostic := some message }

/-- The outcome of a review whose patch has been applied. -/
def patchedOutcome (review : PendingReview) (result : TaskReviewResult) : Answer → ReviewOutcome
  | .error e =>
    { caughtOutcome review e.message with model := result.model, usage := result.usage }
  | .ok applied =>
    { status := match applied.status with
        | .accepted => .completed
        | .noChange => .noChange
        | .revisionConflict => .revisionConflict
        | .invalid => .malformed
      actualRevision := applied.actualRevision
      model := result.model
      usage := result.usage
      diagnostic :=
        if applied.status = .invalid then
          some ("; ".intercalate (applied.diagnostics.map fun item =>
            item.code ++ ": " ++ item.message))
        else result.error }

/-- The entry of a review. -/
def reviewRecord (now : ℚ) (review : PendingReview) (outcome : ReviewOutcome) :
    DynamicTaskReviewEntryV1 :=
  { planId := review.planId, expectedRevision := review.revision
    actualRevision := outcome.actualRevision, factsHash := review.factsHash
    throughFactSequence := review.throughFactSequence, status := outcome.status, createdAt := now
    model := outcome.model, usage := outcome.usage
    diagnostic := outcome.diagnostic.map (Js.sliceTo 2000) }

/-- The last part of `reviewAfterSettled`: leave the `try` statement and record the
review. -/
def concludeReview (now : ℚ) (number : Nat) (review : PendingReview) (outcome : ReviewOutcome)
    (s : DynamicTaskRuntime) : DynamicTaskRuntime :=
  let left := { s with
    reviewController := if s.reviewController = some number then none else s.reviewController
    reviewActive := false }
  if left.disposed then left
  else
    let entry := reviewRecord now review outcome
    { left with lastReview := some entry, branch := left.branch ++ [reviewEntry entry] }

/-- Abort the controller of a review. -/
def abortPending (number : Option Nat) (pending : OrderedMap Nat PendingReview) :
    OrderedMap Nat PendingReview :=
  match number with
  | none => pending
  | some n =>
    match pending.get? n with
    | none => pending
    | some review => pending.set n { review with aborted := true }

/-- Conclude a review and forget it. -/
def settle (now : ℚ) (number : Nat) (review : PendingReview) (outcome : ReviewOutcome)
    (s : TaskSession) : TaskSession :=
  { s with runtime := concludeReview now number review outcome s.runtime
           pending := s.pending.delete number }

/-- One event. -/
def step (s : TaskSession) : Event → Option TaskSession
  | .call now call => some { s with runtime := (perform host now call s.runtime).2 }
  | .beginReview now runId signalAborted =>
    match captureReview host minimumIntervalMs now runId signalAborted s.runtime with
    | none => some s
    | some review =>
      some { runtime := { s.runtime with
               reviewedRuns := runId :: s.runtime.reviewedRuns
               reviewController := some s.nextReview
               reviewActive := true }
             pending := s.pending.set s.nextReview review
             nextReview := s.nextReview + 1 }
  | .answer now number answer => do
    let review ← s.pending.get? number
    guard (review.phase = .reviewing)
    match answer with
    | .rejected message => return settle now number review (caughtOutcome review message) s
    | .resolved result =>
      match result.patch? with
      | some patch =>
        return { s with pending := s.pending.set number
                         { review with phase := .patching result patch } }
      | none =>
        return settle now number review
          { status := statusWithoutPatch result.status, actualRevision := review.revision
            model := result.model, usage := result.usage, diagnostic := result.error } s
  | .applyPatch now number => do
    let review ← s.pending.get? number
    match review.phase with
    | .patching result patch =>
      let applied := applyReviewerPatch host now patch s.runtime
      return { s with
        runtime := applied.2
        pending := s.pending.set number
          { review with phase := .settling (patchedOutcome review result applied.1) } }
    | _ => none
  | .endReview now number => do
    let review ← s.pending.get? number
    match review.phase with
    | .settling outcome => return settle now number review outcome s
    | _ => none
  | .abortSignal number => some { s with pending := abortPending (some number) s.pending }
  | .abortReview => some { s with pending := abortPending s.runtime.reviewController s.pending }
  | .rebuild entries =>
    some { s with
      runtime := rebuild host entries s.runtime
      pending :=
        if s.runtime.disposed then s.pending
        else abortPending s.runtime.reviewController s.pending }
  | .append entry =>
    if isDynamicTaskEntry entry then none
    else some { s with runtime := { s.runtime with branch := s.runtime.branch ++ [entry] } }
  | .dispose =>
    some { s with
      runtime := { s.runtime with disposed := true }
      pending := abortPending s.runtime.reviewController s.pending }

/-- A session that has just opened on a branch. -/
def openSession (entries : List SessionEntry) : TaskSession :=
  { runtime := createRuntime host entries, pending := OrderedMap.empty, nextReview := 0 }

/-! ## What an event can do -/

/-- Does the answer end the review at once? -/
def ReviewerAnswer.final : ReviewerAnswer → Bool
  | .rejected _ => true
  | .resolved result => result.patch?.isNone

/-- The review that the event records, if it records one. -/
def recordedReview (s : TaskSession) : Event → Option PendingReview
  | .answer _ number answer => if answer.final then s.pending.get? number else none
  | .endReview _ number => s.pending.get? number
  | _ => none

/-- Does the event execute an operation or restore a branch? -/
def Event.mutates : Event → Bool
  | .call _ _ | .applyPatch _ _ | .rebuild _ => true
  | _ => false

/-- The step touches nothing that is persisted. -/
structure SameRecords (s t : DynamicTaskRuntime) : Prop where
  snapshot : t.snapshot = s.snapshot
  history : t.snapshotHistory = s.snapshotHistory
  branch : t.branch = s.branch
  lastReview : t.lastReview = s.lastReview
  disposed : s.disposed = true → t.disposed = true

theorem SameRecords.refl (s : DynamicTaskRuntime) : SameRecords s s :=
  ⟨rfl, rfl, rfl, rfl, id⟩

variable {host minimumIntervalMs} {s t : TaskSession} {e : Event}

/-- **What an event can do to the runtime**: execute a call, apply the patch of a
review, record a review, restore a branch, note a foreign entry, or nothing that is
persisted. -/
theorem step_cases (h : step host minimumIntervalMs s e = some t) :
    (∃ now call, e = .call now call ∧ t.runtime = (perform host now call s.runtime).2) ∨
    (∃ now number patch, e = .applyPatch now number ∧
      t.runtime = (applyReviewerPatch host now patch s.runtime).2) ∨
    (∃ now number review outcome, recordedReview s e = some review ∧
      t.runtime = concludeReview now number review outcome s.runtime) ∨
    (∃ entries, e = .rebuild entries ∧ t.runtime = rebuild host entries s.runtime) ∨
    (∃ entry, e = .append entry ∧ isDynamicTaskEntry entry = false ∧
      t.runtime = { s.runtime with branch := s.runtime.branch ++ [entry] }) ∨
    (e.mutates = false ∧ SameRecords s.runtime t.runtime) := by
  cases e with
  | call now call =>
    cases h
    exact .inl ⟨now, call, rfl, rfl⟩
  | beginReview now runId signalAborted =>
    refine .inr (.inr (.inr (.inr (.inr ⟨rfl, ?_⟩))))
    simp only [step] at h
    split at h
    · cases h
      exact .refl _
    · cases h
      exact ⟨rfl, rfl, rfl, rfl, id⟩
  | answer now number answer =>
    simp only [step] at h
    obtain ⟨review, hreview, h⟩ := Option.bind_eq_some_iff.1 h
    obtain ⟨_, -, h⟩ := Option.bind_eq_some_iff.1 h
    cases answer with
    | rejected message =>
      cases h
      exact .inr (.inr (.inl ⟨now, number, review, _, hreview, rfl⟩))
    | resolved result =>
      cases hpatch : result.patch? with
      | none =>
        simp only [hpatch] at h
        cases h
        refine .inr (.inr (.inl ⟨now, number, review, _, ?_, rfl⟩))
        simp [recordedReview, ReviewerAnswer.final, hpatch, hreview]
      | some patch =>
        simp only [hpatch] at h
        cases h
        exact .inr (.inr (.inr (.inr (.inr ⟨rfl, .refl _⟩))))
  | applyPatch now number =>
    simp only [step] at h
    obtain ⟨review, -, h⟩ := Option.bind_eq_some_iff.1 h
    split at h
    next result patch _ =>
      cases h
      exact .inr (.inl ⟨now, number, patch, rfl, rfl⟩)
    next => cases h
  | endReview now number =>
    simp only [step] at h
    obtain ⟨review, hreview, h⟩ := Option.bind_eq_some_iff.1 h
    split at h
    · cases h
      exact .inr (.inr (.inl ⟨now, number, review, _, hreview, rfl⟩))
    · cases h
  | abortSignal | abortReview =>
    cases h
    exact .inr (.inr (.inr (.inr (.inr ⟨rfl, .refl _⟩))))
  | rebuild entries =>
    cases h
    exact .inr (.inr (.inr (.inl ⟨entries, rfl, rfl⟩)))
  | append entry =>
    simp only [step] at h
    split at h
    · cases h
    next hforeign =>
      cases h
      exact .inr (.inr (.inr (.inr (.inl ⟨entry, rfl, by simpa using hforeign, rfl⟩))))
  | dispose =>
    cases h
    exact .inr (.inr (.inr (.inr (.inr ⟨rfl, rfl, rfl, rfl, rfl, fun _ => rfl⟩))))

end BeauPi.Tasks
