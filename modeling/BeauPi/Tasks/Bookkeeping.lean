import BeauPi.Tasks.Review
import BeauPi.Tasks.Persistence

/-!
# Dynamic Tasks: the bookkeeping of reviews

The runtime remembers the last review, with the plan it was about and how many facts
it covered.  `rebuild` accepts a review of the branch only if it is about the
restored plan and covers no fact the plan does not have; `reviewAfterSettled`, which
records a review long after it captured the plan, checks nothing.

* `Current` — the check that is missing: the captured plan is still the current one,
  and no newer review has been recorded.
* `Orderly` — every recorded review is current, and branches are restored whole.
* `bookkeeping_of_orderly` — **along every orderly run the last review stays attached
  to the current plan, never goes back, and is the one the branch restores**.
-/

namespace BeauPi.Tasks

open Machine Session List
open Option (bind_eq_some_iff some.inj)

/-! ## The property -/

/-- The reviews that a branch holds. -/
def reviewsOf (entries : List SessionEntry) : List DynamicTaskReviewEntryV1 :=
  entries.filterMap reviewValue?

/-- The last review is about the current plan, and covers no fact it does not have. -/
def Attached (s : DynamicTaskRuntime) : Prop :=
  ∀ review ∈ s.lastReview, ∃ plan ∈ s.snapshot,
    review.planId = plan.planId ∧ review.throughFactSequence ≤ plan.factSequence

/-- What is asked of every state. -/
structure Bookkeeping (host : Host) (s : DynamicTaskRuntime) : Prop where
  attached : Attached s
  restored : (rebuild host s.branch s).lastReview = s.lastReview

/-- What is asked of every step: a review never covers less than the one before,
unless another branch is restored. -/
def NeverBack (s : DynamicTaskRuntime) (e : Event) (t : DynamicTaskRuntime) : Prop :=
  match e with
  | .rebuild _ => True
  | _ => reviewedThrough s.lastReview ≤ reviewedThrough t.lastReview

/-! ## The condition -/

/-- The plan that a review captured is still the current one, with all the facts the
review covers, and no review that covers more has been recorded. -/
def Current (s : DynamicTaskRuntime) (review : PendingReview) : Prop :=
  (∃ plan ∈ s.snapshot,
    review.planId = plan.planId ∧ review.throughFactSequence ≤ plan.factSequence) ∧
  reviewedThrough s.lastReview ≤ review.throughFactSequence

/-- No review of the branch covers more facts of the plan than the plan has. -/
def NoReviewBeyond (snapshot : Option DynamicTaskPlanV1) (entries : List SessionEntry) : Prop :=
  ∀ plan ∈ snapshot, ∀ review ∈ reviewsOf entries, review.planId = plan.planId →
    review.throughFactSequence ≤ plan.factSequence

/-- A branch that holds the facts of every review of its plan. -/
def Whole (host : Host) (entries : List SessionEntry) : Prop :=
  NoReviewBeyond (restoreSnapshots host entries).1 entries

/-- **The condition on a step**: a review that is recorded is current, a branch that
is restored is whole, and the id drawn for a first plan is not that of an old review. -/
def Orderly (host : Host) (s : TaskSession) (e : Event) : Prop :=
  s.runtime.disposed = true ∨
  ((∀ review ∈ recordedReview s e, Current s.runtime review) ∧
    match e with
    | .rebuild entries => Whole host entries
    | .call _ (.updatePlan newPlanId _) => s.runtime.snapshot = none →
        ∀ review ∈ reviewsOf s.runtime.branch, review.planId ≠ newPlanId
    | _ => True)

/-- The digests of the host are 64 lower-case hexadecimal digits. -/
def HexDigests (host : Host) : Prop := ∀ text, isFactsHash (host.sha256 text) = true

/-! ## Reading reviews back -/

theorem reviewStatus?_name (status : DynamicTaskReviewStatus) :
    reviewStatus? status.name = some status := by
  cases status <;> decide

theorem asUsage_val (usage : Usage) : asUsage usage.1 = some usage := by
  unfold asUsage
  rw [dif_pos usage.2]

/-- A recorded review is read back as it was. -/
theorem getDynamicTaskReviewEntry_toJson {entry : DynamicTaskReviewEntryV1}
    (h : isFactsHash entry.factsHash = true) :
    getDynamicTaskReviewEntry entry.toJson = some entry := by
  obtain ⟨planId, expectedRevision, actualRevision, factsHash, through, status, createdAt, model,
    usage, diagnostic⟩ := entry
  cases model <;> cases usage <;> cases diagnostic <;>
    simp_all [getDynamicTaskReviewEntry, DynamicTaskReviewEntryV1.toJson, Json.get?, Shape.compact,
      Json.asString?, Json.asNumber?, reviewStatus?_name, asUsage_val, guard, Json.optField,
      Json.field?]

theorem reviewValue?_reviewEntry {entry : DynamicTaskReviewEntryV1}
    (h : isFactsHash entry.factsHash = true) :
    reviewValue? (reviewEntry entry) = some entry := by
  simp only [reviewEntry, reviewValue?, if_pos]
  exact getDynamicTaskReviewEntry_toJson h

variable {host : Host}

theorem snapshotType_ne_reviewType :
    dynamicTaskSnapshotEntryType ≠ dynamicTaskReviewEntryType := by decide

theorem reviewValue?_snapshotEntry (plan : DynamicTaskPlanV1) :
    reviewValue? (snapshotEntry host plan) = none := by
  simp [snapshotEntry, reviewValue?, snapshotType_ne_reviewType]

theorem snapshotValue?_reviewEntry (entry : DynamicTaskReviewEntryV1) :
    snapshotValue? (reviewEntry entry) = none := by
  simp [reviewEntry, snapshotValue?, snapshotType_ne_reviewType.symm]

theorem reviewValue?_of_foreign {entry : SessionEntry} (h : isDynamicTaskEntry entry = false) :
    reviewValue? entry = none := by
  cases entry with
  | other type => rfl
  | custom customType data =>
    have hne : customType ≠ dynamicTaskReviewEntryType := by
      rintro rfl
      simp [isDynamicTaskEntry] at h
    cases data with
    | none => rfl
    | some value => simp [reviewValue?, hne]

theorem neverBack_of_le {s t : DynamicTaskRuntime} {e : Event}
    (h : reviewedThrough s.lastReview ≤ reviewedThrough t.lastReview) : NeverBack s e t := by
  unfold NeverBack
  split
  · trivial
  · exact h

theorem reviewsOf_append_none {entries : List SessionEntry} {entry : SessionEntry}
    (h : reviewValue? entry = none) : reviewsOf (entries ++ [entry]) = reviewsOf entries := by
  simp [reviewsOf, h]

theorem reviewsOf_append_some {entries : List SessionEntry} {entry : SessionEntry}
    {review : DynamicTaskReviewEntryV1} (h : reviewValue? entry = some review) :
    reviewsOf (entries ++ [entry]) = reviewsOf entries ++ [review] := by
  simp [reviewsOf, h]

/-- If no review goes beyond the plan, the reviews that count are those of the plan. -/
theorem reviewsFor_of_noReviewBeyond {plan : DynamicTaskPlanV1} {entries : List SessionEntry}
    (h : NoReviewBeyond (some plan) entries) :
    reviewsFor plan entries = (reviewsOf entries).filter fun review => review.planId = plan.planId := by
  unfold reviewsFor
  refine filter_congr fun review hreview => ?_
  by_cases hid : review.planId = plan.planId
  · simp [hid, h plan rfl review hreview hid]
  · simp [hid]

/-! ## The invariant -/

/-- What holds in every state of an orderly run. -/
structure Kept (host : Host) (s : DynamicTaskRuntime) : Prop where
  attached : Attached s
  persisted : s.disposed = false → Persisted host s
  lastReview : s.disposed = false → s.lastReview = restoreReview s.snapshot s.branch
  whole : s.disposed = false → NoReviewBeyond s.snapshot s.branch

/-- A review that is restored is attached. -/
theorem attached_of_restoreReview {s : DynamicTaskRuntime}
    (h : s.lastReview = restoreReview s.snapshot s.branch) : Attached s := by
  intro review hreview
  rw [h] at hreview
  obtain ⟨plan, hplan, hlast⟩ := bind_eq_some_iff.1 hreview
  have hmem : review ∈ reviewsFor plan s.branch := mem_of_getLast? hlast
  unfold reviewsFor at hmem
  rw [mem_filter] at hmem
  refine ⟨plan, hplan, ?_⟩
  simpa using hmem.2

theorem Kept.bookkeeping {s : DynamicTaskRuntime} (h : Kept host s) : Bookkeeping host s := by
  refine ⟨h.attached, ?_⟩
  unfold rebuild
  split
  · rfl
  next hd =>
  have hd' : s.disposed = false := by simpa using hd
  have hrestored : restoreSnapshots host s.branch = (s.snapshot, s.snapshotHistory) :=
    h.persisted hd'
  show restoreReview (restoreSnapshots host s.branch).1 s.branch = s.lastReview
  rw [hrestored, h.lastReview hd']

theorem Kept.of_sameRecords {s t : DynamicTaskRuntime} (hs : Kept host s) (h : SameRecords s t) :
    Kept host t := by
  have hlive : t.disposed = false → s.disposed = false := by
    intro ht
    by_contra hne
    have := h.disposed (by simpa using hne)
    rw [ht] at this
    cases this
  constructor
  · unfold Attached
    rw [h.lastReview, h.snapshot]
    exact hs.attached
  · intro ht
    unfold Persisted
    rw [h.branch, h.snapshot, h.history]
    exact hs.persisted (hlive ht)
  · intro ht
    rw [h.lastReview, h.snapshot, h.branch]
    exact hs.lastReview (hlive ht)
  · intro ht
    rw [h.snapshot, h.branch]
    exact hs.whole (hlive ht)

/-- Restoring a whole branch establishes the invariant. -/
theorem kept_rebuild {s : DynamicTaskRuntime} {entries : List SessionEntry}
    (hs : s.disposed = true → Kept host s) (h : s.disposed = false → Whole host entries) :
    Kept host (rebuild host entries s) := by
  unfold rebuild
  split
  next hd =>
    refine ⟨(hs hd).attached, ?_, ?_, ?_⟩ <;>
      (intro hlive; rw [show s.disposed = false from hlive] at hd; cases hd)
  next hd =>
    have hd' : s.disposed = false := by simpa using hd
    exact ⟨attached_of_restoreReview rfl, fun _ => rfl, fun _ => rfl, fun _ => h hd'⟩

/-- Accepting a plan keeps the invariant, if a first plan takes no review over. -/
theorem Kept.of_accepts {s t : DynamicTaskRuntime} {next : DynamicTaskPlanV1} (hs : Kept host s)
    (h : Accepts host s next t)
    (hfresh : s.snapshot = none → ∀ review ∈ reviewsOf s.branch, review.planId ≠ next.planId) :
    Kept host t := by
  have hwhole := hs.whole h.live
  have hreviews : reviewsOf t.branch = reviewsOf s.branch := by
    rw [h.branch, reviewsOf_append_none (reviewValue?_snapshotEntry next)]
  have hwhole' : NoReviewBeyond t.snapshot t.branch := by
    intro plan hplan review hreview hid
    rw [h.snapshot] at hplan
    obtain rfl := some.inj hplan
    rw [hreviews] at hreview
    cases hsnap : s.snapshot with
    | none => exact absurd hid (hfresh hsnap review hreview)
    | some plan =>
      obtain ⟨hsame, hle⟩ := h.continues plan hsnap
      have hthrough := hwhole plan hsnap review hreview (hid.trans hsame)
      exact hthrough.trans (by exact_mod_cast hle)
  have hlast : t.lastReview = restoreReview t.snapshot t.branch := by
    rw [h.lastReview, hs.lastReview h.live, h.snapshot]
    rw [h.snapshot] at hwhole'
    show restoreReview s.snapshot s.branch = (reviewsFor next t.branch).getLast?
    rw [reviewsFor_of_noReviewBeyond hwhole', hreviews]
    cases hsnap : s.snapshot with
    | none =>
      have hempty : (reviewsOf s.branch).filter
          (fun review => decide (review.planId = next.planId)) = [] := by
        rw [filter_eq_nil_iff]
        intro review hreview
        simpa using hfresh hsnap review hreview
      rw [hempty]
      rfl
    | some plan =>
      obtain ⟨hsame, -⟩ := h.continues plan hsnap
      rw [hsnap] at hwhole
      show (reviewsFor plan s.branch).getLast? = _
      rw [reviewsFor_of_noReviewBeyond hwhole, hsame]
  exact ⟨attached_of_restoreReview hlast, fun _ => h.persisted (hs.persisted h.live),
    fun _ => hlast, fun _ => hwhole'⟩

theorem Untouched.sameRecords {s t : DynamicTaskRuntime} (h : Untouched s t) : SameRecords s t := by
  unfold Untouched at h
  rw [h]
  exact ⟨rfl, rfl, rfl, rfl, id⟩

/-- Without a plan only an update is accepted, and its plan has the id that was drawn. -/
theorem perform_first {s : DynamicTaskRuntime} {now : ℚ} {call : Call} {next : DynamicTaskPlanV1}
    (hnone : s.snapshot = none) (h : Accepts host s next (perform host now call s).2) :
    ∃ newPlanId value, call = .updatePlan newPlanId value ∧ next.planId = newPlanId := by
  have habsurd : ∀ {r : Answer × DynamicTaskRuntime}, Refuses s r → r.2.snapshot ≠ some next := by
    intro r hr hsome
    rw [hr.2.snapshot, hnone] at hsome
    cases hsome
  have hsnap := h.snapshot
  have hrecord : ∀ input, (recordFact host now input s).2.snapshot ≠ some next := by
    intro input
    rcases recordFact_cases host s now input with hr | ⟨plan, _, hplan, -⟩
    · exact habsurd hr
    · rw [hnone] at hplan
      cases hplan
  unfold perform at hsnap
  cases call with
  | updatePlan newPlanId value =>
    rcases updatePlan_cases host s now newPlanId value with
      hr | ⟨base, input, next', -, hnext, -, hstores⟩
    · exact absurd hsnap (habsurd hr)
    · obtain rfl : next' = next := some.inj (hstores.snapshot.symm.trans hsnap)
      refine ⟨newPlanId, value, rfl, ?_⟩
      rw [hnext]
      simp [updatedPlan, hnone]
  | applyReviewerPatch value =>
    rcases applyReviewerPatch_cases host s now value with
      hr | ⟨plan, _, _, _, _, _, hplan, -⟩
    · exact absurd hsnap (habsurd hr)
    · rw [hnone] at hplan
      cases hplan
  | recordFact input => exact absurd hsnap (hrecord input)
  | noteToolStarted input =>
    rcases noteToolStarted_cases host s now input with hr | ⟨plan, _, _, hplan, -⟩
    · exact absurd hsnap (habsurd hr)
    · rw [hnone] at hplan
      cases hplan
  | noteToolFinished input =>
    rcases noteToolFinished_cases host s now input with hr | ⟨plan, _, _, hplan, -⟩
    · exact absurd hsnap (habsurd hr)
    · rw [hnone] at hplan
      cases hplan
  | noteWorkflow | noteBackground | noteMonitor => exact absurd hsnap (hrecord _)

theorem Kept.of_performs {s : DynamicTaskRuntime} {r : Answer × DynamicTaskRuntime}
    (hs : Kept host s) (h : Performs host s r)
    (hfresh : s.snapshot = none → ∀ next, Accepts host s next r.2 →
      ∀ review ∈ reviewsOf s.branch, review.planId ≠ next.planId) :
    Kept host r.2 ∧ r.2.lastReview = s.lastReview := by
  rcases h with h | ⟨-, next, h⟩
  · exact ⟨hs.of_sameRecords h.2.sameRecords, h.2.sameRecords.lastReview⟩
  · exact ⟨hs.of_accepts h fun hnone => hfresh hnone next h, h.lastReview⟩

/-- Recording a current review keeps the invariant and does not go back. -/
theorem Kept.of_conclude {s : DynamicTaskRuntime} {now : ℚ} {number : Nat}
    {review : PendingReview} {outcome : ReviewOutcome} (hs : Kept host s)
    (hhash : isFactsHash review.factsHash = true)
    (hcurrent : s.disposed = false → Current s review) :
    Kept host (concludeReview now number review outcome s) ∧
      reviewedThrough s.lastReview ≤
        reviewedThrough (concludeReview now number review outcome s).lastReview := by
  unfold concludeReview
  simp only
  split
  · exact ⟨hs.of_sameRecords ⟨rfl, rfl, rfl, rfl, id⟩, le_refl _⟩
  next hd =>
  have hd' : s.disposed = false := by simpa using hd
  obtain ⟨⟨plan, hplan, hid, hthrough⟩, hback⟩ := hcurrent hd'
  have hsnap : s.snapshot = some plan := hplan
  have hread : reviewValue? (reviewEntry (reviewRecord now review outcome)) =
      some (reviewRecord now review outcome) := reviewValue?_reviewEntry hhash
  have hpersisted : restoreSnapshots host s.branch = (s.snapshot, s.snapshotHistory) :=
    hs.persisted hd'
  have hle : (reviewRecord now review outcome).throughFactSequence ≤ plan.factSequence := by
    show ((review.throughFactSequence : Nat) : ℚ) ≤ plan.factSequence
    exact_mod_cast hthrough
  refine ⟨⟨?_, ?_, ?_, ?_⟩, hback⟩
  · rintro last ⟨⟩
    exact ⟨plan, hsnap, hid, hle⟩
  · intro _
    show restoreSnapshots host (s.branch ++ [_]) = _
    rw [restoreSnapshots_append, restoreEntry_of_none (snapshotValue?_reviewEntry _), hpersisted]
  · intro _
    show some (reviewRecord now review outcome) = restoreReview s.snapshot (s.branch ++ [_])
    rw [hsnap]
    show _ = (reviewsFor plan _).getLast?
    unfold reviewsFor
    have hcounts : (decide ((reviewRecord now review outcome).planId = plan.planId) &&
        decide ((reviewRecord now review outcome).throughFactSequence ≤ plan.factSequence)) =
          true := by
      rw [Bool.and_eq_true, decide_eq_true_eq, decide_eq_true_eq]
      exact ⟨hid, hle⟩
    simp [hread, hcounts]
  · intro _ plan' hplan' other hother hsame
    have hplan'' : s.snapshot = some plan' := hplan'
    obtain rfl : plan = plan' := some.inj (hsnap.symm.trans hplan'')
    rw [reviewsOf_append_some hread, mem_append, mem_singleton] at hother
    rcases hother with hold | rfl
    · exact hs.whole hd' plan hsnap other hold hsame
    · exact hle

/-- A foreign entry keeps the invariant. -/
theorem Kept.of_append {s : DynamicTaskRuntime} {entry : SessionEntry} (hs : Kept host s)
    (h : isDynamicTaskEntry entry = false) :
    Kept host { s with branch := s.branch ++ [entry] } := by
  have hreviews := @reviewsOf_append_none s.branch _ (reviewValue?_of_foreign h)
  refine ⟨hs.attached, ?_, ?_, ?_⟩
  · intro hlive
    show restoreSnapshots host (s.branch ++ [entry]) = _
    rw [restoreSnapshots_append, restoreEntry_of_none (snapshotValue?_of_foreign h)]
    exact hs.persisted hlive
  · intro hlive
    rw [hs.lastReview hlive]
    show s.snapshot.bind _ = s.snapshot.bind _
    unfold reviewsFor
    unfold reviewsOf at hreviews
    rw [hreviews]
  · intro hlive plan hplan review hreview hid
    rw [hreviews] at hreview
    exact hs.whole hlive plan hplan review hreview hid

/-! ## Runs -/

/-- The reviews in flight carry proper hashes. -/
def ProperHashes (s : TaskSession) : Prop :=
  ∀ number review, s.pending.get? number = some review → isFactsHash review.factsHash = true

variable {minimumIntervalMs : ℚ} {s t : TaskSession} {e : Event}

theorem captureReview_hash {now : ℚ} {runId : Nat} {signalAborted : Bool}
    {r : DynamicTaskRuntime} {review : PendingReview} (hhost : HexDigests host)
    (h : captureReview host minimumIntervalMs now runId signalAborted r = some review) :
    isFactsHash review.factsHash = true := by
  simp only [captureReview, Option.bind_eq_bind, bind_eq_some_iff] at h
  obtain ⟨_, -, snapshot, -, last, -, _, -, _, -, h⟩ := h
  cases h
  exact hhost _

/-- A table of reviews in flight keeps proper hashes when a review with a proper hash
is entered. -/
theorem properHashes_set {pending : OrderedMap Nat PendingReview} {n : Nat}
    {review : PendingReview}
    (h : ∀ number r, pending.get? number = some r → isFactsHash r.factsHash = true)
    (hreview : isFactsHash review.factsHash = true) :
    ∀ number r, (pending.set n review).get? number = some r → isFactsHash r.factsHash = true := by
  intro number r hr
  rw [OrderedMap.get?_set] at hr
  split at hr
  · cases hr
    exact hreview
  · exact h number r hr

theorem properHashes_delete {pending : OrderedMap Nat PendingReview} {n : Nat}
    (h : ∀ number r, pending.get? number = some r → isFactsHash r.factsHash = true) :
    ∀ number r, (pending.delete n).get? number = some r → isFactsHash r.factsHash = true := by
  intro number r hr
  rw [OrderedMap.get?_delete] at hr
  split at hr
  · cases hr
  · exact h number r hr

theorem properHashes_abort {pending : OrderedMap Nat PendingReview} {n : Option Nat}
    (h : ∀ number r, pending.get? number = some r → isFactsHash r.factsHash = true) :
    ∀ number r, (abortPending n pending).get? number = some r → isFactsHash r.factsHash = true := by
  unfold abortPending
  split
  · exact h
  split
  · exact h
  next review hreview => exact properHashes_set h (h _ review hreview)

/-- Every event keeps the hashes of the reviews in flight proper. -/
theorem step_properHashes (hhost : HexDigests host) (hs : ProperHashes s)
    (h : step host minimumIntervalMs s e = some t) : ProperHashes t := by
  cases e with
  | call now call =>
    cases h
    exact hs
  | beginReview now runId signalAborted =>
    simp only [step] at h
    split at h
    · cases h
      exact hs
    next review hreview =>
      cases h
      exact properHashes_set hs (captureReview_hash hhost hreview)
  | answer now number answer =>
    simp only [step] at h
    obtain ⟨review, hreview, h⟩ := bind_eq_some_iff.1 h
    obtain ⟨_, -, h⟩ := bind_eq_some_iff.1 h
    cases answer with
    | rejected message =>
      cases h
      exact properHashes_delete hs
    | resolved result =>
      cases hpatch : result.patch? with
      | none =>
        simp only [hpatch] at h
        cases h
        exact properHashes_delete hs
      | some patch =>
        simp only [hpatch] at h
        cases h
        exact properHashes_set hs (hs number review hreview)
  | applyPatch now number =>
    simp only [step] at h
    obtain ⟨review, hreview, h⟩ := bind_eq_some_iff.1 h
    split at h
    · cases h
      exact properHashes_set hs (hs number review hreview)
    · cases h
  | endReview now number =>
    simp only [step] at h
    obtain ⟨review, hreview, h⟩ := bind_eq_some_iff.1 h
    split at h
    · cases h
      exact properHashes_delete hs
    · cases h
  | abortSignal | abortReview | dispose =>
    cases h
    exact properHashes_abort hs
  | rebuild entries =>
    cases h
    unfold ProperHashes
    by_cases hd : s.runtime.disposed = true
    · simp only [hd, if_true]
      exact hs
    · simp only [if_neg hd]
      exact properHashes_abort hs
  | append entry =>
    simp only [step] at h
    split at h
    · cases h
    · cases h
      exact hs

/-- The review that an event records is in flight. -/
theorem recordedReview_pending {review : PendingReview} (h : recordedReview s e = some review) :
    ∃ number, s.pending.get? number = some review := by
  cases e with
  | answer now number answer =>
    simp only [recordedReview] at h
    split at h
    · exact ⟨number, h⟩
    · cases h
  | endReview now number => exact ⟨number, h⟩
  | _ => cases h

/-- One orderly event keeps the invariant and does not go back. -/
theorem step_kept_review (hs : Kept host s.runtime) (hhash : ProperHashes s)
    (h : step host minimumIntervalMs s e = some t) (horderly : Orderly host s e) :
    Kept host t.runtime ∧ NeverBack s.runtime e t.runtime := by
  rcases step_cases h with ⟨now, call, rfl, ht⟩ | ⟨now, number, patch, rfl, ht⟩ |
    ⟨now, number, review, outcome, hrecorded, ht⟩ | ⟨entries, rfl, ht⟩ | ⟨entry, rfl, hentry, ht⟩ |
    ⟨-, ht⟩
  · have hperformed := hs.of_performs (perform_spec _ _ now call) (by
      intro hnone next hnext review hreview
      obtain ⟨newPlanId, value, rfl, hid⟩ := perform_first hnone hnext
      rcases horderly with hdisposed | ⟨-, hfresh⟩
      · rw [hnext.live] at hdisposed
        cases hdisposed
      · rw [hid]
        exact hfresh hnone review hreview)
    rw [ht]
    refine ⟨hperformed.1, neverBack_of_le ?_⟩
    rw [hperformed.2]
  · have hperformed := hs.of_performs (applyReviewerPatch_spec now patch) (by
      intro hnone next hnext
      have hfirst := @perform_first host _ now (.applyReviewerPatch patch) _ hnone hnext
      obtain ⟨newPlanId, value, hcall, -⟩ := hfirst
      cases hcall)
    rw [ht]
    refine ⟨hperformed.1, neverBack_of_le ?_⟩
    rw [hperformed.2]
  · obtain ⟨n, hpending⟩ := recordedReview_pending hrecorded
    have hcurrent : s.runtime.disposed = false → Current s.runtime review := by
      intro hlive
      rcases horderly with hdisposed | ⟨hcurrent, -⟩
      · rw [hlive] at hdisposed
        cases hdisposed
      · exact hcurrent review hrecorded
    rw [ht]
    obtain ⟨hkept, hback⟩ := hs.of_conclude (hhash n review hpending) hcurrent
    exact ⟨hkept, neverBack_of_le hback⟩
  · rw [ht]
    refine ⟨kept_rebuild (fun _ => hs) ?_, trivial⟩
    intro hlive
    rcases horderly with hdisposed | ⟨-, hwhole⟩
    · rw [hlive] at hdisposed
      cases hdisposed
    · exact hwhole
  · rw [ht]
    exact ⟨hs.of_append hentry, neverBack_of_le (le_refl _)⟩
  · refine ⟨hs.of_sameRecords ht, neverBack_of_le ?_⟩
    rw [ht.lastReview]

theorem openSession_kept {entries : List SessionEntry} (h : Whole host entries) :
    Kept host (openSession host entries).runtime := by
  show Kept host (createRuntime host entries)
  unfold createRuntime
  exact kept_rebuild (by intro hd; cases hd) (fun _ => h)

/-- **The bookkeeping of reviews holds along every orderly run.**  If the branch the
runtime opens on is whole and every step is orderly, then in every state the last
review is about the current plan, covers no fact the plan does not have, and is the
review that `rebuild` over the current branch would restore; and no step other than
a rebuild makes the last review cover less. -/
theorem bookkeeping_of_orderly (host : Host) (minimumIntervalMs : ℚ) (hhost : HexDigests host)
    (entries : List SessionEntry) (hwhole : Whole host entries) (es : List Event)
    (horderly : Along (step host minimumIntervalMs) (fun s e _ => Orderly host s e)
      (openSession host entries) es) :
    Bookkeeping host (openSession host entries).runtime ∧
    Along (step host minimumIntervalMs)
      (fun s e t => Bookkeeping host t.runtime ∧ NeverBack s.runtime e t.runtime)
      (openSession host entries) es := by
  have hopen := openSession_kept hwhole
  have hhash : ProperHashes (openSession host entries) := fun number review h => nomatch h
  refine ⟨hopen.bookkeeping, ?_⟩
  refine along_of_invariant (I := fun s => Kept host s.runtime ∧ ProperHashes s) ?_ es _
    ⟨hopen, hhash⟩ horderly
  rintro s e t ⟨hs, hp⟩ hstep hord
  obtain ⟨hkept, hback⟩ := step_kept_review hs hp hstep hord
  exact ⟨⟨hkept.bookkeeping, hback⟩, hkept, step_properHashes hhost hp hstep⟩

/-! ## Two runs -/

instance (s : DynamicTaskRuntime) : Decidable (Attached s) :=
  inferInstanceAs (Decidable (∀ _ ∈ _, ∃ _ ∈ _, _ ∧ _))

instance (host : Host) (s : DynamicTaskRuntime) : Decidable (Bookkeeping host s) :=
  decidable_of_iff (Attached s ∧ (rebuild host s.branch s).lastReview = s.lastReview)
    ⟨fun h => ⟨h.1, h.2⟩, fun h => ⟨h.1, h.2⟩⟩

instance (s : DynamicTaskRuntime) (e : Event) (t : DynamicTaskRuntime) :
    Decidable (NeverBack s e t) :=
  match e with
  | .rebuild _ => isTrue trivial
  | .call _ _ | .applyPatch _ _ | .beginReview _ _ _ | .answer _ _ _ | .endReview _ _
  | .abortSignal _ | .abortReview | .append _ | .dispose => inferInstanceAs (Decidable (_ ≤ _))

instance (s : DynamicTaskRuntime) (review : PendingReview) : Decidable (Current s review) :=
  inferInstanceAs (Decidable ((∃ _ ∈ _, _ ∧ _) ∧ _))

instance (host : Host) (entries : List SessionEntry) : Decidable (Whole host entries) :=
  inferInstanceAs (Decidable (∀ _ ∈ _, ∀ _ ∈ _, _ → _))

instance (host : Host) (s : TaskSession) (e : Event) : Decidable (Orderly host s e) :=
  match e with
  | .rebuild _ => inferInstanceAs (Decidable (_ ∨ ((∀ _ ∈ _, _) ∧ Whole _ _)))
  | .call _ (.updatePlan _ _) =>
    inferInstanceAs (Decidable (_ ∨ ((∀ _ ∈ _, _) ∧ (_ → ∀ _ ∈ _, _))))
  | .call _ (.applyReviewerPatch _) | .call _ (.recordFact _) | .call _ (.noteToolStarted _)
  | .call _ (.noteToolFinished _) | .call _ (.noteWorkflow _) | .call _ (.noteBackground _)
  | .call _ (.noteMonitor _) | .applyPatch _ _ | .beginReview _ _ _ | .answer _ _ _
  | .endReview _ _ | .abortSignal _ | .abortReview | .append _ | .dispose =>
    inferInstanceAs (Decidable (_ ∨ ((∀ _ ∈ _, _) ∧ True)))

/-- The plain host, with the digest of the facts that the runs below review. -/
def reviewHost : Host :=
  { plainHost with
    sha256 := fun text =>
      if text = "[\x7b\"sequence\":1,\"id\":\"tool:call-1:started\",\"kind\":\"tool\"," ++
          "\"ref\":\"call-1\",\"status\":\"started\",\"summary\":\"bash started · npm test\"\x7d]" then
        "8fe29b79c30adcb0fda5aacf14e7a02a0655fd96ce635b9a2e0574428784ad8a"
      else "0000000000000000000000000000000000000000000000000000000000000000" }

theorem reviewHost_hexDigests : HexDigests reviewHost := by
  intro text
  unfold reviewHost
  simp only
  split
  · decide
  · decide

/-- The answer of a reviewer without a patch. -/
def plainAnswer (status : TaskReviewResultStatus) : ReviewerAnswer :=
  .resolved { status, patch := none, model := none, usage := none, error := none }

/-- A plan and two reviews, the second of which starts with more facts while the first one works. -/
def reviewedTrace : List Event :=
  [.call 10 (.updatePlan "plan-1" (plainUpdate 0 "initial_plan" "pending")),
    .call 20 (.noteToolStarted (plainStart "call-1")),
    .beginReview 30 1 false,
    .call 40 (.noteToolFinished (plainFinish "call-1" .success)),
    .beginReview 50 2 false,
    .answer 60 0 (plainAnswer .skipped),
    .answer 70 1 (plainAnswer .timedOut)]

/-- The reviewed run is orderly, ends with the later review of `plan-1`, and keeps its books. -/
theorem bookkeeping_of_orderly_reviewedTrace :
    (runFrom (step reviewHost 0) (openSession reviewHost []) reviewedTrace).map
      (fun s => s.runtime.lastReview.map fun review =>
        (review.planId, review.throughFactSequence)) = some (some ("plan-1", 3)) ∧
    Along (step reviewHost 0)
      (fun s e t => Bookkeeping reviewHost t.runtime ∧ NeverBack s.runtime e t.runtime)
      (openSession reviewHost []) reviewedTrace := by
  refine ⟨by decide +kernel, ?_⟩
  exact (bookkeeping_of_orderly reviewHost 0 reviewHost_hexDigests [] (by decide)
    reviewedTrace (by decide +kernel)).2

/-- The session moves to an empty branch while the reviewer works; the aborted review
is recorded all the same. -/
def strayTrace : List Event :=
  [.call 10 (.updatePlan "plan-1" (plainUpdate 0 "initial_plan" "pending")),
    .call 20 (.noteToolStarted (plainStart "call-1")),
    .beginReview 30 1 false,
    .rebuild [],
    .answer 40 0 (plainAnswer .aborted)]

/-- **A review that outlives its branch is recorded on the next one.** -/
theorem stray_review_is_recorded :
    ¬ Along (step reviewHost 0)
      (fun s e t => Bookkeeping reviewHost t.runtime ∧ NeverBack s.runtime e t.runtime)
      (openSession reviewHost []) strayTrace := by
  decide +kernel

end BeauPi.Tasks
