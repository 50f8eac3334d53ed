import BeauPi.Tasks.Review

/-!
# Dynamic Tasks: every snapshot has been validated

Whatever an event does to the runtime, the snapshot it leaves is the old one or a plan that
`validateDynamicTaskPlan` has just accepted.

* `Snapshots` — a property of the current snapshot and of the snapshots in the history.
* `step_snapshots` — **every event keeps a property that validation guarantees.**
* `reaches_snapshots` — so it holds of the snapshots of every reachable state.
-/

namespace BeauPi.Tasks

open Machine Session

variable {host : Host} {P : DynamicTaskPlanV1 → Prop}

/-- The property holds of the current snapshot and of all in the history. -/
structure Snapshots (P : DynamicTaskPlanV1 → Prop) (s : DynamicTaskRuntime) : Prop where
  current : ∀ plan, s.snapshot = some plan → P plan
  history : ∀ revision plan, s.snapshotHistory.get? revision = some plan → P plan

/-! ## Restoring -/

variable (hP : ∀ value plan, validateDynamicTaskPlan host value = .ok plan → P plan)

include hP in
theorem restoreSnapshots_invariant :
    ∀ (entries : List SessionEntry)
      (acc : Option DynamicTaskPlanV1 × OrderedMap Nat DynamicTaskPlanV1),
      (∀ plan, acc.1 = some plan → P plan) →
      (∀ revision plan, acc.2.get? revision = some plan → P plan) →
      (∀ plan, (entries.foldl (restoreEntry host) acc).1 = some plan → P plan) ∧
        ∀ revision plan,
          (entries.foldl (restoreEntry host) acc).2.get? revision = some plan → P plan := by
  intro entries
  induction entries with
  | nil => intro acc hcurrent hhistory; exact ⟨hcurrent, hhistory⟩
  | cons entry entries ih =>
    intro acc hcurrent hhistory
    rw [List.foldl_cons]
    unfold restoreEntry
    cases hvalue : snapshotValue? entry with
    | none => exact ih acc hcurrent hhistory
    | some value =>
      dsimp only
      cases hvalid : validateDynamicTaskPlan host value with
      | error e => exact ih acc hcurrent hhistory
      | ok candidate =>
        dsimp only
        split
        next =>
          refine ih _ ?_ ?_
          · rintro plan ⟨⟩
            exact hP value _ hvalid
          · intro revision plan hplan
            dsimp only at hplan
            rw [OrderedMap.get?_set] at hplan
            split at hplan
            · cases hplan
              exact hP value _ hvalid
            · exact hhistory revision plan hplan
        next => exact ih acc hcurrent hhistory

include hP in
theorem rebuild_snapshots
    {s : DynamicTaskRuntime} (entries : List SessionEntry) (hs : Snapshots P s) :
    Snapshots P (rebuild host entries s) := by
  unfold rebuild
  split
  next => exact ⟨hs.current, hs.history⟩
  next =>
    obtain ⟨hcurrent, hhistory⟩ := restoreSnapshots_invariant hP entries
      (none, OrderedMap.empty) (fun _ h => nomatch h) fun _ _ h => nomatch h
    exact ⟨hcurrent, hhistory⟩

include hP in
theorem openSession_snapshots
    (entries : List SessionEntry) : Snapshots P (openSession host entries).runtime := by
  show Snapshots P (createRuntime host entries)
  unfold createRuntime
  refine rebuild_snapshots hP entries ⟨?_, ?_⟩
  · intro plan h
    cases h
  · intro revision plan h
    cases h

/-! ## One event -/

include hP in
theorem Performs.snapshots
    {s : DynamicTaskRuntime} {r : Answer × DynamicTaskRuntime} (h : Performs host s r)
    (hs : Snapshots P s) : Snapshots P r.2 := by
  rcases h with h | ⟨-, next, h⟩
  · have huntouched := h.2
    unfold Untouched at huntouched
    rw [huntouched]
    exact ⟨hs.current, hs.history⟩
  · have hnext : P next := hP _ _ h.valid
    constructor
    · intro plan hplan
      rw [h.snapshot] at hplan
      cases hplan
      exact hnext
    · intro revision plan hplan
      rw [h.history, OrderedMap.get?_set] at hplan
      split at hplan
      · cases hplan
        exact hnext
      · exact hs.history revision plan hplan

theorem concludeReview_snapshot {now : ℚ} {number : Nat} {review : PendingReview}
    {outcome : ReviewOutcome} {s : DynamicTaskRuntime} :
    (concludeReview now number review outcome s).snapshot = s.snapshot ∧
      (concludeReview now number review outcome s).snapshotHistory = s.snapshotHistory := by
  unfold concludeReview
  simp only
  split <;> exact ⟨rfl, rfl⟩

variable {minimumIntervalMs : ℚ} {s t : TaskSession} {e : Event}

include hP in
/-- **Every event keeps a property of the snapshots that validation guarantees.** -/
theorem step_snapshots
    (hs : Snapshots P s.runtime) (h : step host minimumIntervalMs s e = some t) :
    Snapshots P t.runtime := by
  rcases step_cases h with ⟨now, call, -, ht⟩ | ⟨now, number, patch, -, ht⟩ |
    ⟨now, number, review, outcome, -, ht⟩ | ⟨entries, -, ht⟩ | ⟨entry, -, -, ht⟩ | ⟨-, ht⟩
  · rw [ht]
    exact (perform_spec _ _ now call).snapshots hP hs
  · rw [ht]
    exact (applyReviewerPatch_spec now patch).snapshots hP hs
  · obtain ⟨hcurrent, hhistory⟩ := @concludeReview_snapshot now number review outcome s.runtime
    rw [← ht] at hcurrent hhistory
    exact ⟨hcurrent ▸ hs.current, hhistory ▸ hs.history⟩
  · rw [ht]
    exact rebuild_snapshots hP entries hs
  · rw [ht]
    exact ⟨hs.current, hs.history⟩
  · exact ⟨ht.snapshot ▸ hs.current, ht.history ▸ hs.history⟩

include hP in
/-- The snapshots of every reachable state have every property that validation guarantees. -/
theorem reaches_snapshots
    {G : TaskSession → Event → Prop} {entries : List SessionEntry}
    (h : Reaches (step host minimumIntervalMs) G (openSession host entries) s) :
    Snapshots P s.runtime :=
  reaches_invariant (I := fun s => Snapshots P s.runtime) (openSession_snapshots hP entries)
    (fun _ _ _ hu _ hstep => step_snapshots hP hu hstep) h

end BeauPi.Tasks
