import BeauPi.Background.Runtime

/-!
# Background tasks: what the operations do to wake events

Every operation of the manager either queues events under the ids it was given, or
belongs to the delivery of events, or restores a branch.  The lemmas below say so once;
the proofs about runs use them and unfold no operation.

* `Enqueues` — a manager that differs by queued events only.
* `observeTask_enqueues`, `finishProgressReview_enqueues`, `wait_enqueues` — the
  operations that are not part of a delivery.
* `consumeWakeQueue_cases` — nothing is due, or all queued events are handed over.
* `Restores` — a manager that has just restored a branch.
-/

namespace BeauPi.Background

open Machine Session

variable (host : Host)

/-! ## Operations that queue events -/

/-- `m'` differs from `m`, as far as wake events are concerned, by queued events whose
ids are among `ids`. -/
structure Enqueues (ids : List String) (m m' : BackgroundTaskManager) : Prop where
  sessionId : m'.sessionId = m.sessionId
  generation : m'.generation = m.generation
  wakeDelivery : m'.wakeDelivery = m.wakeDelivery
  wakeEvents : ∀ id event, m'.wakeEvents.get? id = some event →
    m.wakeEvents.get? id = some event ∨ (id ∈ ids ∧ event.id = id ∧ event.state = .queued)

namespace Enqueues

variable {ids ids' : List String} {m m' m'' : BackgroundTaskManager}

/-- A change that does not concern wake events queues none. -/
theorem of_sameWakes (hs : m'.sessionId = m.sessionId) (hg : m'.generation = m.generation)
    (hd : m'.wakeDelivery = m.wakeDelivery) (he : m'.wakeEvents = m.wakeEvents) :
    Enqueues ids m m' :=
  ⟨hs, hg, hd, fun _ _ h => .inl (he ▸ h)⟩

theorem refl (m : BackgroundTaskManager) : Enqueues ids m m := of_sameWakes rfl rfl rfl rfl

theorem trans (h : Enqueues ids m m') (h' : Enqueues ids m' m'') : Enqueues ids m m'' where
  sessionId := h'.sessionId.trans h.sessionId
  generation := h'.generation.trans h.generation
  wakeDelivery := h'.wakeDelivery.trans h.wakeDelivery
  wakeEvents := by
    intro id event hevent
    rcases h'.wakeEvents id event hevent with hold | hnew
    · exact h.wakeEvents id event hold
    · exact .inr hnew

/-- An operation that may draw fewer ids. -/
theorem mono (hids : ids ⊆ ids') (h : Enqueues ids m m') : Enqueues ids' m m' where
  sessionId := h.sessionId
  generation := h.generation
  wakeDelivery := h.wakeDelivery
  wakeEvents := fun id event hevent =>
    (h.wakeEvents id event hevent).imp_right fun ⟨hid, hrest⟩ => ⟨hids hid, hrest⟩

end Enqueues

variable {host} {ids : List String} {m m' : BackgroundTaskManager}

theorem persist_enqueues (now : ℚ) (m : BackgroundTaskManager) :
    Enqueues ids m (persist host now m) :=
  .of_sameWakes rfl rfl rfl rfl

theorem storeTask_enqueues (now : ℚ) (task : BackgroundTaskV1) (m : BackgroundTaskManager) :
    Enqueues ids m (storeTask host now task m) :=
  .of_sameWakes rfl rfl rfl rfl

theorem setTasks_enqueues (tasks : OrderedMap String BackgroundTaskV1)
    (m : BackgroundTaskManager) : Enqueues ids m { m with tasks := tasks } :=
  .of_sameWakes rfl rfl rfl rfl

theorem enqueueWake_enqueues (now : ℚ) (newId : String) (task : BackgroundTaskV1)
    (reason : BackgroundWakeReason) (status : MonitorStatus) (log : Option BackgroundWakeLogV1)
    (review : Option ProgressReviewV1) (m : BackgroundTaskManager) :
    Enqueues [newId] m (enqueueWake host now newId task reason status log review m) := by
  unfold enqueueWake
  dsimp only
  split_ifs
  · exact .refl m
  · exact .refl m
  · exact .refl m
  · refine ⟨rfl, rfl, rfl, fun id event hevent => ?_⟩
    simp only [persist, OrderedMap.get?_set] at hevent
    by_cases hid : id = newId
    · rw [if_pos hid] at hevent
      cases hevent
      exact .inr ⟨by simp [hid], hid.symm, rfl⟩
    · rw [if_neg hid] at hevent
      exact .inl hevent

/-- The event for a reason, if the task waits for it. -/
def enqueueReason (host : Host) (now : ℚ) (newId : String) (task : BackgroundTaskV1)
    (status : MonitorStatus) (log : Option BackgroundWakeLogV1)
    (reason : Option BackgroundWakeReason) (m : BackgroundTaskManager) : BackgroundTaskManager :=
  match reason with
  | some reason =>
    if (triggerEnabled task reason).isSome then
      enqueueWake host now newId task reason status log none m
    else m
  | none => m

theorem observeTask_enqueues (now : ℚ) (patternId statusId : String) (hasReviewer : Bool)
    (monitorId : String) (preferred : Option BackgroundWakeReason)
    (monitor : Option MonitorView) (read : MonitorLog) (m : BackgroundTaskManager) :
    Enqueues [patternId, statusId] m
      (observeTask host now patternId statusId hasReviewer monitorId preferred monitor read m).1 := by
  unfold observeTask
  split
  · exact .refl m
  split
  · dsimp only
    split_ifs
    · exact .refl m
    · exact storeTask_enqueues ..
  -- the two events first, then what the review and the change of the task persist
  rename_i before _ _ monitor
  obtain ⟨task, logDelta, log⟩ := readLog now monitor read before
  have hobserved : Enqueues [patternId, statusId] m { m with tasks := m.tasks.set task.id task } :=
    setTasks_enqueues ..
  have hmatched : ∀ b : Bool, Enqueues [patternId, statusId] m
      (if b then enqueueWake host now patternId task .errorPattern monitor.status log none
        { m with tasks := m.tasks.set task.id task }
      else { m with tasks := m.tasks.set task.id task }) := by
    rintro (_ | _)
    · exact hobserved
    · exact hobserved.trans ((enqueueWake_enqueues ..).mono (by simp))
  have hwoken : ∀ (reason : Option BackgroundWakeReason) (matched : BackgroundTaskManager),
      Enqueues [patternId, statusId] m matched → Enqueues [patternId, statusId] m
        (enqueueReason host now statusId task monitor.status log reason matched) := by
    rintro (_ | reason) matched h
    · exact h
    · dsimp only [enqueueReason]
      split_ifs
      · exact h.trans ((enqueueWake_enqueues ..).mono (by simp))
      · exact h
  have h := hwoken (preferred.or (reasonForStatus monitor.status monitor.exitReason)) _
    (hmatched (errorPatternMatches host task logDelta))
  dsimp only
  split
  · cases hasReviewer with
    | true => exact h.trans (storeTask_enqueues ..)
    | false => exact (h.trans (storeTask_enqueues ..)).trans (storeTask_enqueues ..)
  · dsimp only
    by_cases hsame : task = before
    · rw [if_pos hsame]; exact h
    · rw [if_neg hsame]; exact h.trans (persist_enqueues ..)

theorem finishProgressReview_enqueues (now : ℚ) (newId : String)
    (review : ProgressReviewInFlight) (answer : Except String ProgressReviewV1)
    (m : BackgroundTaskManager) :
    Enqueues [newId] m (finishProgressReview host now newId review answer m) := by
  unfold finishProgressReview
  split
  · exact .refl m
  split
  · exact (storeTask_enqueues ..).trans (persist_enqueues ..)
  · refine .trans (.trans ?_ (persist_enqueues ..)) (persist_enqueues ..)
    split_ifs
    · exact (setTasks_enqueues ..).trans (enqueueWake_enqueues ..)
    · exact setTasks_enqueues ..

theorem wait_stores {now : ℚ} {taskId : String}
    {triggers : Option (List BackgroundTriggerInput)} (h : wait host now taskId triggers m = .ok m') :
    ∃ old task, m' = storeTask host now task m ∧ m.tasks.get? taskId = some old ∧
      task.id = old.id ∧ task.logHash = old.logHash := by
  unfold wait at h
  split at h
  · cases h
  · next old hold =>
    cases triggers with
    | none =>
      cases h
      exact ⟨old, _, rfl, hold, rfl, rfl⟩
    | some input =>
      dsimp only at h
      cases hn : normalizeTriggers host (some input) with
      | error message => rw [hn] at h; cases h
      | ok normalized =>
        rw [hn] at h
        cases h
        exact ⟨old, _, rfl, hold, rfl, rfl⟩

theorem wait_enqueues {now : ℚ} {taskId : String}
    {triggers : Option (List BackgroundTriggerInput)} (h : wait host now taskId triggers m = .ok m') :
    Enqueues ids m m' := by
  obtain ⟨-, task, rfl, -⟩ := wait_stores h
  exact storeTask_enqueues ..

/-! ## Handing events over -/

variable {event : BackgroundWakeEventV1}

theorem mem_queuedEvents :
    event ∈ queuedEvents m ↔ event ∈ m.wakeEvents.values ∧ event.state = .queued := by
  unfold queuedEvents
  rw [List.mem_insertionSort, List.mem_filter]
  simp

variable (host) in
/-- `consumeWakeQueue` does nothing, or no delivery is in flight, the queued events
become `delivered`, and their ids are handed over. -/
theorem consumeWakeQueue_cases (now : ℚ) (hasPendingUserMessages : Bool)
    (m : BackgroundTaskManager) :
    consumeWakeQueue host now hasPendingUserMessages m = (m, none) ∨
    ∃ m', consumeWakeQueue host now hasPendingUserMessages m =
        (m', some ((queuedEvents m).map (·.id))) ∧
      m.wakeDelivery = none ∧
      m'.generation = m.generation ∧
      m'.wakeDelivery = some ⟨m.generation, (queuedEvents m).map (·.id)⟩ ∧
      ∀ id, m'.wakeEvents.get? id = (m.wakeEvents.get? id).map fun event =>
        if event.state = .queued then { event with state := .delivered, deliveredAt := some now }
        else event := by
  unfold consumeWakeQueue dueEvents
  dsimp only
  split_ifs with hbusy hempty hpending
  · exact .inl rfl
  · exact .inl rfl
  · exact .inl rfl
  · refine .inr ⟨_, rfl, ?_, rfl, rfl, fun id => OrderedMap.get?_mapValues ..⟩
    cases hd : m.wakeDelivery with
    | none => rfl
    | some delivery => simp [hd] at hbusy

/-! ## Restoring a branch -/

variable {sessionId : String} {entries : List SessionEntry}

theorem restoredEvents_key {id : String}
    (h : (restoredEvents host sessionId entries).get? id = some event) : event.id = id := by
  exact OrderedMap.key_of_get?_foldl BackgroundWakeEventV1.id _ (by simp) id event h

variable (host) in
/-- `m` has just restored the branch: no delivery is in flight, no event is
`delivered`, and its queued events are those of the branch. -/
structure Restores (sessionId : String) (entries : List SessionEntry)
    (m : BackgroundTaskManager) : Prop where
  wakeDelivery : m.wakeDelivery = none
  keys : ∀ id event, m.wakeEvents.get? id = some event → event.id = id
  notDelivered : ∀ id event, m.wakeEvents.get? id = some event → event.state ≠ .delivered
  queued : ∀ id event, m.wakeEvents.get? id = some event → event.state = .queued →
    (restoredEvents host sessionId entries).get? id = some event

theorem rebuild_restores (now : ℚ) (entries : List SessionEntry) (m : BackgroundTaskManager) :
    Restores host m.sessionId entries (rebuild host now entries m) := by
  have hget : ∀ id event, (rebuild host now entries m).wakeEvents.get? id = some event →
      ∃ old, (restoredEvents host m.sessionId entries).get? id = some old ∧
        (if old.state = .delivered then { old with state := .consumed, consumedAt := some now }
          else old) = event := by
    intro id event hevent
    have hmap : ((restoredEvents host m.sessionId entries).get? id).map _ = some event :=
      (OrderedMap.get?_mapValues ..).symm.trans hevent
    exact Option.map_eq_some_iff.1 hmap
  refine ⟨rfl, ?_, ?_, ?_⟩
  · intro id event hevent
    obtain ⟨old, hold, rfl⟩ := hget id event hevent
    have := restoredEvents_key hold
    split_ifs <;> exact this
  · intro id event hevent
    obtain ⟨old, hold, rfl⟩ := hget id event hevent
    split_ifs with hdelivered
    · simp
    · exact hdelivered
  · intro id event hevent hqueued
    obtain ⟨old, hold, rfl⟩ := hget id event hevent
    split_ifs at hqueued ⊢ with hdelivered
    exact hold

@[simp] theorem rebuild_generation (now : ℚ) (entries : List SessionEntry)
    (m : BackgroundTaskManager) : (rebuild host now entries m).generation = m.generation + 1 := rfl

/-- The constructor does not look at the state of the events it restores. -/
theorem construct_restores
    (h : ∀ event ∈ (restoredEvents host sessionId entries).values, event.state ≠ .delivered) :
    Restores host sessionId entries (construct host sessionId entries) where
  wakeDelivery := rfl
  keys := fun _ _ hevent => restoredEvents_key hevent
  notDelivered := fun id event hevent => h event (OrderedMap.mem_values_iff.2 ⟨id, hevent⟩)
  queued := fun _ _ hevent _ => hevent

end BeauPi.Background
