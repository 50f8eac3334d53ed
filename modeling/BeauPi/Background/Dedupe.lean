import BeauPi.Background.Wake

/-!
# Background tasks: one wake event for a key

A wake event is created under a key made of the task, the reason, the status of the monitor
and the hash of the log.  The manager creates no event whose key it knows, from an event it
keeps or from the list of consumed keys; a restored branch may know less.

* `hashesAfter` — the hash of the log of each task, as the inputs of the steps tell it.
* `Knows` — the manager knows a key.
* `Creates` — what an operation does to the known keys and to the table of events.
* `Tracked`, `trackedStep` — the system together with the events it has created, as long
  as no branch is restored that does not know them, and the hashes their logs had.
* `one_wake_per_key` — **in every run, no two of these events have the same key**.
-/

namespace BeauPi.Background

open Machine Session List

/-! ## The hash of a log -/

/-- Does an observation of the monitor read a log? -/
def readsLog (monitor : MonitorView) (read : MonitorLog) : Bool :=
  (((monitor.logPath.or monitor.targetLogPath).any fun path => !path.isEmpty) ||
    monitor.hasActivity) && !read.missing

/-- The hash of the log of each task after an event: an observation that reads the log brings its
hash, an operation on a task the one it stores, and a branch those it restores. -/
def hashesAfter (hashes : String → Option String) (m m' : BackgroundTaskManager) :
    Event → String → Option String
  | .storeTask _ task => Function.update hashes task.id task.logHash
  | .observe _ _ _ _ monitorId _ (some monitor) read =>
    match m.tasks.values.find? fun candidate => candidate.monitorId == monitorId with
    | some task =>
      if readsLog monitor read then Function.update hashes task.id (some read.hash) else hashes
    | none => hashes
  | .rebuild .. | .construct .. => fun id => (m'.tasks.get? id).bind (·.logHash)
  | _ => hashes

/-- Every task of the table has the hash of its log, under its id. -/
def Hashed (hashes : String → Option String) (tasks : OrderedMap String BackgroundTaskV1) : Prop :=
  ∀ id task, tasks.get? id = some task → task.id = id ∧ hashes id = task.logHash

section Hashes

variable {hashes : String → Option String} {tasks : OrderedMap String BackgroundTaskV1}
  {task before : BackgroundTaskV1} {monitor : MonitorView} {read : MonitorLog} {now : ℚ}
  {m : BackgroundTaskManager} {monitorId : String}

/-- A task is stored with the hash of its log. -/
theorem Hashed.update (h : Hashed hashes tasks) (task : BackgroundTaskV1) :
    Hashed (Function.update hashes task.id task.logHash) (tasks.set task.id task) := by
  intro id found hfound
  rw [OrderedMap.get?_set] at hfound
  split_ifs at hfound with hid
  · cases hfound
    rw [hid]
    exact ⟨rfl, Function.update_self ..⟩
  · rw [Function.update_of_ne hid]
    exact h id found hfound

/-- A task is stored whose hash stays. -/
theorem Hashed.set (h : Hashed hashes tasks) (hhash : hashes task.id = task.logHash) :
    Hashed hashes (tasks.set task.id task) := by
  have hset := h.update task
  rwa [← hhash, Function.update_eq_self] at hset

/-- A table whose tasks stand under their ids has their hashes. -/
theorem hashed_restored (h : ∀ id task, tasks.get? id = some task → task.id = id) :
    Hashed (fun id => (tasks.get? id).bind (·.logHash)) tasks :=
  fun id task htask => ⟨h id task htask, by simp [htask]⟩

@[simp] theorem addDiagnostic_id (diagnostic : String) (task : BackgroundTaskV1) :
    (addDiagnostic diagnostic task).id = task.id := by
  unfold addDiagnostic
  split_ifs <;> rfl

@[simp] theorem addDiagnostic_logHash (diagnostic : String) (task : BackgroundTaskV1) :
    (addDiagnostic diagnostic task).logHash = task.logHash := by
  unfold addDiagnostic
  split_ifs <;> rfl

/-- The task and the wake event have the hash of the log that is read. -/
theorem readLog_spec (now : ℚ) (monitor : MonitorView) (read : MonitorLog)
    (before : BackgroundTaskV1) :
    (readLog now monitor read before).1.id = before.id ∧
      (readLog now monitor read before).1.logHash =
        (if readsLog monitor read then some read.hash else before.logHash) ∧
      ((readLog now monitor read before).2.2.map (·.hash)).or
        (readLog now monitor read before).1.logHash =
          (readLog now monitor read before).1.logHash := by
  unfold readLog readsLog
  dsimp only
  split_ifs <;> simp_all

/-- After an observation the task has the hash that the model of `readLog` gives it. -/
theorem Hashed.hashesAfter_observe {m' : BackgroundTaskManager} {patternId statusId : String}
    {hasReviewer : Bool} {preferred : Option BackgroundWakeReason} (h : Hashed hashes m.tasks)
    (hbefore : (m.tasks.values.find? fun candidate => candidate.monitorId == monitorId) =
      some before) :
    hashesAfter hashes m m' (.observe now patternId statusId hasReviewer monitorId preferred
      (some monitor) read) =
        Function.update hashes before.id (readLog now monitor read before).1.logHash := by
  obtain ⟨id, hget⟩ := OrderedMap.mem_values_iff.1 (mem_of_find?_eq_some hbefore)
  obtain ⟨hid, hhash⟩ := h id before hget
  rw [(readLog_spec now monitor read before).2.1, hashesAfter, hbefore]
  dsimp only
  split_ifs
  · rfl
  · rw [← hhash, ← hid, Function.update_eq_self]

/-- The hash of the task that the monitor observes is that of the log that is read. -/
def Observes (hashes : String → Option String) (now : ℚ) (monitorId : String)
    (monitor : Option MonitorView) (read : MonitorLog) (m : BackgroundTaskManager) : Prop :=
  ∀ before, (m.tasks.values.find? fun candidate => candidate.monitorId == monitorId) = some before →
    ∀ view, monitor = some view → hashes before.id = (readLog now view read before).1.logHash

theorem Hashed.observes {m' : BackgroundTaskManager} {patternId statusId : String}
    {hasReviewer : Bool} {preferred : Option BackgroundWakeReason} {monitor : Option MonitorView}
    (h : Hashed hashes m.tasks) :
    Observes (hashesAfter hashes m m' (.observe now patternId statusId hasReviewer monitorId
      preferred monitor read)) now monitorId monitor read m := by
  rintro before hbefore view rfl
  rw [h.hashesAfter_observe hbefore, Function.update_self]

end Hashes

/-! ## Known keys -/

/-- `enqueueWake` would not create another event under the key. -/
def knowsKey (m : BackgroundTaskManager) (key : String) : Bool :=
  m.consumedEventKeys.contains key ||
    m.wakeEvents.values.any fun event => event.dedupeKey == key && event.state != .cancelled

/-- The manager knows the key: it was consumed, or an event that was not cancelled has it. -/
def Knows (m : BackgroundTaskManager) (key : String) : Prop :=
  key ∈ m.consumedEventKeys ∨
    ∃ id event, m.wakeEvents.get? id = some event ∧ event.dedupeKey = key ∧
      event.state ≠ .cancelled

variable {m : BackgroundTaskManager}

theorem knowsKey_iff {key : String} :
    knowsKey m key = true ↔ Knows m key := by
  unfold knowsKey Knows
  rw [Bool.or_eq_true, contains_iff_mem, any_eq_true]
  refine or_congr_right ?_
  constructor
  · rintro ⟨event, hmem, h⟩
    obtain ⟨id, hid⟩ := OrderedMap.mem_values_iff.1 hmem
    rw [Bool.and_eq_true, beq_iff_eq, bne_iff_ne] at h
    exact ⟨id, event, hid, h.1, h.2⟩
  · rintro ⟨id, event, hid, hkey, hstate⟩
    refine ⟨event, OrderedMap.mem_values_iff.2 ⟨id, hid⟩, ?_⟩
    rw [Bool.and_eq_true, beq_iff_eq, bne_iff_ne]
    exact ⟨hkey, hstate⟩

/-- The key names the task, the reason, the status of the monitor and the hash of the log. -/
def NamesItsKey (event : BackgroundWakeEventV1) (hash : Option String) : Prop :=
  event.dedupeKey = event.taskId ++ ":" ++ event.reason.name ++ ":" ++
    event.monitorStatus.name ++ ":" ++ hash.getD ""

/-! ## What the operations create -/

/-- `event'` is `event` at a later point of its delivery. -/
structure SameWake (event event' : BackgroundWakeEventV1) : Prop where
  id : event'.id = event.id
  dedupeKey : event'.dedupeKey = event.dedupeKey
  taskId : event'.taskId = event.taskId
  reason : event'.reason = event.reason
  monitorStatus : event'.monitorStatus = event.monitorStatus
  state : event.state ≠ .cancelled → event'.state ≠ .cancelled

namespace SameWake

variable {event event' event'' : BackgroundWakeEventV1}

theorem refl (event : BackgroundWakeEventV1) : SameWake event event :=
  ⟨rfl, rfl, rfl, rfl, rfl, fun h => h⟩

theorem trans (h : SameWake event event') (h' : SameWake event' event'') :
    SameWake event event'' where
  id := h'.id.trans h.id
  dedupeKey := h'.dedupeKey.trans h.dedupeKey
  taskId := h'.taskId.trans h.taskId
  reason := h'.reason.trans h.reason
  monitorStatus := h'.monitorStatus.trans h.monitorStatus
  state := fun hstate => h'.state (h.state hstate)

theorem namesItsKey (h : SameWake event event') {hash : Option String}
    (hkey : NamesItsKey event hash) : NamesItsKey event' hash := by
  unfold NamesItsKey
  rw [h.dedupeKey, h.taskId, h.reason, h.monitorStatus]
  exact hkey

end SameWake

/-- `m'` differs from `m` by events that were created under ids from `ids` and by progress
in the delivery of events; no key is forgotten. -/
structure Creates (hashes : String → Option String) (ids : List String)
    (m m' : BackgroundTaskManager) : Prop where
  consumed : ∀ key ∈ m.consumedEventKeys, key ∈ m'.consumedEventKeys
  kept : ∀ id event, m.wakeEvents.get? id = some event →
    ∃ event', m'.wakeEvents.get? id = some event' ∧ SameWake event event'
  created : ∀ id event, m.wakeEvents.get? id = none → m'.wakeEvents.get? id = some event →
    id ∈ ids ∧ event.id = id ∧ event.state ≠ .cancelled ∧ NamesItsKey event (hashes event.taskId) ∧
      ¬Knows m event.dedupeKey
  distinct : ∀ id other event event', m.wakeEvents.get? id = none →
    m.wakeEvents.get? other = none → m'.wakeEvents.get? id = some event →
    m'.wakeEvents.get? other = some event' → event.dedupeKey = event'.dedupeKey → id = other

namespace Creates

variable {host : Host} {hashes : String → Option String} {ids ids' : List String}
  {m m' m'' : BackgroundTaskManager}

/-- An operation that works on the events of the table and adds none. -/
theorem of_update (update : String → BackgroundWakeEventV1 → BackgroundWakeEventV1)
    (hconsumed : ∀ key ∈ m.consumedEventKeys, key ∈ m'.consumedEventKeys)
    (hupdate : ∀ id event, SameWake event (update id event))
    (hevents : ∀ id, m'.wakeEvents.get? id = (m.wakeEvents.get? id).map (update id)) :
    Creates hashes ids m m' where
  consumed := hconsumed
  kept := by
    intro id event hevent
    refine ⟨update id event, ?_, hupdate id event⟩
    rw [hevents, hevent, Option.map_some]
  created := by
    intro id event hnone hsome
    rw [hevents, hnone] at hsome
    cases hsome
  distinct := by
    intro id other event event' hnone _ hsome
    rw [hevents, hnone] at hsome
    cases hsome

/-- A change that does not concern wake events creates none. -/
theorem of_same (hconsumed : m'.consumedEventKeys = m.consumedEventKeys)
    (hevents : m'.wakeEvents = m.wakeEvents) : Creates hashes ids m m' := by
  refine of_update (fun _ event => event) ?_ (fun _ event => .refl event) ?_
  · intro key hkey
    rw [hconsumed]
    exact hkey
  · intro id
    rw [hevents]
    cases m.wakeEvents.get? id <;> rfl

theorem refl (m : BackgroundTaskManager) : Creates hashes ids m m := of_same rfl rfl

/-- No operation forgets a key. -/
theorem knows (h : Creates hashes ids m m') {key : String} (hkey : Knows m key) :
    Knows m' key := by
  rcases hkey with hconsumed | ⟨id, event, hevent, hkey, hstate⟩
  · exact .inl (h.consumed key hconsumed)
  · obtain ⟨event', hevent', hsame⟩ := h.kept id event hevent
    exact .inr ⟨id, event', hevent', hsame.dedupeKey.trans hkey, hsame.state hstate⟩

variable {id : String}

/-- A created event is known. -/
theorem knows_created (h : Creates hashes ids m m') {event : BackgroundWakeEventV1}
    (hnone : m.wakeEvents.get? id = none) (hevent : m'.wakeEvents.get? id = some event) :
    Knows m' event.dedupeKey :=
  .inr ⟨id, event, hevent, rfl, (h.created id event hnone hevent).2.2.1⟩

/-- An event at the end was there in between, or is created last. -/
theorem between (h' : Creates hashes ids' m' m'') {event : BackgroundWakeEventV1}
    (hevent : m''.wakeEvents.get? id = some event) :
    m'.wakeEvents.get? id = none ∨
      ∃ old, m'.wakeEvents.get? id = some old ∧ SameWake old event := by
  cases hold : m'.wakeEvents.get? id with
  | none => exact .inl rfl
  | some old =>
    obtain ⟨event', hevent', hsame⟩ := h'.kept id old hold
    rw [hevent] at hevent'
    cases hevent'
    exact .inr ⟨old, rfl, hsame⟩

theorem trans (h : Creates hashes ids m m') (h' : Creates hashes ids' m' m'') :
    Creates hashes (ids ++ ids') m m'' where
  consumed := fun key hkey => h'.consumed key (h.consumed key hkey)
  kept := by
    intro id event hevent
    obtain ⟨event', hevent', hsame⟩ := h.kept id event hevent
    obtain ⟨event'', hevent'', hsame'⟩ := h'.kept id event' hevent'
    exact ⟨event'', hevent'', hsame.trans hsame'⟩
  created := by
    intro id event hnone hevent
    rcases h'.between hevent with hlast | ⟨old, hold, hsame⟩
    · obtain ⟨hid, hkey, hstate, hnames, hunknown⟩ := h'.created id event hlast hevent
      exact ⟨mem_append_right _ hid, hkey, hstate, hnames, fun hknown =>
        hunknown (h.knows hknown)⟩
    · obtain ⟨hid, hkey, hstate, hnames, hunknown⟩ := h.created id old hnone hold
      refine ⟨mem_append_left _ hid, hsame.id.trans hkey, hsame.state hstate, ?_, ?_⟩
      · rw [hsame.taskId]
        exact hsame.namesItsKey hnames
      · rw [hsame.dedupeKey]
        exact hunknown
  distinct := by
    -- an event that was there in between is known when a later one is created
    have hlater : ∀ {id other : String} {old event : BackgroundWakeEventV1},
        m.wakeEvents.get? id = none → m'.wakeEvents.get? id = some old →
        m'.wakeEvents.get? other = none → m''.wakeEvents.get? other = some event →
        old.dedupeKey ≠ event.dedupeKey := by
      intro id other old event hnone hold hlast hevent hkey
      refine (h'.created other event hlast hevent).2.2.2.2 ?_
      rw [← hkey]
      exact h.knows_created hnone hold
    intro id other event event' hnone hnone' hevent hevent' hkey
    rcases h'.between hevent with hlast | ⟨old, hold, hsame⟩
    · rcases h'.between hevent' with hlast' | ⟨old', hold', hsame'⟩
      · exact h'.distinct id other event event' hlast hlast' hevent hevent' hkey
      · exact absurd (hsame'.dedupeKey.symm.trans hkey.symm) (hlater hnone' hold' hlast hevent)
    · rcases h'.between hevent' with hlast' | ⟨old', hold', hsame'⟩
      · exact absurd (hsame.dedupeKey.symm.trans hkey) (hlater hnone hold hlast' hevent')
      · refine h.distinct id other old old' hnone hnone' hold hold' ?_
        rw [← hsame.dedupeKey, ← hsame'.dedupeKey, hkey]

/-- An operation that may draw more ids. -/
theorem mono (hids : ids ⊆ ids') (h : Creates hashes ids m m') : Creates hashes ids' m m' where
  consumed := h.consumed
  kept := h.kept
  created := by
    intro id event hnone hevent
    obtain ⟨hid, hrest⟩ := h.created id event hnone hevent
    exact ⟨hids hid, hrest⟩
  distinct := h.distinct

/-- What follows does not concern wake events. -/
theorem then_same (h : Creates hashes ids m m')
    (hconsumed : m''.consumedEventKeys = m'.consumedEventKeys)
    (hevents : m''.wakeEvents = m'.wakeEvents) : Creates hashes ids m m'' where
  consumed := by rw [hconsumed]; exact h.consumed
  kept := by rw [hevents]; exact h.kept
  created := by rw [hevents]; exact h.created
  distinct := by rw [hevents]; exact h.distinct

/-- What came before did not concern wake events. -/
theorem after_same (h : Creates hashes ids m' m'')
    (hconsumed : m'.consumedEventKeys = m.consumedEventKeys)
    (hevents : m'.wakeEvents = m.wakeEvents) : Creates hashes ids m m'' := by
  have hfirst : Creates hashes [] m m' := of_same hconsumed hevents
  exact (hfirst.trans h).mono fun _ hid => hid

/-! ### The operations -/

theorem storeTask (now : ℚ) (task : BackgroundTaskV1) (m : BackgroundTaskManager) :
    Creates hashes ids m (storeTask host now task m) := of_same rfl rfl

theorem setTasks (tasks : OrderedMap String BackgroundTaskV1) (m : BackgroundTaskManager) :
    Creates hashes ids m { m with tasks := tasks } := of_same rfl rfl

variable {newId : String}

/-- **`enqueueWake` creates at most one event, and none whose key is known.** -/
theorem enqueueWake (now : ℚ) (task : BackgroundTaskV1) (reason : BackgroundWakeReason)
    (status : MonitorStatus) (log : Option BackgroundWakeLogV1) (review : Option ProgressReviewV1)
    (hnew : m.wakeEvents.get? newId = none)
    (hhash : ((log.map (·.hash)).or task.logHash).getD "" = (hashes task.id).getD "") :
    Creates hashes [newId] m (enqueueWake host now newId task reason status log review m) := by
  unfold Background.enqueueWake
  dsimp only
  split_ifs with hwait hconsumed hknown
  · exact .refl m
  · exact .refl m
  · exact .refl m
  · have hunknown : ¬Knows m (wakeKey task reason status log) := by
      rw [← knowsKey_iff, knowsKey, Bool.or_eq_true, not_or]
      exact ⟨by simpa using hconsumed, hknown⟩
    -- the new event is the only difference
    have hget : ∀ id new event, m.wakeEvents.get? id = none →
        (m.wakeEvents.set newId new).get? id = some event → id = newId := by
      intro id new event hnone hsome
      by_contra hne
      rw [OrderedMap.get?_set_ne _ _ hne, hnone] at hsome
      cases hsome
    refine ⟨fun key hkey => hkey, ?_, ?_, ?_⟩
    · intro id event hevent
      refine ⟨event, ?_, .refl event⟩
      have hne : id ≠ newId := by
        rintro rfl
        rw [hnew] at hevent
        cases hevent
      exact (OrderedMap.get?_set_ne _ _ hne).trans hevent
    · intro id event hnone hevent
      obtain rfl := hget id _ event hnone hevent
      cases (OrderedMap.get?_set_self _ _ _).symm.trans hevent
      refine ⟨by simp, rfl, by simp, ?_, hunknown⟩
      rw [NamesItsKey, wakeKey, hhash]
    · intro id other event event' hnone hnone' hevent hevent' _
      exact (hget id _ event hnone hevent).trans (hget other _ event' hnone' hevent').symm

/-- The same after a change of the tasks. -/
theorem enqueueWake_setTasks (now : ℚ) (task : BackgroundTaskV1) (reason : BackgroundWakeReason)
    (status : MonitorStatus) (log : Option BackgroundWakeLogV1) (review : Option ProgressReviewV1)
    (tasks : OrderedMap String BackgroundTaskV1) (hnew : m.wakeEvents.get? newId = none)
    (hhash : ((log.map (·.hash)).or task.logHash).getD "" = (hashes task.id).getD "") :
    Creates hashes [newId] m (Background.enqueueWake host now newId task reason status log review
      { m with tasks := tasks }) := by
  have h : Creates hashes [newId] { m with tasks := tasks } (Background.enqueueWake host now newId
      task reason status log review { m with tasks := tasks }) :=
    enqueueWake now task reason status log review hnew hhash
  exact h.after_same rfl rfl

/-- An id that was new stays new if it is not among the ids drawn. -/
theorem get?_none (h : Creates hashes ids m m') (hnone : m.wakeEvents.get? id = none)
    (hid : id ∉ ids) :
    m'.wakeEvents.get? id = none := by
  cases hevent : m'.wakeEvents.get? id with
  | none => rfl
  | some event => exact absurd (h.created id event hnone hevent).1 hid

theorem observeTask (now : ℚ) {patternId statusId : String} (hasReviewer : Bool)
    (monitorId : String) (preferred : Option BackgroundWakeReason) (monitor : Option MonitorView)
    (read : MonitorLog) (hpattern : m.wakeEvents.get? patternId = none)
    (hstatus : m.wakeEvents.get? statusId = none) (hne : statusId ≠ patternId)
    (hhashes : Observes hashes now monitorId monitor read m) :
    Creates hashes ([patternId] ++ [statusId]) m
      (observeTask host now patternId statusId hasReviewer monitorId preferred monitor read
        m).1 := by
  unfold Background.observeTask
  split
  · exact .refl m
  split
  · dsimp only
    split_ifs
    · exact .refl m
    · exact storeTask ..
  rename_i before hbefore _ monitor
  obtain ⟨hid, -, hlog⟩ := readLog_spec now monitor read before
  have hread := hhashes before hbefore monitor rfl
  generalize readLog now monitor read before = result at hid hlog hread ⊢
  obtain ⟨task, logDelta, log⟩ := result
  have hhash : ((log.map (·.hash)).or task.logHash).getD "" = (hashes task.id).getD "" := by
    rw [hlog, hid, hread]
  have hobserved : Creates hashes [patternId] m { m with tasks := m.tasks.set task.id task } :=
    setTasks ..
  have hmatched : ∀ b : Bool, Creates hashes [patternId] m
      (if b then Background.enqueueWake host now patternId task .errorPattern monitor.status log
        none { m with tasks := m.tasks.set task.id task }
      else { m with tasks := m.tasks.set task.id task }) := by
    rintro (_ | _)
    · exact hobserved
    · exact enqueueWake_setTasks now task .errorPattern monitor.status log none _ hpattern hhash
  have hwoken : ∀ (reason : Option BackgroundWakeReason) (matched : BackgroundTaskManager),
      Creates hashes [patternId] m matched → Creates hashes ([patternId] ++ [statusId]) m
        (enqueueReason host now statusId task monitor.status log reason matched) := by
    rintro (_ | reason) matched h
    · exact h.mono (by simp)
    · dsimp only [enqueueReason]
      split_ifs
      · exact h.trans (enqueueWake now task reason monitor.status log none
          (h.get?_none hstatus (by simpa using hne)) hhash)
      · exact h.mono (by simp)
  have h := hwoken (preferred.or (reasonForStatus monitor.status monitor.exitReason)) _
    (hmatched (errorPatternMatches host task logDelta))
  dsimp only
  split
  · cases hasReviewer with
    | true => exact h.then_same rfl rfl
    | false => exact h.then_same rfl rfl
  · dsimp only
    by_cases hsame : task = before
    · rw [if_pos hsame]; exact h
    · rw [if_neg hsame]; exact h.then_same rfl rfl

theorem finishProgressReview (now : ℚ) (review : ProgressReviewInFlight)
    (answer : Except String ProgressReviewV1) (hnew : m.wakeEvents.get? newId = none)
    (hhash : ∀ task, m.tasks.get? review.taskId = some task →
      (some review.logHash).getD "" = (hashes task.id).getD "") :
    Creates hashes [newId] m (finishProgressReview host now newId review answer m) := by
  unfold Background.finishProgressReview
  split
  · exact .refl m
  rename_i task htask
  split
  · exact of_same rfl rfl
  · dsimp only
    split_ifs
    · refine (enqueueWake_setTasks now _ .progressReview _ _ _ _ hnew ?_).then_same rfl rfl
      exact hhash task htask
    · exact of_same rfl rfl

theorem wait {now : ℚ} {taskId : String} {triggers : Option (List BackgroundTriggerInput)}
    (h : wait host now taskId triggers m = .ok m') : Creates hashes ids m m' := by
  obtain ⟨-, task, rfl, -⟩ := wait_stores h
  exact storeTask ..

theorem consumeWakeQueue (now : ℚ) (hasPendingUserMessages : Bool) (m : BackgroundTaskManager) :
    Creates hashes ids m (consumeWakeQueue host now hasPendingUserMessages m).1 := by
  unfold Background.consumeWakeQueue
  split
  · exact .refl m
  · refine of_update (fun _ event => if event.state = .queued then
      { event with state := .delivered, deliveredAt := some now } else event)
      (fun key hkey => hkey) ?_ (fun id => OrderedMap.get?_mapValues ..)
    intro _ event
    split_ifs
    · exact ⟨rfl, rfl, rfl, rfl, rfl, fun _ => by simp⟩
    · exact .refl event

/-- Adding keys to the consumed ones forgets none. -/
theorem mem_addKeys (keys : List String) :
    ∀ known : List String, ∀ key ∈ known, key ∈ addKeys keys known := by
  unfold addKeys
  induction keys with
  | nil => intro known key hkey; exact hkey
  | cons first rest ih =>
    intro known key hkey
    refine ih _ key ?_
    by_cases hfirst : first ∈ known
    · simpa [hfirst] using hkey
    · simp [hfirst, hkey]

theorem concludeDelivery (now : ℚ) (delivery : Delivery) (m : BackgroundTaskManager) :
    Creates hashes ids m (concludeDelivery host now delivery m) := by
  unfold Background.concludeDelivery
  split
  · exact .refl m
  · unfold finishWakeDelivery
    split_ifs
    · exact .refl m
    · refine of_update (fun id event => if id ∈ delivery.eventIds then
        { event with state := .consumed, consumedAt := some now } else event)
        (fun key hkey => mem_addKeys _ _ key hkey) ?_ (fun id => OrderedMap.get?_adjust ..)
      intro id event
      split_ifs
      · exact ⟨rfl, rfl, rfl, rfl, rfl, fun _ => by simp⟩
      · exact .refl event
  · rename_i error _
    unfold failWakeDelivery
    split_ifs
    · exact .refl m
    · refine of_update (fun id event => if id ∈ delivery.eventIds then
        { event with state := .queued, diagnostic := some ("Wake delivery failed: " ++ error) }
        else event) (fun key hkey => hkey) ?_ (fun id => OrderedMap.get?_adjust ..)
      intro id event
      split_ifs
      · exact ⟨rfl, rfl, rfl, rfl, rfl, fun _ => by simp⟩
      · exact .refl event

end Creates

/-! ## Runs -/

/-- A wake event that was created, and the hash its task's log had then. -/
structure CreatedWake where
  event : BackgroundWakeEventV1
  logHash : Option String

/-- The system, with the hashes of the logs, and the wake events that it has created and that no
restored branch has forgotten. -/
structure Tracked where
  system : WakeSystem
  hashes : String → Option String
  created : List CreatedWake

/-- The events of the second table that the first one does not have. -/
def newEvents (m m' : BackgroundTaskManager) : List BackgroundWakeEventV1 :=
  m'.wakeEvents.values.filter fun event => !m.wakeEvents.has event.id

/-- Wake events with the hashes of their logs. -/
def withHashes (hashes : String → Option String) (events : List BackgroundWakeEventV1) :
    List CreatedWake := events.map fun event => ⟨event, hashes event.taskId⟩

/-- The event restores a branch. -/
def Restoring : Event → Bool
  | .rebuild .. | .construct .. => true
  | _ => false

variable (host : Host)

/-- One step, with the events it creates.  A restored branch drops the events whose keys
it does not know. -/
def trackedStep (s : Tracked) (e : Event) : Option Tracked :=
  (step host s.system e).map fun t =>
    let hashes := hashesAfter s.hashes s.system.manager t.manager e
    { system := t
      hashes := hashes
      created :=
        if Restoring e then s.created.filter fun wake => knowsKey t.manager wake.event.dedupeKey
        else s.created ++ withHashes hashes (newEvents s.system.manager t.manager) }

/-- A system that has just started on a branch. -/
def startTracked (sessionId : String) (entries : List SessionEntry) : Tracked :=
  let system := startSystem host sessionId entries
  ⟨system, fun id => (system.manager.tasks.get? id).bind (·.logHash), []⟩

/-- The ids drawn for wake events are new: what `randomUUID` is for. -/
def DrawsNewIds (m : BackgroundTaskManager) : Event → Prop
  | .observe _ patternId statusId _ _ _ _ _ =>
    m.wakeEvents.get? patternId = none ∧ m.wakeEvents.get? statusId = none ∧ statusId ≠ patternId
  | .reviewed _ newId _ => m.wakeEvents.get? newId = none
  | _ => True

instance (m : BackgroundTaskManager) : (e : Event) → Decidable (DrawsNewIds m e)
  | .observe .. => inferInstanceAs (Decidable (_ ∧ _ ∧ _))
  | .reviewed _ newId _ => inferInstanceAs (Decidable (m.wakeEvents.get? newId = none))
  | .bindWakeHost | .storeTask .. | .wait .. | .consume .. | .settle .. | .conclude ..
  | .rebuild .. | .construct .. => isTrue trivial

/-- The task, the reason, the status of the monitor and the hash of the log. -/
def CreatedWake.outcome (wake : CreatedWake) :
    String × BackgroundWakeReason × MonitorStatus × String :=
  (wake.event.taskId, wake.event.reason, wake.event.monitorStatus, wake.logHash.getD "")

/-- No two of the wake events have the same outcome, and their keys are made of it. -/
structure OncePerKey (created : List CreatedWake) : Prop where
  once : (created.map CreatedWake.outcome).Nodup
  keys : ∀ wake ∈ created, NamesItsKey wake.event wake.logHash

/-- The invariant: the manager knows the keys of the events it has created. -/
structure TrackedInvariant (s : Tracked) : Prop where
  once : (s.created.map fun wake => wake.event.dedupeKey).Nodup
  keys : ∀ wake ∈ s.created, NamesItsKey wake.event wake.logHash
  known : ∀ wake ∈ s.created, Knows s.system.manager wake.event.dedupeKey
  ids : ∀ id event, s.system.manager.wakeEvents.get? id = some event → event.id = id
  hashed : Hashed s.hashes s.system.manager.tasks
  reviewing : ∀ review, s.system.reviewing = some review →
    review.logHash = (s.hashes review.taskId).getD ""

/-- Different keys are made of different outcomes. -/
theorem TrackedInvariant.oncePerKey {s : Tracked} (h : TrackedInvariant s) :
    OncePerKey s.created where
  once := by
    refine List.Nodup.of_map (fun outcome => outcome.1 ++ ":" ++ outcome.2.1.name ++ ":" ++
      outcome.2.2.1.name ++ ":" ++ outcome.2.2.2) ?_
    have hkeys : (s.created.map CreatedWake.outcome).map (fun outcome => outcome.1 ++ ":" ++
        outcome.2.1.name ++ ":" ++ outcome.2.2.1.name ++ ":" ++ outcome.2.2.2) =
        s.created.map fun wake => wake.event.dedupeKey := by
      rw [map_map]
      exact map_congr_left fun wake hwake => (h.keys wake hwake).symm
    rw [hkeys]
    exact h.once
  keys := h.keys

variable {host} {s t : Tracked} {e : Event}

/-- A new event of the table. -/
theorem mem_newEvents {m' : BackgroundTaskManager} {event : BackgroundWakeEventV1}
    (hids : ∀ id event, m'.wakeEvents.get? id = some event → event.id = id)
    (h : event ∈ newEvents m m') :
    m.wakeEvents.get? event.id = none ∧ m'.wakeEvents.get? event.id = some event := by
  rw [newEvents, mem_filter] at h
  obtain ⟨id, hid⟩ := OrderedMap.mem_values_iff.1 h.1
  have hkey := hids id event hid
  refine ⟨by simpa [OrderedMap.has] using h.2, ?_⟩
  rw [hkey]
  exact hid

/-- The table lists an event once. -/
theorem values_nodup (hids : ∀ id event, m.wakeEvents.get? id = some event → event.id = id) :
    m.wakeEvents.values.Nodup := by
  refine List.Nodup.map_on ?_ (List.Nodup.of_map _ m.wakeEvents.nodup)
  rintro ⟨id, event⟩ hmem ⟨id', event'⟩ hmem' hsame
  obtain rfl : event = event' := hsame
  have hid := hids id event (OrderedMap.get?_eq_some.2 hmem)
  have hid' := hids id' event (OrderedMap.get?_eq_some.2 hmem')
  rw [← hid, ← hid']

/-- **What a step that restores no branch creates** has new keys. -/
theorem TrackedInvariant.creates (h : TrackedInvariant s) {ids : List String} {system : WakeSystem}
    {hashes : String → Option String}
    (hcreates : Creates hashes ids s.system.manager system.manager)
    (hhashed : Hashed hashes system.manager.tasks)
    (hreviewing : ∀ review, system.reviewing = some review →
      review.logHash = (hashes review.taskId).getD "") :
    TrackedInvariant ⟨system, hashes,
      s.created ++ withHashes hashes (newEvents s.system.manager system.manager)⟩ := by
  have hids : ∀ id event, system.manager.wakeEvents.get? id = some event → event.id = id := by
    intro id event hevent
    rcases hcreates.between hevent with hnew | ⟨old, hold, hsame⟩
    · exact (hcreates.created id event hnew hevent).2.1
    · exact hsame.id.trans (h.ids id old hold)
  have hnew : ∀ wake ∈ withHashes hashes (newEvents s.system.manager system.manager),
      wake.logHash = hashes wake.event.taskId ∧
        s.system.manager.wakeEvents.get? wake.event.id = none ∧
          system.manager.wakeEvents.get? wake.event.id = some wake.event := by
    intro wake hwake
    obtain ⟨event, hmem, rfl⟩ := mem_map.1 hwake
    exact ⟨rfl, mem_newEvents hids hmem⟩
  refine ⟨?_, ?_, ?_, hids, hhashed, hreviewing⟩
  · rw [map_append, nodup_append]
    refine ⟨h.once, ?_, ?_⟩
    · rw [withHashes, map_map]
      refine List.Nodup.map_on ?_ ((values_nodup hids).filter _)
      intro event hmem event' hmem' hkey
      obtain ⟨hnone, hsome⟩ := mem_newEvents hids hmem
      obtain ⟨hnone', hsome'⟩ := mem_newEvents hids hmem'
      have hsame := hcreates.distinct _ _ event event' hnone hnone' hsome hsome' hkey
      rw [hsame, hsome'] at hsome
      exact (Option.some.inj hsome).symm
    · -- the keys of earlier events are known
      intro key hkey key' hkey' heq
      obtain ⟨wake, hmem, rfl⟩ := mem_map.1 hkey
      obtain ⟨wake', hmem', rfl⟩ := mem_map.1 hkey'
      obtain ⟨-, hnone, hsome⟩ := hnew wake' hmem'
      refine (hcreates.created _ wake'.event hnone hsome).2.2.2.2 ?_
      rw [← heq]
      exact h.known wake hmem
  · intro wake hmem
    rcases mem_append.1 hmem with hold | hlast
    · exact h.keys wake hold
    · obtain ⟨hhash, hnone, hsome⟩ := hnew wake hlast
      rw [hhash]
      exact (hcreates.created _ wake.event hnone hsome).2.2.2.1
  · intro wake hmem
    rcases mem_append.1 hmem with hold | hlast
    · exact hcreates.knows (h.known wake hold)
    · obtain ⟨-, hnone, hsome⟩ := hnew wake hlast
      exact hcreates.knows_created hnone hsome

/-- A restored branch keeps the events whose keys it knows. -/
theorem TrackedInvariant.restores (h : TrackedInvariant s) {system : WakeSystem}
    {hashes : String → Option String}
    (hids : ∀ id event, system.manager.wakeEvents.get? id = some event → event.id = id)
    (hhashed : Hashed hashes system.manager.tasks)
    (hreviewing : ∀ review, system.reviewing = some review →
      review.logHash = (hashes review.taskId).getD "") :
    TrackedInvariant ⟨system, hashes,
      s.created.filter fun wake => knowsKey system.manager wake.event.dedupeKey⟩ where
  once := h.once.sublist (filter_sublist.map _)
  keys := fun wake hmem => h.keys wake (mem_filter.1 hmem).1
  known := fun _ hmem => knowsKey_iff.1 (mem_filter.1 hmem).2
  ids := hids
  hashed := hhashed
  reviewing := hreviewing

@[simp] theorem enqueueWake_tasks (now : ℚ) (newId : String) (task : BackgroundTaskV1)
    (reason : BackgroundWakeReason) (status : MonitorStatus) (log : Option BackgroundWakeLogV1)
    (review : Option ProgressReviewV1) (m : BackgroundTaskManager) :
    (enqueueWake host now newId task reason status log review m).tasks = m.tasks := by
  unfold enqueueWake
  dsimp only
  split_ifs <;> rfl

theorem startReview_task {now : ℚ} {logHash : String} {task reviewed : BackgroundTaskV1}
    (h : startReview now logHash task = some reviewed) :
    reviewed.id = task.id ∧ reviewed.logHash = task.logHash := by
  unfold startReview at h
  split_ifs at h
  cases h
  exact ⟨rfl, rfl⟩

/-- An observation keeps the hashes, and a review is about the log that was read. -/
theorem Hashed.observeTask {hashes : String → Option String} (h : Hashed hashes m.tasks)
    (now : ℚ) (patternId statusId : String) (hasReviewer : Bool) (monitorId : String)
    (preferred : Option BackgroundWakeReason) (monitor : Option MonitorView) (read : MonitorLog)
    (m' : BackgroundTaskManager) :
    let hashes' := hashesAfter hashes m m' (.observe now patternId statusId hasReviewer monitorId
      preferred monitor read)
    let observed := Background.observeTask host now patternId statusId hasReviewer monitorId
      preferred monitor read m
    Hashed hashes' observed.1.tasks ∧ ∀ review, observed.2 = some review →
      review.logHash = (hashes' review.taskId).getD "" := by
  intro hashes' observed
  unfold observed Background.observeTask
  split
  · next hnone =>
    refine ⟨?_, by simp⟩
    cases monitor <;> simpa [hashes', hashesAfter, hnone] using h
  next before hbefore =>
  obtain ⟨id, hget⟩ := OrderedMap.mem_values_iff.1 (mem_of_find?_eq_some hbefore)
  obtain ⟨hid, hhash⟩ := h id before hget
  split
  · dsimp only
    split_ifs
    · exact ⟨h, by simp⟩
    · exact ⟨h.set (by simp [hid, hhash]), by simp⟩
  next monitor =>
  obtain ⟨hid', -, hlog⟩ := readLog_spec now monitor read before
  have hhashes : hashes' = Function.update hashes before.id _ := h.hashesAfter_observe hbefore
  rw [hhashes]
  generalize readLog now monitor read before = result at hid' hlog ⊢
  obtain ⟨task, logDelta, log⟩ := result
  have hset : Hashed (Function.update hashes before.id task.logHash)
      (m.tasks.set task.id task) := by
    rw [← hid']
    exact h.update task
  have hself : Function.update hashes before.id task.logHash task.id = task.logHash := by
    rw [hid', Function.update_self]
  have hmatched : ∀ b : Bool, (if b then Background.enqueueWake host now patternId task
      .errorPattern monitor.status log none { m with tasks := m.tasks.set task.id task }
      else { m with tasks := m.tasks.set task.id task }).tasks = m.tasks.set task.id task := by
    rintro (_ | _) <;> simp
  have hwoken : ∀ (reason : Option BackgroundWakeReason) (matched : BackgroundTaskManager),
      matched.tasks = m.tasks.set task.id task →
      (enqueueReason host now statusId task monitor.status log reason matched).tasks =
        m.tasks.set task.id task := by
    rintro (_ | reason) matched hmatched
    · exact hmatched
    · dsimp only [enqueueReason]
      split_ifs <;> simp [hmatched]
  have htasks := hwoken (preferred.or (reasonForStatus monitor.status monitor.exitReason)) _
    (hmatched (errorPatternMatches host task logDelta))
  dsimp only
  split
  · next reviewed hdue =>
    split_ifs at hdue
    obtain ⟨hreviewed, hreviewedHash⟩ := startReview_task hdue
    have hstored : Hashed (Function.update hashes before.id task.logHash)
        ((m.tasks.set task.id task).set reviewed.id reviewed) :=
      hset.set (by rw [hreviewed, hreviewedHash, hself])
    rw [← htasks] at hstored
    cases hasReviewer with
    | true =>
      refine ⟨hstored, ?_⟩
      rintro review hreview
      cases hreview
      dsimp only
      rw [hself, hlog]
    | false => exact ⟨hstored.set (by simp [hreviewed, hreviewedHash, hself]), by simp⟩
  · refine ⟨?_, by simp⟩
    rw [← htasks] at hset
    dsimp only
    by_cases hsame : task = before
    · rw [if_pos hsame]; exact hset
    · rw [if_neg hsame]; exact hset

/-- A review keeps the hashes. -/
theorem Hashed.finishProgressReview {hashes : String → Option String} (h : Hashed hashes m.tasks)
    (now : ℚ) (newId : String) (review : ProgressReviewInFlight)
    (answer : Except String ProgressReviewV1) :
    Hashed hashes (Background.finishProgressReview host now newId review answer m).tasks := by
  unfold Background.finishProgressReview
  split
  · exact h
  next task htask =>
  obtain ⟨hid, hhash⟩ := h _ task htask
  rw [← hid] at hhash
  split
  · exact h.set (by simpa using hhash)
  · next result =>
    have hset := @Hashed.set _ _ { task with lastReviewSummary := some result.summary } h hhash
    dsimp only
    split_ifs
    · simpa only [persist, enqueueWake_tasks] using hset
    · exact hset

/-- What a step does to the hashes, to the review in flight and to the known keys. -/
structure Steps (hashes : String → Option String) (s t : WakeSystem) (e : Event) : Prop where
  hashed : Hashed (hashesAfter hashes s.manager t.manager e) t.manager.tasks
  reviewing : ∀ review, t.reviewing = some review →
    review.logHash = (hashesAfter hashes s.manager t.manager e review.taskId).getD ""
  creates : Restoring e = false →
    ∃ ids, Creates (hashesAfter hashes s.manager t.manager e) ids s.manager t.manager
  restores : Restoring e = true →
    ∀ id event, t.manager.wakeEvents.get? id = some event → event.id = id

/-- The tasks that a branch restores stand under their ids. -/
theorem restore_tasks (entries : List SessionEntry) (m : BackgroundTaskManager) :
    ∀ id task, (restore host entries m).tasks.get? id = some task → task.id = id :=
  OrderedMap.key_of_get?_foldl BackgroundTaskV1.id _ (by simp)

theorem consumeWakeQueue_tasks (now : ℚ) (hasPendingUserMessages : Bool)
    (m : BackgroundTaskManager) :
    (consumeWakeQueue host now hasPendingUserMessages m).1.tasks = m.tasks := by
  unfold consumeWakeQueue
  split <;> rfl

theorem concludeDelivery_tasks (now : ℚ) (delivery : Delivery) (m : BackgroundTaskManager) :
    (concludeDelivery host now delivery m).tasks = m.tasks := by
  unfold concludeDelivery finishWakeDelivery failWakeDelivery
  split
  · rfl
  · split_ifs <;> rfl
  · split_ifs <;> rfl

/-- Every step keeps the hashes of the logs, and creates events under their keys. -/
theorem step_steps {hashes : String → Option String} {s t : WakeSystem}
    (hhashed : Hashed hashes s.manager.tasks)
    (hreviewing : ∀ review, s.reviewing = some review →
      review.logHash = (hashes review.taskId).getD "")
    (hids : DrawsNewIds s.manager e) (hstep : step host s e = some t) :
    Steps hashes s t e := by
  have hnever : ∀ {p : Prop}, false = true → p := fun h => absurd h Bool.false_ne_true
  cases e with
  | bindWakeHost =>
    cases hstep
    exact ⟨hhashed, hreviewing, fun _ => ⟨[], .of_same rfl rfl⟩, hnever⟩
  | storeTask now task =>
    simp only [step] at hstep
    split_ifs at hstep with hbusy
    cases hstep
    refine ⟨hhashed.update task, ?_, fun _ => ⟨[], .storeTask ..⟩, hnever⟩
    intro review hreview
    exact absurd hreview (by simp_all)
  | wait now taskId triggers =>
    simp only [step] at hstep
    split_ifs at hstep
    split at hstep
    · cases hstep
      exact ⟨hhashed, hreviewing, fun _ => ⟨[], .refl _⟩, hnever⟩
    · next hwait =>
      cases hstep
      refine ⟨?_, hreviewing, fun _ => ⟨[], .wait hwait⟩, hnever⟩
      obtain ⟨old, task, rfl, hold, hid, hhash⟩ := wait_stores hwait
      obtain ⟨hkey, hsame⟩ := hhashed _ old hold
      exact hhashed.set (by rw [hid, hhash, hkey, hsame])
  | observe now patternId statusId hasReviewer monitorId preferred monitor read =>
    simp only [step] at hstep
    split_ifs at hstep
    cases hstep
    obtain ⟨hpattern, hstatus, hne⟩ := hids
    obtain ⟨htasks, hreview⟩ := hhashed.observeTask now patternId statusId
      hasReviewer monitorId preferred monitor read _
    exact ⟨htasks, hreview, fun _ => ⟨_, .observeTask now hasReviewer monitorId preferred monitor
      read hpattern hstatus hne hhashed.observes⟩, hnever⟩
  | reviewed now newId answer =>
    simp only [step] at hstep
    split at hstep
    · cases hstep
    · next review hreview =>
      cases hstep
      refine ⟨hhashed.finishProgressReview now newId review answer, fun _ h => (by cases h),
        fun _ => ⟨_, .finishProgressReview now review answer hids ?_⟩, hnever⟩
      intro task htask
      rw [(hhashed _ task htask).1]
      exact hreviewing review hreview
  | consume now hasPendingUserMessages =>
    cases hstep
    refine ⟨?_, hreviewing, fun _ => ⟨[], .consumeWakeQueue ..⟩, hnever⟩
    rw [consumeWakeQueue_tasks]
    exact hhashed
  | settle index outcome =>
    simp only [step] at hstep
    split at hstep
    · cases hstep
    · split_ifs at hstep
      cases hstep
      exact ⟨hhashed, hreviewing, fun _ => ⟨[], .refl _⟩, hnever⟩
  | conclude now index =>
    simp only [step] at hstep
    split at hstep
    · cases hstep
    · split_ifs at hstep
      · cases hstep
        refine ⟨?_, hreviewing, fun _ => ⟨[], .concludeDelivery ..⟩, hnever⟩
        rw [concludeDelivery_tasks]
        exact hhashed
      · cases hstep
        exact ⟨hhashed, hreviewing, fun _ => ⟨[], .refl _⟩, hnever⟩
  | rebuild now entries =>
    simp only [step] at hstep
    split_ifs at hstep with hbusy
    cases hstep
    refine ⟨hashed_restored (restore_tasks entries s.manager), ?_, fun h => ?_, fun _ =>
      (rebuild_restores now entries s.manager).keys⟩
    · intro review hreview
      exact absurd hreview (by simp_all)
    · cases h
  | construct sessionId entries crashed =>
    cases hstep
    refine ⟨hashed_restored (restore_tasks entries _), fun _ h => ?_, fun h => ?_,
      fun _ id event hevent => restoredEvents_key hevent⟩ <;> cases h

/-- Every step that draws new ids keeps the invariant. -/
theorem TrackedInvariant.step (h : TrackedInvariant s) (hids : DrawsNewIds s.system.manager e)
    (hstep : trackedStep host s e = some t) : TrackedInvariant t := by
  obtain ⟨system, hsystem, rfl⟩ := Option.map_eq_some_iff.1 hstep
  have hsteps := step_steps h.hashed h.reviewing hids hsystem
  cases hrestoring : Restoring e with
  | true =>
    simp only [if_true]
    exact h.restores (hsteps.restores hrestoring) hsteps.hashed hsteps.reviewing
  | false =>
    simp only [Bool.false_eq_true, if_false]
    obtain ⟨ids, hcreates⟩ := hsteps.creates hrestoring
    exact h.creates hcreates hsteps.hashed hsteps.reviewing

/-- **At most one wake event for a key.**  In every run, of the wake events that were
created and that no restored branch has forgotten, no two agree in the task, the reason, the
status of the monitor and the hash that the task's log had when they were created. -/
theorem one_wake_per_key (host : Host) (sessionId : String) (entries : List SessionEntry)
    (es : List Event)
    (hids : Along (trackedStep host) (fun s e _ => DrawsNewIds s.system.manager e)
      (startTracked host sessionId entries) es) :
    Along (trackedStep host) (fun _ _ t => OncePerKey t.created)
      (startTracked host sessionId entries) es := by
  refine along_of_invariant (I := TrackedInvariant) ?_ es _ ?_ hids
  · intro s e t hs hstep hnew
    have ht := hs.step hnew hstep
    exact ⟨ht.oncePerKey, ht⟩
  · exact {
      once := by simp [startTracked]
      keys := by simp [startTracked]
      known := by simp [startTracked]
      ids := fun id event hevent => restoredEvents_key hevent
      hashed := hashed_restored (restore_tasks entries _)
      reviewing := nofun }

/-! ## A log that grows after the end -/

/-- The wake events of a task for a terminal status of its monitor. -/
def terminalWakes (taskId : String) (status : MonitorStatus) (created : List CreatedWake) :
    List BackgroundWakeEventV1 :=
  (created.map CreatedWake.event).filter fun event => event.taskId = taskId &&
    event.monitorStatus = status &&
      [BackgroundWakeReason.completed, .failed, .timeout].contains event.reason

/-- A monitor whose process has ended. -/
def endedMonitor : MonitorView := ⟨.completed, some "exit_0", some "build.log", none, false⟩

/-- A log with some content. -/
def logWith (hash : String) : MonitorLog :=
  { content := "done", cursor := 4, hash := hash, prefixHash := hash, changed := true
    truncated := false, rotated := false, missing := false, path := "build.log"
    diagnostic := none }

/-- A task ends and wakes the coordinator; then another line arrives in its log. -/
def lateOutput : List Event :=
  [.bindWakeHost, .storeTask 10 plainTask, .wait 20 "task-1" none,
    .observe 30 "event-0" "event-1" false "monitor-1" (some .completed) (some endedMonitor)
      (logWith "first"),
    .consume 30 false, .settle 0 (.ok ()), .conclude 40 0,
    .observe 50 "event-2" "event-3" false "monitor-1" none (some endedMonitor) (logWith "second")]

/-- **One terminal status wakes the coordinator twice** if the log grows after the end: the
hash of the log is part of the key. -/
theorem late_output_wakes_again :
    Along (trackedStep plainHost) (fun s e _ => DrawsNewIds s.system.manager e)
      (startTracked plainHost "session-1" []) lateOutput ∧
    ¬Along (trackedStep plainHost)
      (fun _ _ t => (terminalWakes "task-1" .completed t.created).length ≤ 1)
      (startTracked plainHost "session-1" []) lateOutput := by
  exact ⟨by decide, by decide⟩

/-- Polled again, the same task does not wake the coordinator a third time. -/
def polledAgain : List Event :=
  lateOutput ++ [.observe 60 "event-4" "event-5" false "monitor-1" none (some endedMonitor)
    (logWith "second")]

/-- The general result at a run with two observations of the same log. -/
theorem one_wake_per_key_polledAgain :
    (runFrom (trackedStep plainHost) (startTracked plainHost "session-1" []) polledAgain).map
      (fun s => s.created.length) = some 2 ∧
    Along (trackedStep plainHost) (fun _ _ t => OncePerKey t.created)
      (startTracked plainHost "session-1" []) polledAgain := by
  refine ⟨by decide, ?_⟩
  exact one_wake_per_key plainHost "session-1" [] polledAgain (by decide)

end BeauPi.Background
