import BeauPi.Tasks.Validated
import BeauPi.Tasks.Persistence

/-!
# Dynamic Tasks: completed tasks stay completed

A completed task is to be reopened by the main agent only.  `noteToolStarted`,
`recordFact` and `applyReviewerPatch` see to that; `noteToolFinished` does not: a
tool call is bound to its task when it starts, and when it ends it gives that task
a new status and a new completion time, also if the task has been completed in the
meantime.

* `LateFinish` — the end of a tool call whose task has been completed.
* `completed_kept_unless_lateFinish` — **without late ends completed tasks stay as
  they are, along every run**; and a late end that is accepted always breaks it.
-/

namespace BeauPi.Tasks

open Machine Session List
open Option (some.inj)

/-! ## The property -/

/-- The tasks of a snapshot, each with its status and its completion time. -/
def taskStates (snapshot : Option DynamicTaskPlanV1) :
    List (String × DynamicTaskStatus × Option ℚ) :=
  ((snapshot.map (·.tasks)).getD []).map fun task => (task.id, task.status, task.completedAt)

/-- Every completed task is still completed, with the same completion time. -/
def KeepsCompleted (before after : Option DynamicTaskPlanV1) : Prop :=
  ∀ state ∈ taskStates before, state.2.1 = .completed → state ∈ taskStates after

/-- Every task that is completed before and after has the same completion time. -/
def KeepsTimes (before after : Option DynamicTaskPlanV1) : Prop :=
  ∀ state ∈ taskStates before, state.2.1 = .completed →
    ∀ state' ∈ taskStates after, state'.1 = state.1 → state'.2.1 = .completed →
      state'.2.2 = state.2.2

instance (before after : Option DynamicTaskPlanV1) : Decidable (KeepsCompleted before after) :=
  inferInstanceAs (Decidable (∀ _ ∈ _, _ → _))

instance (before after : Option DynamicTaskPlanV1) : Decidable (KeepsTimes before after) :=
  inferInstanceAs (Decidable (∀ _ ∈ _, _ → ∀ _ ∈ _, _ → _ → _))

/-- What is asked of a step: an automatic operation keeps completed tasks, and an
update keeps their times. -/
def CompletedKept (s : TaskSession) (e : Event) (t : TaskSession) : Prop :=
  match e with
  | .call _ (.updatePlan _ _) => KeepsTimes s.runtime.snapshot t.runtime.snapshot
  | .call _ _ | .applyPatch _ _ => KeepsCompleted s.runtime.snapshot t.runtime.snapshot
  | _ => True

instance (s : TaskSession) (e : Event) (t : TaskSession) : Decidable (CompletedKept s e t) :=
  match e with
  | .call _ (.updatePlan _ _) => inferInstanceAs (Decidable (KeepsTimes _ _))
  | .call _ (.applyReviewerPatch _) | .call _ (.recordFact _) | .call _ (.noteToolStarted _)
  | .call _ (.noteToolFinished _) | .call _ (.noteWorkflow _) | .call _ (.noteBackground _)
  | .call _ (.noteMonitor _) | .applyPatch _ _ => inferInstanceAs (Decidable (KeepsCompleted _ _))
  | .beginReview _ _ _ | .answer _ _ _ | .endReview _ _ | .abortSignal _ | .abortReview
  | .rebuild _ | .append _ | .dispose => isTrue trivial

/-- The end of a tool call whose task has been completed since, unless it repeats the
completion: the call is no failed verification and ends at the completion time. -/
def LateFinish (s : DynamicTaskRuntime) (now : ℚ) (input : DynamicTaskToolFinishFact) : Prop :=
  ∃ task ∈ s.snapshot.bind fun plan => boundTask plan (s.activeTools.get? input.toolCallId),
    task.status = .completed ∧
    ((input.verification = true ∧ input.status ≠ .success) ∨
      task.completedAt ≠ some (input.createdAt.getD now))

instance (s : DynamicTaskRuntime) (now : ℚ) (input : DynamicTaskToolFinishFact) :
    Decidable (LateFinish s now input) :=
  inferInstanceAs (Decidable (∃ _ ∈ _, _ ∧ (_ ∨ _)))

/-- The event is not the late end of a tool call. -/
def NotLate (s : TaskSession) (e : Event) : Prop :=
  match e with
  | .call now (.noteToolFinished input) => ¬ LateFinish s.runtime now input
  | _ => True

instance (s : TaskSession) (e : Event) : Decidable (NotLate s e) :=
  match e with
  | .call _ (.noteToolFinished _) => inferInstanceAs (Decidable (¬ _))
  | .call _ (.updatePlan _ _) | .call _ (.applyReviewerPatch _) | .call _ (.recordFact _)
  | .call _ (.noteToolStarted _) | .call _ (.noteWorkflow _) | .call _ (.noteBackground _)
  | .call _ (.noteMonitor _) | .applyPatch _ _ | .beginReview _ _ _ | .answer _ _ _
  | .endReview _ _ | .abortSignal _ | .abortReview | .rebuild _ | .append _ | .dispose =>
    isTrue trivial

variable {host : Host}

/-! ## Changing tasks one by one -/

/-- A change of a task that leaves a completed task completed. -/
def KeepsTask (task task' : DynamicTaskItemV1) : Prop :=
  task'.id = task.id ∧
    (task.status = .completed → task'.status = .completed ∧ task'.completedAt = task.completedAt)

/-- A kept completed task is found among the changed tasks. -/
theorem exists_kept {tasks tasks' : List DynamicTaskItemV1}
    (h : List.Forall₂ KeepsTask tasks tasks') {task : DynamicTaskItemV1} (htask : task ∈ tasks)
    (hstatus : task.status = .completed) :
    ∃ task' ∈ tasks', task'.id = task.id ∧ task'.status = .completed ∧
      task'.completedAt = task.completedAt := by
  induction h with
  | nil => cases htask
  | @cons a b as bs hab _ ih =>
    rcases List.mem_cons.1 htask with rfl | hmem
    · exact ⟨b, by simp, hab.1, hab.2 hstatus⟩
    · obtain ⟨task', hmem', hrest⟩ := ih hmem
      exact ⟨task', mem_cons_of_mem _ hmem', hrest⟩

theorem mem_taskStates {plan : DynamicTaskPlanV1}
    {state : String × DynamicTaskStatus × Option ℚ} :
    state ∈ taskStates (some plan) ↔
      ∃ task ∈ plan.tasks, (task.id, task.status, task.completedAt) = state := by
  simp [taskStates]

/-- If each task is kept, the plan is. -/
theorem keepsCompleted_of_forall₂ {plan next : DynamicTaskPlanV1}
    (h : List.Forall₂ KeepsTask plan.tasks next.tasks) :
    KeepsCompleted (some plan) (some next) := by
  intro state hstate hcompleted
  obtain ⟨task, htask, rfl⟩ := mem_taskStates.1 hstate
  obtain ⟨task', hmem, hid, hstatus, htime⟩ := exists_kept h htask hcompleted
  refine mem_taskStates.2 ⟨task', hmem, ?_⟩
  rw [hid, hstatus, htime]
  exact congrArg (fun status => (task.id, status, task.completedAt)) hcompleted.symm

theorem forall₂_map {R : DynamicTaskItemV1 → DynamicTaskItemV1 → Prop}
    {f : DynamicTaskItemV1 → DynamicTaskItemV1} {tasks : List DynamicTaskItemV1}
    (h : ∀ task ∈ tasks, R task (f task)) : List.Forall₂ R tasks (tasks.map f) := by
  rw [forall₂_map_right_iff]
  exact List.forall₂_same.2 h

theorem KeepsCompleted.refl (snapshot : Option DynamicTaskPlanV1) :
    KeepsCompleted snapshot snapshot := fun _ h _ => h

/-- A change of the selected task keeps all tasks if it keeps the selected one. -/
theorem mapSelected_keeps {selected : Option DynamicTaskItemV1}
    {f : DynamicTaskItemV1 → DynamicTaskItemV1} {tasks : List DynamicTaskItemV1}
    (h : ∀ task ∈ tasks, some task.id = selected.map (·.id) → KeepsTask task (f task)) :
    List.Forall₂ KeepsTask tasks (mapSelected selected f tasks) := by
  refine forall₂_map fun task htask => ?_
  by_cases hsel : some task.id = selected.map (·.id)
  · rw [if_pos hsel]
    exact h task htask hsel
  · rw [if_neg hsel]
    exact ⟨rfl, fun hstatus => ⟨hstatus, rfl⟩⟩

/-- `withFacts` keeps what the given tasks keep: it only drops evidence. -/
theorem withFacts_keeps {snapshot next : DynamicTaskPlanV1} {tasks : List DynamicTaskItemV1}
    {facts : List DynamicTaskFactV1} {timestamp : ℚ}
    (hnext : withFacts host snapshot tasks facts timestamp = .ok next)
    (h : List.Forall₂ KeepsTask snapshot.tasks tasks) :
    KeepsCompleted (some snapshot) (some next) := by
  unfold withFacts at hnext
  obtain ⟨_, -, hnext⟩ := bind_eq_ok.1 hnext
  cases hnext
  refine keepsCompleted_of_forall₂ ?_
  rw [forall₂_map_right_iff]
  exact h

/-! ## The automatic operations -/

theorem noteToolStarted_keeps {s : DynamicTaskRuntime} (now : ℚ)
    (input : DynamicTaskToolStartFact) :
    KeepsCompleted s.snapshot (noteToolStarted host now input s).2.snapshot := by
  rcases noteToolStarted_cases host s now input with
    h | ⟨plan, next, fact, hplan, -, -, hnext, hstores⟩
  · rw [h.2.snapshot]
    exact .refl _
  · rw [hplan, hstores.snapshot]
    refine withFacts_keeps hnext (mapSelected_keeps fun task _ _ => ⟨rfl, fun hstatus => ?_⟩)
    simp [startTask, hstatus]

/-- A recorded fact leaves a completed task completed, with its time. -/
theorem recordOnTask_keeps {input : DynamicTaskFactInputV1} {timestamp : ℚ}
    {task : DynamicTaskItemV1} (h : task.status = .completed → task.completedAt ≠ none) :
    KeepsTask task (recordOnTask input timestamp task) := by
  refine ⟨rfl, fun hstatus => ?_⟩
  have hrecorded : recordedStatus input task = (task.status, task.blockedBy) := by
    rw [recordedStatus, if_pos hstatus]
  obtain ⟨time, htime⟩ := Option.ne_none_iff_exists'.1 (h hstatus)
  simp [recordOnTask, hrecorded, hstatus, htime]

theorem recordFact_keeps {s : DynamicTaskRuntime} (now : ℚ) (input : DynamicTaskFactInputV1)
    (hwf : ∀ plan, s.snapshot = some plan → WellFormed plan) :
    KeepsCompleted s.snapshot (recordFact host now input s).2.snapshot := by
  rcases recordFact_cases host s now input with
    h | ⟨plan, next, hplan, -, rfl, -, hstores⟩
  · rw [h.2.snapshot]
    exact .refl _
  rw [hplan, hstores.snapshot]
  refine keepsCompleted_of_forall₂ ?_
  show List.Forall₂ KeepsTask plan.tasks (mapSelected _ _ _)
  have hitems := (hwf plan hplan).completedAt
  unfold mapSelected
  rw [map_map]
  refine forall₂_map fun task htask => ?_
  simp only [Function.comp]
  split
  · exact recordOnTask_keeps (hitems task htask)
  · exact ⟨rfl, fun hstatus => ⟨hstatus, rfl⟩⟩

/-- The reviewer cannot move a completed task. -/
theorem reviewerTransitionAllowed_completed {status : DynamicTaskStatus}
    (h : reviewerTransitionAllowed .completed status = true) : status = .completed := by
  cases status <;> simp [reviewerTransitionAllowed] at h ⊢

theorem checkPatchUpdate_transition {snapshot : DynamicTaskPlanV1} {ids : List String}
    {update : TaskPatchUpdateV1} {task : DynamicTaskItemV1} {u : Unit}
    (h : checkPatchUpdate snapshot ids update = .ok u)
    (hfind : snapshot.tasks.find? (fun candidate => candidate.id == update.id) = some task) :
    reviewerTransitionAllowed task.status (update.status.getD task.status) = true := by
  unfold checkPatchUpdate at h
  rw [hfind] at h
  simp only at h
  by_contra hnot
  rw [Bool.not_eq_true] at hnot
  rw [hnot] at h
  cases h

/-- In a well-formed plan a task is found by its id. -/
theorem find?_task {plan : DynamicTaskPlanV1} (hwf : WellFormed plan) {task : DynamicTaskItemV1}
    (htask : task ∈ plan.tasks) {id : String} (hid : task.id = id) :
    plan.tasks.find? (fun candidate => candidate.id == id) = some task := by
  subst hid
  have hnodup := hwf.taskIds
  generalize plan.tasks = tasks at htask hnodup
  induction tasks with
  | nil => cases htask
  | cons first rest ih =>
    rw [map_cons, nodup_cons] at hnodup
    rcases List.mem_cons.1 htask with rfl | hmem
    · simp
    · have hne : first.id ≠ task.id := by
        intro heq
        exact hnodup.1 (List.mem_map.2 ⟨task, hmem, heq.symm⟩)
      rw [find?_cons_of_neg (by simpa using hne)]
      exact ih hmem hnodup.2

/-- A patch whose updates were checked keeps every completed task. -/
theorem patchTask_keeps {snapshot : DynamicTaskPlanV1} {patch : TaskPatchV1} {ids : List String}
    {now : ℚ} {task task' : DynamicTaskItemV1} {u : Unit} (hwf : WellFormed snapshot)
    (hcheck : patch.updates.forM (checkPatchUpdate snapshot ids) = .ok u)
    (htask : task ∈ snapshot.tasks) (h : patchTask patch now task = .ok task') :
    KeepsTask task task' := by
  unfold patchTask at h
  split at h
  · cases h
    exact ⟨rfl, fun hstatus => ⟨hstatus, rfl⟩⟩
  next update hupdate =>
  simp only at h
  split at h
  · cases h
  cases h
  refine ⟨rfl, fun hstatus => ?_⟩
  have hmem := mem_of_find?_eq_some hupdate
  have hid : update.id = task.id := by simpa using find?_some hupdate
  have hallowed := checkPatchUpdate_transition (forM_eq_ok hcheck update hmem)
    (find?_task hwf htask hid.symm)
  rw [hstatus] at hallowed
  have hnext := reviewerTransitionAllowed_completed hallowed
  simp [hstatus, hnext]

theorem applyReviewerPatch_keeps {s : DynamicTaskRuntime} (now : ℚ) (value : Json)
    (hwf : ∀ plan, s.snapshot = some plan → WellFormed plan) :
    KeepsCompleted s.snapshot (applyReviewerPatch host now value s).2.snapshot := by
  rcases applyReviewerPatch_cases host s now value with
    h | ⟨plan, patch, ids, u, tasks, next, hplan, -, hcheck, htasks, rfl, -, hstores⟩
  · rw [h.2.snapshot]
    exact .refl _
  rw [hplan, hstores.snapshot]
  refine keepsCompleted_of_forall₂ ?_
  show List.Forall₂ KeepsTask plan.tasks tasks
  have hmem := (forall₂_and_left (p := (· ∈ plan.tasks)) _ _).2
    ⟨fun _ h => h, mapM_eq_ok htasks⟩
  exact hmem.imp fun task task' h => patchTask_keeps (hwf plan hplan) hcheck h.1 h.2

/-! ## The end of a tool call -/

/-- Only tasks of the wanted statuses are selected. -/
theorem selectTask_status {plan : DynamicTaskPlanV1} {summary : String} {verification : Bool}
    {statuses : List DynamicTaskStatus} {task : DynamicTaskItemV1}
    (h : selectTask host plan summary verification statuses = some task) :
    task.status ∈ statuses ∧ task ∈ plan.tasks := by
  unfold selectTask at h
  simp only at h
  split at h
  next best hbest =>
    split at h
    · cases h
      have hmem := mem_of_head? hbest
      rw [mem_insertionSort] at hmem
      obtain ⟨⟨candidate, index⟩, hcand, rfl⟩ := List.mem_map.1 hmem
      have hin : candidate ∈ _ := fst_mem_of_mem_zipIdx hcand
      rw [mem_filter] at hin
      simp only [Bool.and_eq_true, contains_iff_mem] at hin
      exact ⟨hin.2.1, hin.1⟩
    · cases h
  next => cases h

/-- A finished tool call belongs to a completed task only if it was bound to it. -/
theorem boundTask_of_completed {plan : DynamicTaskPlanV1} {active : Option ActiveDynamicTool}
    {input : DynamicTaskToolFinishFact} {task : DynamicTaskItemV1}
    (h : finishedTask host plan active input = some task) (hstatus : task.status = .completed) :
    boundTask plan active = some task := by
  unfold finishedTask at h
  rcases Option.or_eq_some_iff.1 h with hbound | ⟨-, hselect⟩
  · exact hbound
  · have hmem := (selectTask_status hselect).1
    rw [hstatus] at hmem
    simp at hmem

theorem boundTask_mem {plan : DynamicTaskPlanV1} {active : Option ActiveDynamicTool}
    {task : DynamicTaskItemV1} (h : boundTask plan active = some task) : task ∈ plan.tasks := by
  unfold boundTask at h
  split at h
  · split at h
    · cases h
    · exact mem_of_find?_eq_some h
  · cases h

theorem finishedTask_mem {plan : DynamicTaskPlanV1} {active : Option ActiveDynamicTool}
    {input : DynamicTaskToolFinishFact} {task : DynamicTaskItemV1}
    (h : finishedTask host plan active input = some task) : task ∈ plan.tasks := by
  unfold finishedTask at h
  rcases Option.or_eq_some_iff.1 h with hbound | ⟨-, hselect⟩
  · exact boundTask_mem hbound
  · exact (selectTask_status hselect).2

/-- A tool call that does not end late keeps every completed task. -/
theorem noteToolFinished_keeps {s : DynamicTaskRuntime} {now : ℚ}
    {input : DynamicTaskToolFinishFact}
    (hwf : ∀ plan, s.snapshot = some plan → WellFormed plan) (hlate : ¬ LateFinish s now input) :
    KeepsCompleted s.snapshot (noteToolFinished host now input s).2.snapshot := by
  rcases noteToolFinished_cases host s now input with
    h | ⟨plan, next, facts, hplan, -, -, hfacts, hstores⟩
  · rw [h.2.snapshot]
    exact .refl _
  rw [hplan, hstores.snapshot]
  refine withFacts_keeps hfacts (mapSelected_keeps fun task htask hsel => ⟨rfl, fun hstatus => ?_⟩)
  -- the selected task is this one, and it was bound to the call
  obtain ⟨found, hfound, hid⟩ := Option.map_eq_some_iff.1 hsel.symm
  have hsame : found = task := by
    have h1 := find?_task (hwf plan hplan) (finishedTask_mem hfound) hid
    have h2 := find?_task (hwf plan hplan) htask rfl
    exact some.inj (h1.symm.trans h2)
  subst hsame
  have hbound := boundTask_of_completed hfound hstatus
  have hverify : ¬ (input.verification = true ∧ input.status ≠ .success) := fun hv =>
    hlate ⟨found, by rw [hplan]; exact hbound, hstatus, .inl hv⟩
  have htime : found.completedAt = some (input.createdAt.getD now) := by
    by_contra hne
    exact hlate ⟨found, by rw [hplan]; exact hbound, hstatus, .inr hne⟩
  have hfinished : finishedStatus input found.status = .completed := by
    unfold finishedStatus
    split
    next hv =>
      have hsuccess : input.status = .success := by
        by_contra hne
        exact hverify ⟨hv, hne⟩
      rw [if_pos hsuccess]
    next => exact hstatus
  exact ⟨hfinished, by simp [finishTask, hfinished, htime]⟩

/-- **A late end breaks the property** whenever it is accepted. -/
theorem noteToolFinished_late {s : DynamicTaskRuntime} {now : ℚ}
    {input : DynamicTaskToolFinishFact}
    (hwf : ∀ plan, s.snapshot = some plan → WellFormed plan) (hlate : LateFinish s now input)
    (haccepted : accepted (noteToolFinished host now input s).1 = true) :
    ¬ KeepsCompleted s.snapshot (noteToolFinished host now input s).2.snapshot := by
  obtain ⟨task, hmem, hstatus, hbad⟩ := hlate
  obtain ⟨plan, hplan, hbound⟩ := Option.bind_eq_some_iff.1 hmem
  rcases noteToolFinished_cases host s now input with
    h | ⟨plan', next, facts, hplan', -, -, hfacts, hstores⟩
  · rw [h.1] at haccepted
    cases haccepted
  obtain rfl : plan = plan' := some.inj (hplan.symm.trans hplan')
  have hfound : finishedTask host plan (s.activeTools.get? input.toolCallId) input = some task := by
    unfold finishedTask
    rw [hbound]
    rfl
  intro hkeeps
  rw [hplan, hstores.snapshot] at hkeeps
  obtain ⟨task', htask', hstate⟩ := mem_taskStates.1
    (hkeeps _ (mem_taskStates.2 ⟨task, boundTask_mem hbound, rfl⟩) hstatus)
  rw [hstatus, Prod.mk.injEq, Prod.mk.injEq] at hstate
  obtain ⟨hid, hstatus', htime⟩ := hstate
  unfold withFacts at hfacts
  obtain ⟨_, -, hfacts⟩ := bind_eq_ok.1 hfacts
  cases hfacts
  -- the task found afterwards is what the end of the call made of the bound task
  obtain ⟨changed, hchanged, rfl⟩ := List.mem_map.1 htask'
  unfold mapSelected at hchanged
  obtain ⟨original, horiginal, rfl⟩ := List.mem_map.1 hchanged
  rw [hfound] at hid hstatus' htime
  have horigId : original.id = task.id := by
    by_cases hsel : some original.id = (some task).map (·.id)
    · exact some.inj hsel
    · rw [if_neg hsel] at hid
      exact hid
  have hsame : original = task := by
    have h1 := find?_task (hwf plan hplan) horiginal horigId
    have h2 := find?_task (hwf plan hplan) (boundTask_mem hbound) rfl
    exact some.inj (h1.symm.trans h2)
  subst hsame
  simp only [Option.map_some, if_pos] at hstatus' htime
  rcases hbad with ⟨hverify, hfailed⟩ | hne
  · simp [finishTask, finishedStatus, hverify, hfailed] at hstatus'
  · have hcompleted : finishedStatus input original.status = .completed := hstatus'
    simp only [finishTask, hcompleted, if_pos] at htime
    exact hne htime.symm

/-! ## The main agent's update -/

/-- An update keeps the time of a task that stays completed. -/
theorem updatedTask_completedAt {rebasing : Bool} {previous : DynamicTaskItemV1}
    {base : Option DynamicTaskItemV1} {now : ℚ} {task : TasksUpdateTaskV1}
    (hprevious : previous.status = .completed)
    (h : (updatedTask rebasing (some previous) base now task).status = .completed) :
    (updatedTask rebasing (some previous) base now task).completedAt = previous.completedAt := by
  simp only [updatedTask] at h ⊢
  rw [if_pos h, if_pos hprevious]

theorem updatePlan_keepsTimes {s : DynamicTaskRuntime} (now : ℚ) (newPlanId : String)
    (value : Json) (hwf : ∀ plan, s.snapshot = some plan → WellFormed plan) :
    KeepsTimes s.snapshot (updatePlan host now newPlanId value s).2.snapshot := by
  intro state hstate hcompleted state' hstate' hid hcompleted'
  cases hsnap : s.snapshot with
  | none =>
    rw [hsnap] at hstate
    cases hstate
  | some plan =>
    rw [hsnap] at hstate
    obtain ⟨task, htask, rfl⟩ := mem_taskStates.1 hstate
    have hfind := find?_task (hwf plan hsnap) htask hid.symm
    rcases updatePlan_cases host s now newPlanId value with
      h | ⟨base, input, next, -, rfl, -, hstores⟩
    · rw [h.2.snapshot, hsnap] at hstate'
      obtain ⟨task', htask', rfl⟩ := mem_taskStates.1 hstate'
      have hfind' := find?_task (hwf plan hsnap) htask' rfl
      rw [some.inj (hfind'.symm.trans hfind)]
    · rw [hstores.snapshot] at hstate'
      obtain ⟨task', htask', rfl⟩ := mem_taskStates.1 hstate'
      obtain ⟨entry, -, rfl⟩ := List.mem_map.1 htask'
      have hprevious : taskById s.snapshot entry.id = some task := by
        rw [hsnap]
        exact hfind
      simp only [hprevious] at hcompleted' ⊢
      exact updatedTask_completedAt hcompleted hcompleted'

/-! ## Runs -/

/-- The snapshot of the session is well formed. -/
def Sound (s : TaskSession) : Prop := ∀ plan, s.runtime.snapshot = some plan → WellFormed plan

variable {minimumIntervalMs : ℚ} {s t : TaskSession} {e : Event}

/-- A call that is not a late end keeps what is asked. -/
theorem perform_kept {s : DynamicTaskRuntime} {now : ℚ} {call : Call}
    (hs : ∀ plan, s.snapshot = some plan → WellFormed plan) :
    match call with
    | .updatePlan _ _ => KeepsTimes s.snapshot (perform host now call s).2.snapshot
    | .noteToolFinished input => ¬ LateFinish s now input →
        KeepsCompleted s.snapshot (perform host now call s).2.snapshot
    | _ => KeepsCompleted s.snapshot (perform host now call s).2.snapshot := by
  unfold perform
  cases call with
  | updatePlan newPlanId value => exact updatePlan_keepsTimes now newPlanId value hs
  | applyReviewerPatch value => exact applyReviewerPatch_keeps now value hs
  | recordFact input => exact recordFact_keeps now input hs
  | noteToolStarted input => exact noteToolStarted_keeps now input
  | noteToolFinished input => exact noteToolFinished_keeps hs
  | noteWorkflow | noteBackground | noteMonitor => exact recordFact_keeps now _ hs

/-- One event that is not late keeps completed tasks. -/
theorem step_kept (hs : Sound s) (h : step host minimumIntervalMs s e = some t)
    (hlate : NotLate s e) : CompletedKept s e t := by
  rcases step_cases h with ⟨now, call, rfl, ht⟩ | ⟨now, number, patch, rfl, ht⟩ |
    ⟨now, number, review, outcome, hrecorded, -⟩ | ⟨entries, rfl, -⟩ | ⟨entry, rfl, -, -⟩ |
    ⟨hquiet, -⟩
  · have hcall := @perform_kept host _ now call hs
    rw [← ht] at hcall
    cases call with
    | noteToolFinished input => exact hcall hlate
    | _ => exact hcall
  · show KeepsCompleted s.runtime.snapshot t.runtime.snapshot
    rw [ht]
    exact applyReviewerPatch_keeps now patch hs
  · cases e with
    | answer now number answer => trivial
    | endReview now number => trivial
    | _ => cases hrecorded
  · trivial
  · trivial
  · cases e with
    | call now call => cases hquiet
    | applyPatch now number => cases hquiet
    | _ => trivial

/-- **Completed tasks are kept exactly as far as no tool call ends late.**  Along every
run without a late end, automatic operations keep each completed task and its
completion time, and updates keep the times of the tasks that stay completed; and in
every reachable state a late end that is accepted reopens its task or moves its
completion time. -/
theorem completed_kept_unless_lateFinish (host : Host) (minimumIntervalMs : ℚ)
    (entries : List SessionEntry) :
    (∀ es, Along (step host minimumIntervalMs) (fun s e _ => NotLate s e)
        (openSession host entries) es →
      Along (step host minimumIntervalMs) CompletedKept (openSession host entries) es) ∧
    (∀ s, Reaches (step host minimumIntervalMs) (fun _ _ => True) (openSession host entries) s →
      ∀ now input, LateFinish s.runtime now input →
        accepted (perform host now (.noteToolFinished input) s.runtime).1 = true →
        ¬ KeepsCompleted s.runtime.snapshot
          (perform host now (.noteToolFinished input) s.runtime).2.snapshot) := by
  constructor
  · intro es hes
    refine along_of_invariant (I := fun s => Snapshots WellFormed s.runtime) ?_ es _
      (openSession_snapshots (fun _ _ => validateDynamicTaskPlan_wellFormed) entries) hes
    intro s e t hs hstep hlate
    exact ⟨step_kept hs.current hstep hlate,
      step_snapshots (fun _ _ => validateDynamicTaskPlan_wellFormed) hs hstep⟩
  · intro s hreach now input hlate haccepted
    have hs : Snapshots WellFormed s.runtime :=
      reaches_snapshots (fun _ _ => validateDynamicTaskPlan_wellFormed) hreach
    exact noteToolFinished_late hs.current hlate haccepted

/-- A verification run completes its task while it is active; a later one fails. -/
def timelyTrace : List Event :=
  [.call 10 (.updatePlan "plan-1" (plainUpdate 0 "initial_plan" "pending")),
    .call 20 (.noteToolStarted (plainStart "call-1")),
    .call 30 (.noteToolFinished (plainFinish "call-1" .success)),
    .call 40 (.noteToolStarted (plainStart "call-2")),
    .call 50 (.noteToolFinished (plainFinish "call-2" .failed))]

/-- At the end of the timely run the task has been completed at 30, as after the first run. -/
theorem completed_kept_unless_lateFinish_timelyTrace :
    (runFrom (step plainHost 0) (openSession plainHost []) timelyTrace).map (fun s =>
      s.runtime.snapshot.map fun plan => plan.tasks.map (·.completedAt)) =
        some (some [some 30]) ∧
    Along (step plainHost 0) CompletedKept (openSession plainHost []) timelyTrace := by
  refine ⟨by decide +kernel, ?_⟩
  exact (completed_kept_unless_lateFinish plainHost 0 []).1 timelyTrace (by decide +kernel)

/-- The main agent completes the task while the verification runs; then the
verification fails. -/
def lateTrace : List Event :=
  [.call 10 (.updatePlan "plan-1" (plainUpdate 0 "initial_plan" "pending")),
    .call 20 (.noteToolStarted (plainStart "call-1")),
    .call 30 (.updatePlan "plan-2" (plainUpdate 2 "plan_changed" "completed")),
    .call 40 (.noteToolFinished (plainFinish "call-1" .failed))]

/-- **A late end reopens a completed task.** -/
theorem lateFinish_reopens :
    ¬ Along (step plainHost 0) CompletedKept (openSession plainHost []) lateTrace := by
  decide +kernel

end BeauPi.Tasks
