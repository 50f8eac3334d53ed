import BeauPi.Tasks.Operations

/-!
# Dynamic Tasks: what an operation can do

The operations build the next plan in very different ways, but each of them either
accepts one validated plan of the next revision or leaves everything that is
persisted alone.  This is said once here, for every operation; the results about
runs use nothing else.

* `Accepts` — the next plan has been validated, remembered and written.
* `Performs` — what an operation can do: accept a plan, or refuse.
* `perform_spec` — **every operation performs so**.
-/

namespace BeauPi.Tasks

open Machine Session

/-- The calls of the runtime's mutating operations, with their arguments. -/
inductive Call
  | updatePlan (newPlanId : String) (value : Json)
  | applyReviewerPatch (value : Json)
  | recordFact (input : DynamicTaskFactInputV1)
  | noteToolStarted (input : DynamicTaskToolStartFact)
  | noteToolFinished (input : DynamicTaskToolFinishFact)
  | noteWorkflow (input : DynamicTaskWorkflowFact)
  | noteBackground (input : DynamicTaskBackgroundFact)
  | noteMonitor (input : DynamicTaskMonitorFact)
  deriving DecidableEq

variable (host : Host)

/-- Execute a call at a given time. -/
def perform (now : ℚ) (call : Call) (s : DynamicTaskRuntime) : Answer × DynamicTaskRuntime :=
  match call with
  | .updatePlan newPlanId value => updatePlan host now newPlanId value s
  | .applyReviewerPatch value => applyReviewerPatch host now value s
  | .recordFact input => recordFact host now input s
  | .noteToolStarted input => noteToolStarted host now input s
  | .noteToolFinished input => noteToolFinished host now input s
  | .noteWorkflow input => noteWorkflow host now input s
  | .noteBackground input => noteBackground host now input s
  | .noteMonitor input => noteMonitor host now input s

/-- Is the answer a mutation that was accepted? -/
def accepted : Answer → Bool
  | .ok result => result.status = .accepted
  | .error _ => false

/-- A plan that the session can give back: it passes the validation that `rebuild`
applies to it. -/
def Valid (plan : DynamicTaskPlanV1) : Prop :=
  validateDynamicTaskPlan host (plan.toJson host) = .ok plan

/-- The plan `next` continues the current one: same plan, no fact forgotten in the
count. -/
def Continues (snapshot : Option DynamicTaskPlanV1) (next : DynamicTaskPlanV1) : Prop :=
  ∀ plan, snapshot = some plan →
    next.planId = plan.planId ∧ plan.factSequence ≤ next.factSequence

/-- The step from `s` to `t` makes `next` the snapshot, remembers it and writes it. -/
structure Stores (s : DynamicTaskRuntime) (next : DynamicTaskPlanV1) (t : DynamicTaskRuntime) :
    Prop where
  live : s.disposed = false
  snapshot : t.snapshot = some next
  history : t.snapshotHistory = s.snapshotHistory.set next.revision next
  branch : t.branch = s.branch ++ [snapshotEntry host next]
  lastReview : t.lastReview = s.lastReview
  disposed : t.disposed = false

/-- The step from `s` to `t` accepts the plan `next`. -/
structure Accepts (s : DynamicTaskRuntime) (next : DynamicTaskPlanV1) (t : DynamicTaskRuntime) :
    Prop extends Stores host s next t where
  valid : Valid host next
  revision : next.revision = revisionOf s.snapshot + 1
  continues : Continues s.snapshot next

/-- The step from `s` to `t` changes at most which tool calls are active. -/
def Untouched (s t : DynamicTaskRuntime) : Prop := t = { s with activeTools := t.activeTools }

/-- The operation is refused: nothing that is persisted changes. -/
def Refuses (s : DynamicTaskRuntime) (r : Answer × DynamicTaskRuntime) : Prop :=
  accepted r.1 = false ∧ Untouched s r.2

/-- What an operation can do. -/
def Performs (s : DynamicTaskRuntime) (r : Answer × DynamicTaskRuntime) : Prop :=
  Refuses s r ∨ (accepted r.1 = true ∧ ∃ next, Accepts host s next r.2)

variable {host} {s t : DynamicTaskRuntime}

theorem Untouched.snapshot (h : Untouched s t) : t.snapshot = s.snapshot := by
  unfold Untouched at h
  rw [h]

/-- A plan that passed its validation is valid. -/
theorem valid_of_validated {plan result : DynamicTaskPlanV1}
    (h : validateDynamicTaskPlan host (plan.toJson host) = .ok result) : Valid host plan := by
  have hr := validateDynamicTaskPlan_toJson h
  rw [hr] at h
  exact h

/-- `acceptSnapshot` stores a plan, whatever else the operation does to the transient
fields. -/
theorem stores_acceptSnapshot {next : DynamicTaskPlanV1} (hlive : ¬ s.disposed = true)
    (tools : OrderedMap String ActiveDynamicTool) (reminder reminder' : Option String)
    (required required' : Bool) :
    Stores host s next
      { acceptSnapshot host next
          { s with activeTools := tools, refreshReminder := reminder
                   initialPlanRequired := required } with
        refreshReminder := reminder', initialPlanRequired := required' } := by
  have hlive' : s.disposed = false := by simpa using hlive
  simp only [acceptSnapshot, hlive']
  exact ⟨hlive', rfl, rfl, rfl, rfl, rfl⟩

/-! ## One lemma for each operation

Each says when the operation is refused and, if it is accepted, which plan it
stores. -/

variable (host s) in
theorem noteToolStarted_cases (now : ℚ) (input : DynamicTaskToolStartFact) :
    Refuses s (noteToolStarted host now input s) ∨
    ∃ plan next fact, s.snapshot = some plan ∧
      accepted (noteToolStarted host now input s).1 = true ∧
      fact = startedFact host plan input (input.createdAt.getD now) ∧
      withFacts host plan
        (mapSelected (startedTask host plan input) (startTask fact (input.createdAt.getD now))
          plan.tasks)
        [fact] (input.createdAt.getD now) = .ok next ∧
      Stores host s next (noteToolStarted host now input s).2 := by
  unfold noteToolStarted
  split
  · exact .inl ⟨rfl, rfl⟩
  next hlive =>
  split
  · exact .inl ⟨rfl, rfl⟩
  next plan hplan =>
  split
  · exact .inl ⟨rfl, rfl⟩
  simp only
  split
  · exact .inl ⟨rfl, rfl⟩
  split
  · exact .inl ⟨rfl, rfl⟩
  next next hnext =>
  exact .inr ⟨plan, next, _, hplan, rfl, rfl, hnext, stores_acceptSnapshot hlive _ _ _ _ _⟩

variable (host s) in
theorem noteToolFinished_cases (now : ℚ) (input : DynamicTaskToolFinishFact) :
    Refuses s (noteToolFinished host now input s) ∨
    ∃ plan next facts, s.snapshot = some plan ∧
      accepted (noteToolFinished host now input s).1 = true ∧
      facts = finishedFacts host plan input (input.createdAt.getD now) ∧
      withFacts host plan
        (mapSelected (finishedTask host plan (s.activeTools.get? input.toolCallId) input)
          (finishTask input facts (input.createdAt.getD now)) plan.tasks)
        facts (input.createdAt.getD now) = .ok next ∧
      Stores host s next (noteToolFinished host now input s).2 := by
  unfold noteToolFinished
  split
  · exact .inl ⟨rfl, rfl⟩
  next hlive =>
  simp only
  split
  · exact .inl ⟨rfl, rfl⟩
  next plan hplan =>
  split
  · exact .inl ⟨rfl, rfl⟩
  split
  · exact .inl ⟨rfl, rfl⟩
  split
  · exact .inl ⟨rfl, rfl⟩
  next next hnext =>
  exact .inr ⟨plan, next, _, hplan, rfl, rfl, hnext, stores_acceptSnapshot hlive _ _ _ _ _⟩

variable (host s) in
theorem recordFact_cases (now : ℚ) (input : DynamicTaskFactInputV1) :
    Refuses s (recordFact host now input s) ∨
    ∃ plan next, s.snapshot = some plan ∧ accepted (recordFact host now input s).1 = true ∧
      next = recordedPlan host plan input (input.createdAt.getD now) ∧ Valid host next ∧
      Stores host s next (recordFact host now input s).2 := by
  unfold recordFact
  split
  · exact .inl ⟨rfl, rfl⟩
  next hlive =>
  split
  · exact .inl ⟨rfl, rfl⟩
  next plan hplan =>
  simp only
  split
  · exact .inl ⟨rfl, rfl⟩
  split
  · exact .inl ⟨rfl, rfl⟩
  split
  · exact .inl ⟨rfl, rfl⟩
  split
  · exact .inl ⟨rfl, rfl⟩
  next _ result hresult =>
  exact .inr ⟨plan, _, hplan, rfl, rfl, valid_of_validated hresult,
    stores_acceptSnapshot hlive _ _ _ _ _⟩

variable (host s) in
theorem updatePlan_cases (now : ℚ) (newPlanId : String) (value : Json) :
    Refuses s (updatePlan host now newPlanId value s) ∨
    ∃ base input next, accepted (updatePlan host now newPlanId value s).1 = true ∧
      next = updatedPlan s base input now newPlanId ∧ Valid host next ∧
      Stores host s next (updatePlan host now newPlanId value s).2 := by
  unfold updatePlan
  simp only
  split
  · exact .inl ⟨rfl, rfl⟩
  next hlive =>
  split
  · exact .inl ⟨rfl, rfl⟩
  next input _ =>
  split
  · exact .inl ⟨rfl, rfl⟩
  next base _ =>
  split
  · exact .inl ⟨rfl, rfl⟩
  split
  · exact .inl ⟨rfl, rfl⟩
  split
  · exact .inl ⟨rfl, rfl⟩
  next result hresult =>
  split
  · exact .inl ⟨rfl, rfl⟩
  exact .inr ⟨base, input, _, rfl, rfl, valid_of_validated hresult,
    stores_acceptSnapshot hlive _ _ _ _ _⟩

variable (host s) in
theorem applyReviewerPatch_cases (now : ℚ) (value : Json) :
    Refuses s (applyReviewerPatch host now value s) ∨
    ∃ plan patch ids u tasks next, s.snapshot = some plan ∧
      accepted (applyReviewerPatch host now value s).1 = true ∧
      patch.updates.forM (checkPatchUpdate plan ids) = .ok u ∧
      plan.tasks.mapM (patchTask patch now) = .ok tasks ∧
      next = { plan with revision := plan.revision + 1, updatedAt := now, tasks := tasks } ∧
      Valid host next ∧ Stores host s next (applyReviewerPatch host now value s).2 := by
  unfold applyReviewerPatch
  simp only
  split
  · exact .inl ⟨rfl, rfl⟩
  next hlive =>
  split
  · exact .inl ⟨rfl, rfl⟩
  next patch _ =>
  split
  · exact .inl ⟨rfl, rfl⟩
  next plan hplan =>
  split
  · exact .inl ⟨rfl, rfl⟩
  split
  · exact .inl ⟨rfl, rfl⟩
  split
  · exact .inl ⟨rfl, rfl⟩
  next u hcheck =>
  split
  · exact .inl ⟨rfl, rfl⟩
  next tasks htasks =>
  split
  · exact .inl ⟨rfl, rfl⟩
  next result hresult =>
  split
  · exact .inl ⟨rfl, rfl⟩
  exact .inr ⟨plan, patch, _, u, tasks, _, hplan, rfl, hcheck, htasks, rfl,
    valid_of_validated hresult, stores_acceptSnapshot hlive _ _ _ _ _⟩

/-! ## Every operation -/

/-- The sequence numbers of the facts that `withFacts` adds do not fall behind. -/
theorem withFacts_spec {snapshot next : DynamicTaskPlanV1} {tasks : List DynamicTaskItemV1}
    {facts : List DynamicTaskFactV1} {timestamp : ℚ}
    (hseq : ∀ fact ∈ facts, snapshot.factSequence ≤ fact.sequence)
    (h : withFacts host snapshot tasks facts timestamp = .ok next) :
    Valid host next ∧ next.revision = snapshot.revision + 1 ∧ Continues (some snapshot) next := by
  unfold withFacts at h
  obtain ⟨result, hresult, h⟩ := bind_eq_ok.1 h
  cases h
  refine ⟨valid_of_validated hresult, rfl, ?_⟩
  intro plan hplan
  obtain rfl := Option.some.inj hplan
  refine ⟨rfl, ?_⟩
  cases hlast : facts.getLast? with
  | none => simp
  | some fact =>
    simp only [Option.map_some, Option.getD_some]
    exact hseq fact (List.mem_of_getLast? hlast)

/-- The facts of a finished tool call are numbered after those of the plan. -/
theorem finishedFacts_sequence {snapshot : DynamicTaskPlanV1} {input : DynamicTaskToolFinishFact}
    {timestamp : ℚ} {fact : DynamicTaskFactV1}
    (h : fact ∈ finishedFacts host snapshot input timestamp) :
    snapshot.factSequence ≤ fact.sequence := by
  unfold finishedFacts at h
  obtain ⟨⟨candidate, index⟩, -, rfl⟩ := List.mem_map.1 h
  show snapshot.factSequence ≤ snapshot.factSequence + index + 1
  omega

/-- An update keeps the plan's id and its facts. -/
theorem updatedPlan_continues {base : Option DynamicTaskPlanV1} {input : TasksUpdateInputV1}
    {now : ℚ} {newPlanId : String} :
    Continues s.snapshot (updatedPlan s base input now newPlanId) := by
  intro plan hplan
  simp [updatedPlan, hplan]

theorem noteToolStarted_spec (now : ℚ) (input : DynamicTaskToolStartFact) :
    Performs host s (noteToolStarted host now input s) := by
  rcases noteToolStarted_cases host s now input with
    h | ⟨plan, next, fact, hplan, hacc, rfl, hnext, hstores⟩
  · exact .inl h
  · have hseq : ∀ fact ∈ [startedFact host plan input (input.createdAt.getD now)],
        plan.factSequence ≤ fact.sequence := by
      intro fact hfact
      obtain rfl := List.mem_singleton.1 hfact
      exact Nat.le_succ _
    obtain ⟨hvalid, hrev, hcont⟩ := withFacts_spec hseq hnext
    exact .inr ⟨hacc, next, hstores, hvalid, by rw [hplan, hrev]; rfl, by rw [hplan]; exact hcont⟩

theorem noteToolFinished_spec (now : ℚ) (input : DynamicTaskToolFinishFact) :
    Performs host s (noteToolFinished host now input s) := by
  rcases noteToolFinished_cases host s now input with
    h | ⟨plan, next, facts, hplan, hacc, rfl, hnext, hstores⟩
  · exact .inl h
  · obtain ⟨hvalid, hrev, hcont⟩ :=
      withFacts_spec (fun fact hfact => finishedFacts_sequence hfact) hnext
    exact .inr ⟨hacc, next, hstores, hvalid, by rw [hplan, hrev]; rfl, by rw [hplan]; exact hcont⟩

theorem recordFact_spec (now : ℚ) (input : DynamicTaskFactInputV1) :
    Performs host s (recordFact host now input s) := by
  rcases recordFact_cases host s now input with
    h | ⟨plan, next, hplan, hacc, rfl, hvalid, hstores⟩
  · exact .inl h
  · refine .inr ⟨hacc, _, hstores, hvalid, by rw [hplan]; rfl, ?_⟩
    rw [hplan]
    rintro _ ⟨⟩
    exact ⟨rfl, Nat.le_succ _⟩

theorem updatePlan_spec (now : ℚ) (newPlanId : String) (value : Json) :
    Performs host s (updatePlan host now newPlanId value s) := by
  rcases updatePlan_cases host s now newPlanId value with
    h | ⟨base, input, next, hacc, rfl, hvalid, hstores⟩
  · exact .inl h
  · exact .inr ⟨hacc, _, hstores, hvalid, rfl, updatedPlan_continues⟩

theorem applyReviewerPatch_spec (now : ℚ) (value : Json) :
    Performs host s (applyReviewerPatch host now value s) := by
  rcases applyReviewerPatch_cases host s now value with
    h | ⟨plan, patch, ids, u, tasks, next, hplan, hacc, -, -, rfl, hvalid, hstores⟩
  · exact .inl h
  · refine .inr ⟨hacc, _, hstores, hvalid, by rw [hplan]; rfl, ?_⟩
    rw [hplan]
    rintro _ ⟨⟩
    exact ⟨rfl, Nat.le_refl _⟩

variable (host s) in
/-- **Every call** accepts one validated plan of the next revision, or leaves what is
persisted alone. -/
theorem perform_spec (now : ℚ) (call : Call) : Performs host s (perform host now call s) := by
  cases call with
  | updatePlan newPlanId value => exact updatePlan_spec now newPlanId value
  | applyReviewerPatch value => exact applyReviewerPatch_spec now value
  | recordFact input => exact recordFact_spec now input
  | noteToolStarted input => exact noteToolStarted_spec now input
  | noteToolFinished input => exact noteToolFinished_spec now input
  | noteWorkflow | noteBackground | noteMonitor => exact recordFact_spec now _

end BeauPi.Tasks
