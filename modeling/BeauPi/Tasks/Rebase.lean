import BeauPi.Tasks.Acceptance
import BeauPi.Tasks.Persistence
import BeauPi.Tasks.Validated

/-!
# Dynamic Tasks: rebasing an update

An update that expects an earlier revision is merged into the current plan, if nothing but
statuses, activities, evidence and blockers has changed in between.

* `SameStructure` — goal, ids, order, titles, dependencies and hints are the same.
* `Merged` — the task that the merge of three versions should give.
* `updatePlan_rebases` — **an accepted update merges every task, and after a change of the
  structure no update is accepted.**
-/

namespace BeauPi.Tasks

open Machine Session List

/-! ## What a merge should give -/

/-- What a rebase may not find changed in a task. -/
def structureOf (task : DynamicTaskItemV1) : String × String × List String × List String :=
  (task.id, task.title, task.dependsOn, task.matchHints)

/-- The plans differ at most in what the runtime keeps for itself. -/
structure SameStructure (base current : DynamicTaskPlanV1) : Prop where
  goal : base.goal = current.goal
  tasks : base.tasks.map structureOf = current.tasks.map structureOf

/-- What the input repeats of the base is left as it is now; what it changes is changed. -/
def threeWay {α : Type} [DecidableEq α] (base current input : α) : α :=
  if input = base then current else input

/-- The merge of a task that the base, the current plan and the input have. -/
structure Merged (base current : DynamicTaskItemV1) (input : TasksUpdateTaskV1)
    (result : DynamicTaskItemV1) : Prop where
  status : result.status = threeWay base.status current.status input.status
  blockedBy : ∀ blockers, input.blockedBy = some blockers →
    result.blockedBy = threeWay base.blockedBy current.blockedBy blockers
  activity : result.activity =
    if input.activity = none then current.activity
    else threeWay base.activity current.activity input.activity
  evidence : result.evidence = current.evidence

/-- The merge of a plan: the tasks of the input in their order, and the facts of today. -/
structure MergedPlan (base current : DynamicTaskPlanV1) (input : TasksUpdateInputV1)
    (result : DynamicTaskPlanV1) : Prop where
  ids : result.tasks.map (·.id) = input.tasks.map (·.id)
  tasks : ∀ b ∈ base.tasks, ∀ c ∈ current.tasks, ∀ i ∈ input.tasks, ∀ r ∈ result.tasks,
    b.id = r.id → c.id = r.id → i.id = r.id → Merged b c i r
  facts : result.facts = current.facts

/-! ## What the runtime does -/

variable {host : Host} {s : DynamicTaskRuntime} {base current : DynamicTaskPlanV1}

/-- The texts that the runtime compares are equal for plans of the same structure only. -/
theorem stablePlanStructure_eq_iff :
    stablePlanStructure base = stablePlanStructure current ↔ SameStructure base current := by
  have hinj : Function.Injective fun p : String × String × List String × List String =>
      Json.obj [("id", .str p.1), ("title", .str p.2.1), ("dependsOn", Json.strings p.2.2.1),
        ("matchHints", Json.strings p.2.2.2)] := by
    rintro ⟨id, title, dependsOn, matchHints⟩ ⟨id', title', dependsOn', matchHints'⟩ h
    have hstr : Function.Injective Json.str := fun _ _ => Json.str.inj
    simpa [Json.strings, (map_injective_iff.2 hstr).eq_iff] using h
  have hmap := (map_injective_iff.2 hinj).eq_iff (a := base.tasks.map structureOf)
    (b := current.tasks.map structureOf)
  rw [map_map, map_map] at hmap
  constructor
  · intro h
    simp only [stablePlanStructure, Json.obj.injEq, List.cons.injEq, Prod.mk.injEq, Json.str.injEq,
      Json.arr.injEq, true_and, and_true] at h
    exact ⟨h.1, hmap.1 h.2⟩
  · rintro ⟨hgoal, htasks⟩
    have h := hmap.2 htasks
    simp only [Function.comp_def, structureOf] at h
    rw [stablePlanStructure, stablePlanStructure, hgoal, h]

/-- An update of another revision finds the plan of that revision, or nothing. -/
theorem baseSnapshot_eq_some {revision : Nat} {found : Option DynamicTaskPlanV1}
    (hother : revision ≠ revisionOf s.snapshot) (h : baseSnapshot s revision = some found) :
    ∃ current base, s.snapshot = some current ∧ s.snapshotHistory.get? revision = some base ∧
      found = some base ∧ SameStructure base current := by
  unfold baseSnapshot at h
  rw [if_neg hother] at h
  split at h
  next current base hcurrent hbase =>
    split at h
    next hsame =>
      exact ⟨current, base, hcurrent, hbase, (Option.some.inj h).symm,
        stablePlanStructure_eq_iff.1 hsame.2⟩
    next => cases h
  next => cases h

/-- A rebased task is the merge of its three versions. -/
theorem updatedTask_merged (b c : DynamicTaskItemV1) (now : ℚ) (input : TasksUpdateTaskV1) :
    Merged b c input (updatedTask true (some c) (some b) now input) := by
  refine ⟨rfl, fun blockers h => ?_, ?_, rfl⟩
  · simp only [updatedTask, rebaseVersions, h]
    rfl
  · cases hactivity : input.activity with
    | none => simp [updatedTask, rebaseVersions, hactivity]
    | some activity => simp [updatedTask, rebaseVersions, hactivity, threeWay]

/-- In a plan with different ids a task is found under its own. -/
theorem taskById_of_mem {plan : DynamicTaskPlanV1} {task : DynamicTaskItemV1}
    (hids : (plan.tasks.map (·.id)).Nodup) (htask : task ∈ plan.tasks) :
    taskById (some plan) task.id = some task := by
  cases hfound : taskById (some plan) task.id with
  | none =>
    have hnone := find?_eq_none.1 hfound task htask
    simp at hnone
  | some other =>
    have hid : other.id = task.id := by simpa using find?_some hfound
    have hmem : other ∈ plan.tasks := mem_of_find?_eq_some hfound
    rw [inj_on_of_nodup_map hids hmem htask hid]

theorem ids_nodup (h : Acceptable host current) : (current.tasks.map (·.id)).Nodup := by
  have hids := h.rules.dependencies.ids
  rwa [map_map] at hids

/-- The plan that a rebased update asks for is the merge. -/
theorem updatedPlan_merged {input : TasksUpdateInputV1} {now : ℚ} {newPlanId : String}
    (hcurrent : s.snapshot = some current) (hother : input.expectedRevision ≠ revisionOf s.snapshot)
    (hbase : (base.tasks.map (·.id)).Nodup) (hnow : (current.tasks.map (·.id)).Nodup)
    (hresult : ((updatedPlan s (some base) input now newPlanId).tasks.map (·.id)).Nodup) :
    MergedPlan base current input (updatedPlan s (some base) input now newPlanId) := by
  have hids : (updatedPlan s (some base) input now newPlanId).tasks.map (·.id) =
      input.tasks.map (·.id) := by
    simp only [updatedPlan, map_map]
    rfl
  refine ⟨hids, fun b hb c hc i hi r hr hbr hcr hir => ?_, by simp [updatedPlan, hcurrent]⟩
  obtain ⟨i', hi', rfl⟩ := mem_map.1 hr
  rw [hids] at hresult
  obtain rfl : i = i' := inj_on_of_nodup_map hresult hi hi' hir
  have hfoundBase : taskById (some base) i.id = some b := by
    rw [hir, ← hbr]
    exact taskById_of_mem hbase hb
  have hfoundCurrent : taskById s.snapshot i.id = some c := by
    rw [hcurrent, hir, ← hcr]
    exact taskById_of_mem hnow hc
  have hrebasing : decide (input.expectedRevision ≠ revisionOf s.snapshot) = true :=
    decide_eq_true hother
  rw [hfoundBase, hfoundCurrent, hrebasing]
  exact updatedTask_merged b c now i

/-! ## Every reachable runtime -/

/-- The answer of a runtime that is disposed: the one diagnostic says so. -/
def RefusedAsDisposed (answer : Answer) : Prop :=
  ∃ result, answer = .ok result ∧ result.status = .invalid ∧
    result.diagnostics.map (·.code) = ["runtime_disposed"]

/-- The guard stands before everything else that the update does. -/
theorem updatePlan_of_disposed (hdisposed : s.disposed = true) {now : ℚ} {newPlanId : String}
    {value : Json} :
    RefusedAsDisposed (updatePlan host now newPlanId value s).1 ∧
      (updatePlan host now newPlanId value s).2 = s := by
  rw [updatePlan, if_pos hdisposed]
  exact ⟨⟨_, rfl, rfl, rfl⟩, rfl⟩

/-- **An update of another revision that is accepted merges every task into the current plan, if
the structure is the same; and if the structure has changed, or the revision is not remembered, the
answer is a conflict and nothing changes. After `dispose` every update is refused as such.** -/
theorem updatePlan_rebases (host : Host) (minimumIntervalMs : ℚ) (entries : List SessionEntry)
    (session : TaskSession)
    (hreach : Reaches (step host minimumIntervalMs) (fun _ _ => True) (openSession host entries)
      session) (now : ℚ) (newPlanId : String) (value : Json) :
    let r := updatePlan host now newPlanId value session.runtime
    (session.runtime.disposed = true → RefusedAsDisposed r.1 ∧ r.2 = session.runtime) ∧
    ∀ input, session.runtime.disposed = false → validateTasksUpdateInput host value = .ok input →
      input.expectedRevision ≠ revisionOf session.runtime.snapshot →
      (∀ current base, session.runtime.snapshot = some current →
        session.runtime.snapshotHistory.get? input.expectedRevision = some base →
        SameStructure base current → accepted r.1 = true →
          ∃ next, r.2.snapshot = some next ∧ MergedPlan base current input next) ∧
      ((∀ current base, session.runtime.snapshot = some current →
          session.runtime.snapshotHistory.get? input.expectedRevision = some base →
          ¬SameStructure base current) →
        (∃ result, r.1 = .ok result ∧ result.status = .revisionConflict) ∧
          r.2 = session.runtime) := by
  have hplans : Snapshots (Acceptable host) session.runtime :=
    reaches_snapshots (fun _ _ => validateDynamicTaskPlan_sound) hreach
  intro r
  have hr : r = updatePlan host now newPlanId value session.runtime := rfl
  refine ⟨fun hdisposed => ?_, fun input hlive hinput hother => ?_⟩
  · rw [hr]
    exact updatePlan_of_disposed hdisposed
  simp only [updatePlan, hlive, Bool.false_eq_true, if_false, hinput] at hr
  constructor
  · intro current base hcurrent hbase hsame haccepted
    rw [hr] at haccepted ⊢
    cases hfound : baseSnapshot session.runtime input.expectedRevision with
    | none => rw [hfound] at haccepted; cases haccepted
    | some found =>
      obtain ⟨current', base', hcurrent', hbase', rfl, -⟩ := baseSnapshot_eq_some hother hfound
      obtain rfl : base' = base := Option.some.inj (hbase'.symm.trans hbase)
      simp only [hfound] at haccepted ⊢
      split at haccepted
      next => cases haccepted
      next hnotInitial =>
      split at haccepted
      next => cases haccepted
      next hnotExisting =>
      split at haccepted
      next => cases haccepted
      next result hvalid =>
      split at haccepted
      next => cases haccepted
      next hchanged =>
      rw [if_neg hnotInitial, if_neg hnotExisting]
      simp only [if_neg hchanged]
      have hstores : (acceptSnapshot host
          (updatedPlan session.runtime (some base') input now newPlanId) session.runtime).snapshot =
          some (updatedPlan session.runtime (some base') input now newPlanId) := by
        rw [acceptSnapshot, hlive]
        rfl
      refine ⟨_, hstores, updatedPlan_merged hcurrent hother (ids_nodup (hplans.history _ _ hbase))
        (ids_nodup (hplans.current _ hcurrent)) ?_⟩
      exact ids_nodup (validateDynamicTaskPlan_sound (valid_of_validated hvalid))
  · intro hchanged
    have hnone : baseSnapshot session.runtime input.expectedRevision = none := by
      cases hfound : baseSnapshot session.runtime input.expectedRevision with
      | none => rfl
      | some found =>
        obtain ⟨current, base, hcurrent, hbase, -, hsame⟩ := baseSnapshot_eq_some hother hfound
        exact absurd hsame (hchanged current base hcurrent hbase)
    rw [hr, hnone]
    exact ⟨⟨_, rfl, rfl⟩, rfl⟩

/-! ## Runs -/

/-- A plan, and a tool call that makes its task active. -/
def startedTrace : List Event :=
  [.call 10 (.updatePlan "plan-1" (plainUpdate 0 "initial_plan" "pending")),
    .call 20 (.noteToolStarted (plainStart "call-1"))]

/-- The session after that. -/
def startedSession : TaskSession :=
  (runFrom (step plainHost 0) (openSession plainHost []) startedTrace).getD
    (openSession plainHost [])

/-- An update of the first revision with another goal; its task is still pending. -/
def goalUpdate : Json :=
  .obj [("version", .num 1), ("expectedRevision", .nat 1), ("reason", .str "plan_changed"),
    ("goal", .str "Ship the parser today"),
    ("tasks", .arr [.obj [("id", .str "parser"), ("title", .str "Run the parser tests"),
      ("status", .str "pending"), ("matchHints", .arr [.str "npm test"])]])]

/-- A value that is read as an update of a revision. -/
theorem exists_input (value : Json) (revision : Nat)
    (h : (validateTasksUpdateInput plainHost value).toOption.map (·.expectedRevision) =
      some revision) :
    ∃ input, validateTasksUpdateInput plainHost value = .ok input ∧
      input.expectedRevision = revision := by
  cases hinput : validateTasksUpdateInput plainHost value with
  | error e =>
    rw [hinput] at h
    cases h
  | ok input =>
    rw [hinput] at h
    exact ⟨input, rfl, Option.some.inj h⟩

theorem startedSession_runs :
    runFrom (step plainHost 0) (openSession plainHost []) startedTrace = some startedSession := by
  unfold startedSession
  cases hfound : runFrom (step plainHost 0) (openSession plainHost []) startedTrace with
  | none =>
    have hsome : (runFrom (step plainHost 0) (openSession plainHost []) startedTrace).isSome =
        true := by decide
    rw [hfound] at hsome
    cases hsome
  | some session => rfl

/-- What the session holds, and that it accepts the update. -/
theorem startedSession_plans :
    startedSession.runtime.disposed = false ∧ revisionOf startedSession.runtime.snapshot ≠ 1 ∧
      (startedSession.runtime.snapshotHistory.get? 1).map stablePlanStructure =
        startedSession.runtime.snapshot.map stablePlanStructure ∧
      (startedSession.runtime.snapshotHistory.get? 1).map (fun plan => plan.tasks.map (·.status)) =
        some [.pending] ∧
      startedSession.runtime.snapshot.map (fun plan => plan.tasks.map (·.status)) =
        some [.active] ∧
      accepted (updatePlan plainHost 30 "plan-2" goalUpdate startedSession.runtime).1 = true := by
  decide +kernel

/-- The update changes the goal and leaves the task active. -/
theorem updatePlan_rebases_startedTask :
    ∃ base current input next,
      startedSession.runtime.snapshotHistory.get? 1 = some base ∧
      base.tasks.map (·.status) = [.pending] ∧
      startedSession.runtime.snapshot = some current ∧
      current.tasks.map (·.status) = [.active] ∧
      (updatePlan plainHost 30 "plan-2" goalUpdate startedSession.runtime).2.snapshot = some next ∧
      MergedPlan base current input next := by
  obtain ⟨hlive, hother, hstructure, hbaseStatus, hcurrentStatus, haccepted⟩ :=
    startedSession_plans
  obtain ⟨base, hbase, hpending⟩ := Option.map_eq_some_iff.1 hbaseStatus
  obtain ⟨current, hcurrent, hactive⟩ := Option.map_eq_some_iff.1 hcurrentStatus
  obtain ⟨input, hinput, hrevision⟩ := exists_input goalUpdate 1 (by decide +kernel)
  rw [hbase, hcurrent] at hstructure
  have hreach : Reaches (step plainHost 0) (fun _ _ => True) (openSession plainHost [])
      startedSession := reaches_of_runFrom _ _ _ _ .refl (along_true _ _) startedSession_runs
  have hmerge := ((updatePlan_rebases plainHost 0 [] startedSession hreach 30 "plan-2"
    goalUpdate).2 input hlive hinput (by rw [hrevision]; exact hother.symm)).1 current base hcurrent
    (by rw [hrevision, hbase]) (stablePlanStructure_eq_iff.1 (Option.some.inj hstructure)) haccepted
  obtain ⟨next, hnext, hmerged⟩ := hmerge
  exact ⟨base, current, input, next, hbase, hpending, hcurrent, hactive, hnext, hmerged⟩

/-- A disposed runtime answers without looking at the revision. -/
theorem disposed_not_conflict :
    ∃ session, Reaches (step plainHost 0) (fun _ _ => True) (openSession plainHost []) session ∧
      (∃ input, validateTasksUpdateInput plainHost (plainUpdate 7 "plan_changed" "pending") =
        .ok input) ∧
      session.runtime.snapshotHistory.get? 7 = none ∧
      ∀ result, (updatePlan plainHost 30 "plan-2" (plainUpdate 7 "plan_changed" "pending")
        session.runtime).1 = .ok result → result.status ≠ .revisionConflict := by
  obtain ⟨input, hinput, -⟩ := exists_input (plainUpdate 7 "plan_changed" "pending") 7
    (by decide +kernel)
  refine ⟨_, reaches_of_runFrom [.dispose] _ _ _ .refl (along_true _ _) rfl, ⟨input, hinput⟩,
    rfl, ?_⟩
  rintro result ⟨⟩ hconflict
  cases hconflict

end BeauPi.Tasks
