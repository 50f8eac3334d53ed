import BeauPi.Workflow.Steps

/-!
# Shared writes exclude each other

A node that writes in the shared workspace runs alone, isolated nodes apart, across
all active workflows.  Each scheduling loop tests `canStart` on its own, against
statuses that the other loops change between its turns; the test is enough because
nothing but a turn of a pass makes a node that is not isolated start running, and a
turn is not interrupted.

* `LocalExclusion` — the nodes of one workflow are compatible with each other and with
  the running nodes of all others.
* `advance_localExclusion` — one event keeps it.
* `sharedWrite_exclusion` — **a running shared node excludes every other node that is
  not isolated**, in every reachable state.
-/

namespace BeauPi.Workflow

open Machine List

/-- Two write policies may run at the same time. -/
def Compatible (p q : WorkflowWritePolicy) : Prop :=
  (p = .shared → q = .isolated) ∧ (q = .shared → p = .isolated)

theorem Compatible.symm {p q : WorkflowWritePolicy} (h : Compatible p q) : Compatible q p :=
  ⟨h.2, h.1⟩

theorem compatible_isolated (q : WorkflowWritePolicy) : Compatible .isolated q :=
  ⟨fun h => (by cases h), fun _ => rfl⟩

/-- A node that passes `canStart` is compatible with everything that runs. -/
theorem canStart_compatible {active : List WorkflowNodeSnapshot} {n : WorkflowNodeSnapshot}
    (h : canStart active n = true) : ∀ m ∈ active, Compatible n.writePolicy m.writePolicy := by
  intro m hm
  unfold canStart at h
  cases hp : n.writePolicy with
  | isolated => exact compatible_isolated _
  | shared =>
    rw [hp] at h
    have hiso : m.writePolicy = .isolated := by simpa using all_eq_true.1 h m hm
    exact ⟨fun _ => hiso, fun hs => by rw [hiso] at hs; cases hs⟩
  | none =>
    rw [hp] at h
    have hnot : m.writePolicy ≠ .shared := by
      have hany : active.any (fun node => decide (node.writePolicy = .shared)) = false := by
        simpa using h
      simpa using any_eq_false.1 hany m hm
    exact ⟨fun hs => (by cases hs), fun hs => absurd hs hnot⟩

namespace ActiveWorkflow

/-- A node is running, with the given write policy. -/
def RunsWith (w : ActiveWorkflow) (id : String) (p : WorkflowWritePolicy) : Prop :=
  ∃ n, w.node? id = some n ∧ n.status = .running ∧ n.writePolicy = p

theorem mem_runningNodes {w : ActiveWorkflow} {id : String} {n : WorkflowNodeSnapshot}
    (hn : w.node? id = some n) (hr : n.status = .running) : n ∈ w.runningNodes := by
  unfold runningNodes
  rw [mem_filter, decide_eq_true_eq]
  exact ⟨(nodeById_some hn).1, hr⟩

/-- The running nodes of a workflow are compatible with each other and with the
running nodes of the other workflows. -/
def LocalExclusion (others : List WorkflowNodeSnapshot) (w : ActiveWorkflow) : Prop :=
  ∀ id p, w.RunsWith id p → (∀ m ∈ others, Compatible p m.writePolicy) ∧
    ∀ id' p', w.RunsWith id' p' → id ≠ id' → Compatible p p'

variable {others : List WorkflowNodeSnapshot} {w : ActiveWorkflow}

/-- If whatever is running was running before or is isolated, the exclusion is kept. -/
theorem LocalExclusion.of_subset {v : ActiveWorkflow} (h : LocalExclusion others w)
    (hsub : ∀ id p, v.RunsWith id p → w.RunsWith id p ∨ p = .isolated) :
    LocalExclusion others v := by
  intro id p hp
  rcases hsub id p hp with hw | rfl
  · refine ⟨(h id p hw).1, ?_⟩
    intro id' p' hp' hne
    rcases hsub id' p' hp' with hw' | rfl
    · exact (h id p hw).2 id' p' hw' hne
    · exact (compatible_isolated _).symm
  · exact ⟨fun m _ => compatible_isolated _, fun _ _ _ _ => compatible_isolated _⟩

theorem runsWith_of_endsNodes {v : ActiveWorkflow} (h : EndsNodes w.nodes v.nodes) {id : String}
    {p : WorkflowWritePolicy} (hv : v.RunsWith id p) : w.RunsWith id p := by
  obtain ⟨m, hm, hrun, rfl⟩ := hv
  obtain ⟨n, hn, hpol, hst | ⟨-, hterm⟩⟩ := h.before hm
  · exact ⟨n, hn, hst ▸ hrun, hpol.symm⟩
  · rw [hrun] at hterm; cases hterm

theorem LocalExclusion.of_endsNodes {v : ActiveWorkflow} (h : LocalExclusion others w)
    (hends : EndsNodes w.nodes v.nodes) : LocalExclusion others v :=
  h.of_subset fun _ _ hv => Or.inl (runsWith_of_endsNodes hends hv)

/-- Setting one node to running adds at most that node to the running nodes. -/
theorem runsWith_of_delegate {token : Nat} {d : NormalizedWorkflowNodeDefinition} {id : String}
    {p : WorkflowWritePolicy} (h : (w.delegate token d).RunsWith id p) :
    w.RunsWith id p ∨ id = d.id ∧ ∃ n, w.node? id = some n ∧ n.writePolicy = p := by
  obtain ⟨m, hm, hrun, rfl⟩ := h
  have hm : nodeById (updateNode d.id (fun n => { n with status := .running }) w.nodes) id =
    some m := hm
  unfold updateNode at hm
  rw [nodeById_map (fun n => by split <;> rfl)] at hm
  obtain ⟨n, hn, rfl⟩ := Option.map_eq_some_iff.1 hm
  by_cases hid : n.id = d.id
  · refine Or.inr ⟨(nodeById_some hn).2 ▸ hid, n, hn, ?_⟩
    rw [if_pos hid]
  · rw [if_neg hid] at hrun ⊢
    exact Or.inl ⟨n, hn, hrun, rfl⟩

theorem runsWith_of_startTurn {pass : Pass} {d : NormalizedWorkflowNodeDefinition} {id : String}
    {p : WorkflowWritePolicy} (h : (startTurn pass d).workflow.RunsWith id p) :
    pass.workflow.RunsWith id p ∨
      id = d.id ∧ ∃ n, pass.workflow.node? id = some n ∧ n.writePolicy = p := by
  by_cases hiso : d.writePolicy = .isolated
  · rw [startTurn_isolated pass hiso] at h
    exact Or.inl h
  · rw [startTurn_direct pass hiso] at h
    exact @runsWith_of_delegate (pass.workflow.registerCall d) pass.workflow.entered.length _ _ _ h

/-- A turn of a pass keeps the exclusion: a node that starts was tested against every
running node. -/
theorem LocalExclusion.turn {pass pass' : Pass} {d : NormalizedWorkflowNodeDefinition}
    {n : WorkflowNodeSnapshot} {dependencies : List WorkflowNodeSnapshot}
    (h : LocalExclusion others pass.workflow) (hn : pass.workflow.node? d.id = some n)
    (hturn : Turn others pass d n dependencies pass') : LocalExclusion others pass'.workflow := by
  cases hturn with
  | notPending => exact h
  | notReady => exact h
  | blocked => exact h
  | skip => exact h.of_endsNodes (endsNodes_finishNode rfl _ _ _ _)
  | start hpending _ _ _ hcan =>
    have hcompat := canStart_compatible hcan
    -- the candidate against the nodes of this workflow
    have hnew : ∀ id p, pass.workflow.RunsWith id p → Compatible n.writePolicy p := by
      rintro id p ⟨m, hm, hrun, rfl⟩
      exact hcompat m (mem_append_right _ (mem_runningNodes hm hrun))
    intro id p hp
    rcases runsWith_of_startTurn hp with hold | ⟨rfl, m, hm, rfl⟩
    · refine ⟨(h id p hold).1, ?_⟩
      intro id' p' hp' hne
      rcases runsWith_of_startTurn hp' with hold' | ⟨rfl, m, hm, rfl⟩
      · exact (h id p hold).2 id' p' hold' hne
      · rw [hn] at hm; cases hm
        exact (hnew id p hold).symm
    · rw [hn] at hm
      cases hm
      refine ⟨fun m hm => hcompat m (mem_append_left _ hm), ?_⟩
      intro id' p' hp' hne
      rcases runsWith_of_startTurn hp' with hold' | ⟨rfl, -⟩
      · exact hnew id' p' hold'
      · exact absurd rfl hne

/-- **One event keeps the exclusion.** -/
theorem advance_localExclusion {event : WorkflowEvent} {r : ActiveWorkflow × Bool}
    (hw : w.WellFormed) (h : LocalExclusion others w) (hr : w.advance others event = some r) :
    LocalExclusion others r.1 := by
  by_cases hresume : event = .resume
  · subst hresume
    rcases resume_cases hw hr with ⟨pass, -, hpass, rfl⟩ | ⟨-, rfl⟩ | ⟨-, rfl⟩
    · obtain ⟨pass', hpass', hexcl, -⟩ := schedulingPass_rule others
        (P := fun pass => LocalExclusion others pass.workflow) (G := fun _ _ _ => True) hw
        (along_true _ _) (h.of_endsNodes (by rw [beginPass_nodes]; exact .refl _))
        (fun pass d n deps pass' _ _ _ hn _ _ hturn _ hex => hex.turn hn hturn)
      rw [hpass] at hpass'
      cases hpass'
      exact hexcl.of_endsNodes (afterPass_endsNodes others pass)
    · exact h
    · exact h
  · by_cases hcreated : ∃ token, event = .worktreeCreated token
    · obtain ⟨token, rfl⟩ := hcreated
      obtain ⟨call, hc, rfl⟩ := Option.map_eq_some_iff.1 hr
      obtain ⟨hmem, rfl, hpoint⟩ := waitingCall?_some hc
      have hiso := hw.isolated call hmem (by simpa using hpoint)
      obtain ⟨n, hn, hpol⟩ := hw.core.snapshot (hw.core.known call hmem)
      -- the node that starts running here is isolated
      refine h.of_subset fun id p hp => ?_
      rcases runsWith_of_delegate hp with hold | ⟨rfl, m, hm, rfl⟩
      · exact Or.inl hold
      · have hm : nodeById w.nodes call.node.id = some m := hm
        rw [hn] at hm; cases hm
        exact Or.inr (hpol.trans hiso)
    · exact h.of_endsNodes (advance_endsNodes hr hresume fun token ht => hcreated ⟨token, ht⟩)

end ActiveWorkflow

/-! ## All workflows -/

/-- A node of an active workflow is running, with the given write policy. -/
def Runs (s : RuntimeState) (workflowId nodeId : String) (p : WorkflowWritePolicy) : Prop :=
  ∃ w, s.get? workflowId = some w ∧ w.isActive = true ∧ w.RunsWith nodeId p

/-- Whatever runs is compatible with whatever else runs. -/
def Exclusion (s : RuntimeState) : Prop :=
  ∀ i id p j id' p', Runs s i id p → Runs s j id' p' → (i ≠ j ∨ id ≠ id') → Compatible p p'

theorem mem_runningElsewhere {s : RuntimeState} {workflowId : String} {m : WorkflowNodeSnapshot} :
    m ∈ runningElsewhere s workflowId ↔
      ∃ j v, j ≠ workflowId ∧ s.get? j = some v ∧ v.isActive = true ∧ m ∈ v.runningNodes := by
  unfold runningElsewhere
  simp only [mem_flatMap, mem_filter, Bool.and_eq_true, decide_eq_true_eq, Prod.exists,
    OrderedMap.get?_eq_some]
  constructor
  · rintro ⟨j, v, ⟨hmem, hne, hact⟩, hm⟩; exact ⟨j, v, hne, hmem, hact, hm⟩
  · rintro ⟨j, v, hne, hmem, hact, hm⟩; exact ⟨j, v, ⟨hmem, hne, hact⟩, hm⟩

theorem wakeIf_runsWith {b : Bool} {w : ActiveWorkflow} {id : String} {p : WorkflowWritePolicy} :
    (wakeIf b w).RunsWith id p ↔ w.RunsWith id p := by
  unfold ActiveWorkflow.RunsWith ActiveWorkflow.node?
  rw [wakeIf_nodes]

/-- What runs after a workflow was stored. -/
theorem runs_store {s : RuntimeState} {k i id : String} {p : WorkflowWritePolicy}
    {r : ActiveWorkflow × Bool} (h : Runs (store s k r) i id p) :
    (i = k ∧ r.1.isActive = true ∧ r.1.RunsWith id p) ∨ (i ≠ k ∧ Runs s i id p) := by
  obtain ⟨w, hw, hact, hrun⟩ := h
  rw [get?_store] at hw
  split at hw
  · next heq =>
    cases hw
    rw [wakeIf_isActive] at hact
    exact Or.inl ⟨heq, hact, wakeIf_runsWith.1 hrun⟩
  · next hne =>
    obtain ⟨v, hv, rfl⟩ := Option.map_eq_some_iff.1 hw
    rw [wakeIf_isActive] at hact
    exact Or.inr ⟨hne, v, hv, hact, wakeIf_runsWith.1 hrun⟩

/-- Seen from one workflow, the exclusion is local. -/
theorem Exclusion.local {s : RuntimeState} (h : Exclusion s) {k : String} {w : ActiveWorkflow}
    (hw : s.get? k = some w) (hact : w.isActive = true)
    (hwf : Everywhere ActiveWorkflow.WellFormed s) : w.LocalExclusion (runningElsewhere s k) := by
  intro id p hp
  refine ⟨?_, fun id' p' hp' hne => h k id p k id' p' ⟨w, hw, hact, hp⟩ ⟨w, hw, hact, hp'⟩
    (Or.inr hne)⟩
  intro m hm
  obtain ⟨j, v, hne, hv, hvact, hmv⟩ := mem_runningElsewhere.1 hm
  unfold ActiveWorkflow.runningNodes at hmv
  rw [mem_filter, decide_eq_true_eq] at hmv
  have hfind := nodeById_of_mem (hwf j v hv).core.nodup hmv.1
  exact h k id p j m.id m.writePolicy ⟨w, hw, hact, hp⟩ ⟨v, hv, hvact, m, hfind, hmv.2, rfl⟩
    (Or.inl hne.symm)

/-- Storing a workflow that is locally exclusive keeps the exclusion. -/
theorem Exclusion.store {s : RuntimeState} (h : Exclusion s) {k : String}
    {r : ActiveWorkflow × Bool}
    (hr : r.1.isActive = true → r.1.LocalExclusion (runningElsewhere s k)) :
    Exclusion (store s k r) := by
  -- a node of the stored workflow against a node of another one
  have hcross : ∀ id p j id' p', r.1.isActive = true → r.1.RunsWith id p → j ≠ k →
      Runs s j id' p' → Compatible p p' := by
    rintro id p j id' p' hact hp hne ⟨v, hv, hvact, m, hm, hrun, rfl⟩
    exact (hr hact id p hp).1 m (mem_runningElsewhere.2 ⟨j, v, hne, hv, hvact,
      ActiveWorkflow.mem_runningNodes hm hrun⟩)
  intro i id p j id' p' hi hj hne
  rcases runs_store hi with ⟨rfl, hact, hp⟩ | ⟨hik, hi⟩
  · rcases runs_store hj with ⟨rfl, -, hp'⟩ | ⟨hjk, hj⟩
    · exact (hr hact id p hp).2 id' p' hp' (hne.resolve_left fun hf => hf rfl)
    · exact hcross id p j id' p' hact hp hjk hj
  · rcases runs_store hj with ⟨hjk, hact, hp'⟩ | ⟨hjk, hj⟩
    · exact (hcross id' p' i id p hact hp' hik hi).symm
    · exact h i id p j id' p' hi hj hne

theorem started_runs_nothing {profiles : Profiles} {input : WorkflowDefinition}
    {task : Option String} {aborted : Bool} {w : ActiveWorkflow}
    (h : started profiles input task aborted = .ok w) (id : String) (p : WorkflowWritePolicy) :
    ¬ w.RunsWith id p := by
  obtain ⟨definition, -, rfl⟩ := started_spec h
  have hinit : ∀ n ∈ (ActiveWorkflow.initial definition).nodes, n.status = .pending := by
    intro n hn
    obtain ⟨d, -, rfl⟩ := mem_map.1 hn
    rfl
  have hnone : ¬ (ActiveWorkflow.initial definition).RunsWith id p := by
    rintro ⟨n, hn, hrun, -⟩
    rw [hinit n (nodeById_some hn).1] at hrun
    cases hrun
  cases aborted with
  | false => exact hnone
  | true =>
    intro hrun
    exact hnone (ActiveWorkflow.runsWith_of_endsNodes (endsNodes_finishPending rfl _ _ _) hrun)

/-- Every step of the runtime keeps the exclusion. -/
theorem step_exclusion {profiles : Profiles} {s t : RuntimeState} {e : RuntimeEvent}
    (hwf : Everywhere ActiveWorkflow.WellFormed s) (hs : Exclusion s)
    (h : step profiles s e = some t) : Exclusion t := by
  rcases step_cases h with ⟨-, -, -, -, -, -, -, rfl⟩ | ⟨k, input, task, aborted, w, -, -, hw, rfl⟩ |
    ⟨k, event, w, r, -, hw, hr, rfl⟩
  · exact hs
  · exact hs.store fun _ id p hp => absurd hp (started_runs_nothing hw id p)
  · refine hs.store fun hact => ?_
    exact ActiveWorkflow.advance_localExclusion (hwf k w hw)
      (hs.local hw (ActiveWorkflow.advance_isActive hr hact) hwf) hr

/-- **Shared writes are exclusive.**  In every reachable state, while a node that writes
in the shared workspace is running, every other running node of any active workflow is
isolated. -/
theorem sharedWrite_exclusion {profiles : Profiles} {s : RuntimeState}
    (h : Reaches (step profiles) (fun _ _ => True) .empty s)
    {i j : String} {w v : ActiveWorkflow} {n m : WorkflowNodeSnapshot}
    (hw : s.get? i = some w) (hwact : w.isActive = true) (hn : n ∈ w.nodes)
    (hnrun : n.status = .running) (hshared : n.writePolicy = .shared)
    (hv : s.get? j = some v) (hvact : v.isActive = true) (hm : m ∈ v.nodes)
    (hmrun : m.status = .running) (hother : i ≠ j ∨ n.id ≠ m.id) :
    m.writePolicy = .isolated := by
  have hinv : Everywhere ActiveWorkflow.WellFormed s ∧ Exclusion s := by
    refine reaches_invariant (I := fun s => Everywhere ActiveWorkflow.WellFormed s ∧ Exclusion s)
      ⟨everywhere_empty _, ?_⟩ ?_ h
    · rintro i id p j id' p' ⟨w, hw, -⟩
      cases hw
    · rintro u e t ⟨hwf, hex⟩ - hstep
      exact ⟨step_wellFormed hwf hstep, step_exclusion hwf hex hstep⟩
  obtain ⟨hwf, hex⟩ := hinv
  have hnfind := nodeById_of_mem (hwf i w hw).core.nodup hn
  have hmfind := nodeById_of_mem (hwf j v hv).core.nodup hm
  exact (hex i n.id .shared j m.id m.writePolicy ⟨w, hw, hwact, n, hnfind, hnrun, hshared⟩
    ⟨v, hv, hvact, m, hmfind, hmrun, rfl⟩ hother).1 rfl

/-- A shared node and an isolated node that run at the same time. -/
def sharedTrace : List RuntimeEvent :=
  [.start "wf" (plainDefinition [plainNode "iso" .isolated [], plainNode "write" .shared []]) none
    false,
   .workflow "wf" .resume,
   .workflow "wf" (.worktreeCreated 0)]

theorem sharedWrite_exclusion_sharedTrace :
    ∃ s w n m, runFrom (step plainProfiles) .empty sharedTrace = some s ∧ s.get? "wf" = some w ∧
      n ∈ w.nodes ∧ n.status = .running ∧ n.writePolicy = .shared ∧
      m ∈ w.nodes ∧ m.status = .running ∧ n.id ≠ m.id ∧ m.writePolicy = .isolated := by
  have hrun : ((workflowAfter sharedTrace "wf").map fun w => (w.isActive,
      (w.node? "write").map fun n => (n.status, n.writePolicy),
      (w.node? "iso").map fun n => n.status)) =
      some (true, some (.running, .shared), some .running) := by decide
  obtain ⟨w, hw, heq⟩ := Option.map_eq_some_iff.1 hrun
  obtain ⟨s, hs, hget⟩ := Option.bind_eq_some_iff.1 hw
  simp only [Prod.mk.injEq, Option.map_eq_some_iff] at heq
  obtain ⟨hact, ⟨n, hn, hnrun, hshared⟩, m, hm, hmrun⟩ := heq
  have hreach : Reaches (step plainProfiles) (fun _ _ => True) .empty s :=
    reaches_of_runFrom sharedTrace .empty .empty s .refl (along_true _ _) hs
  have hne : n.id ≠ m.id := by
    rw [(nodeById_some hn).2, (nodeById_some hm).2]
    decide
  refine ⟨s, w, n, m, hs, hget, (nodeById_some hn).1, hnrun, hshared, (nodeById_some hm).1, hmrun,
    hne, ?_⟩
  exact sharedWrite_exclusion hreach hget hact (nodeById_some hn).1 hnrun hshared hget hact
    (nodeById_some hm).1 hmrun (Or.inr hne)

end BeauPi.Workflow
