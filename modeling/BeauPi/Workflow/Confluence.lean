import BeauPi.Workflow.Outcome

/-!
# The schedule does not matter

A workflow whose nodes neither stop the whole workflow nor use a worktree, run to its end
without a cancellation by agents that answer each prompt of a node in one way, ends the
same under every order of completions, every concurrency limit and next to any other
workflows.  Every state of such a run keeps the rules of `Outcome`, and the end of the
run is their only solution.

* `FollowsAgent` — the events of one workflow are not a cancellation, and its agents
  answer as the given function says.
* `Consistent` — the invariant.
* `schedule_independence` — **any two runs end with the same statuses and outputs.**
-/

namespace BeauPi.Workflow

open Machine ActiveWorkflow List
open Option (map_eq_some_iff map_some)

/-- No node stops the workflow when it fails, and none needs a worktree. -/
def Independent (definition : NormalizedWorkflowDefinition) : Prop :=
  ∀ d ∈ definition.nodes, d.failurePolicy ≠ .failWorkflow ∧ d.writePolicy ≠ .isolated

/-- What holds of a suspended call: its controller is not aborted, its node has started,
and it waits for the agent with the prompt of its node or has returned. -/
structure CallRule (nodes : List WorkflowNodeSnapshot) (c : RunNodeCall) : Prop where
  alive : c.aborted = false
  started : ∀ n, nodeById nodes c.node.id = some n → n.status ≠ .pending
  point : c.point = .returned ∨
    c.point = .delegating (nodePrompt c.node nodes) ∧
      ∃ n, nodeById nodes c.node.id = some n ∧ n.status = .running

/-- The invariant of a workflow in a run that follows an agent function. -/
structure Consistent (agent : AgentFunction) (w : ActiveWorkflow) : Prop where
  wellFormed : w.WellFormed
  kept : w.PromiseKept
  independent : Independent w.definition
  notCancelled : w.cancelRequested = false
  notFailed : w.failureNodeId = none
  calls : ∀ c ∈ w.calls, CallRule w.nodes c
  rules : Rules agent w.definition.nodes w.nodes
  /-- A node that was entered had its dependencies ended and its condition true. -/
  entered : ∀ d ∈ w.definition.nodes, d.id ∈ w.entered → Ready w.nodes d ∧
    evaluateWorkflowCondition d.condition (dependencySnapshots w.nodes d) = .ok true

variable {agent : AgentFunction} {others : List WorkflowNodeSnapshot} {w : ActiveWorkflow}

theorem CallRule.keep {nodes nodes' : List WorkflowNodeSnapshot} {c : RunNodeCall}
    {n : WorkflowNodeSnapshot} (h : CallRule nodes c) (hn : nodeById nodes c.node.id = some n)
    (hready : n.status = .running → Ready nodes c.node) (hf : Frozen nodes nodes')
    (hsame : nodeById nodes' c.node.id = some n) : CallRule nodes' c := by
  refine ⟨h.alive, ?_, ?_⟩
  · intro m hm
    rw [hsame] at hm
    cases hm
    exact h.started n hn
  · rcases h.point with hret | ⟨hdel, m, hm, hrun⟩
    · exact Or.inl hret
    · rw [hn] at hm
      cases hm
      have hsnap := (hready hrun).snapshots_frozen hf
      exact Or.inr ⟨by rw [hdel, nodePrompt_congr hsnap], n, hsame, hrun⟩

theorem Consistent.snapshot (h : Consistent agent w) {c : RunNodeCall} (hc : c ∈ w.calls) :
    ∃ n, nodeById w.nodes c.node.id = some n ∧
      NodeRule agent w.definition.nodes w.nodes c.node n := by
  have hd := h.wellFormed.core.known c hc
  obtain ⟨n, hn, -⟩ := h.wellFormed.core.snapshot hd
  exact ⟨n, hn, h.rules c.node hd n hn⟩

/-- The calls whose node did not change keep their rule. -/
theorem Consistent.keepCall (h : Consistent agent w) {nodes' : List WorkflowNodeSnapshot}
    (hf : Frozen w.nodes nodes') {c : RunNodeCall} (hc : c ∈ w.calls)
    (hsame : nodeById nodes' c.node.id = nodeById w.nodes c.node.id) : CallRule nodes' c := by
  obtain ⟨n, hn, hrule⟩ := h.snapshot hc
  exact CallRule.keep (h.calls c hc) hn (fun hrun => (hrule.running hrun).2.1) hf (hsame.trans hn)

theorem Consistent.keepEntered (h : Consistent agent w) {nodes' : List WorkflowNodeSnapshot}
    (hf : Frozen w.nodes nodes') {d : NormalizedWorkflowNodeDefinition}
    (hd : d ∈ w.definition.nodes) (hent : d.id ∈ w.entered) : Ready nodes' d ∧
      evaluateWorkflowCondition d.condition (dependencySnapshots nodes' d) = .ok true := by
  obtain ⟨hready, hcond⟩ := h.entered d hd hent
  exact ⟨hready.frozen hf, by rw [hready.snapshots_frozen hf]; exact hcond⟩

/-- Only nodes without a suspended call are started: a pending node has none. -/
theorem Consistent.not_reenters {pass : Pass} (h : Consistent agent pass.workflow)
    (d : NormalizedWorkflowNodeDefinition) : ¬ Reenters others pass d := by
  rintro ⟨⟨n, -, hn, -, hp, -⟩, c, hc, hid⟩
  exact (h.calls c hc).started n (by rw [hid]; exact hn) hp

/-! ## Turns of a pass -/

theorem ready_of_dependencies {nodes dependencies : List WorkflowNodeSnapshot}
    {d : NormalizedWorkflowNodeDefinition}
    (hdeps : d.dependsOn.mapM (nodeById nodes) = some dependencies)
    (hall : ∀ m ∈ dependencies, isWorkflowNodeTerminal m.status = true) : Ready nodes d := by
  intro x hx
  have hpairs := mapM_eq_some hdeps
  have : ∃ m ∈ dependencies, nodeById nodes x = some m := by
    clear hdeps hall
    generalize d.dependsOn = ids at hpairs hx
    induction hpairs with
    | nil => exact absurd hx not_mem_nil
    | @cons a b _ _ hab _ ih =>
      rcases List.mem_cons.1 hx with rfl | hx
      · exact ⟨b, mem_cons_self .., hab⟩
      · obtain ⟨m, hm, hfind⟩ := ih hx
        exact ⟨m, mem_cons_of_mem _ hm, hfind⟩
  obtain ⟨m, hm, hfind⟩ := this
  exact ⟨m, hfind, hall m hm⟩

variable {pass : Pass} {d : NormalizedWorkflowNodeDefinition} {n : WorkflowNodeSnapshot}
  {dependencies : List WorkflowNodeSnapshot}
  (h : Consistent agent pass.workflow) (hd : d ∈ pass.workflow.definition.nodes)
  (hn : pass.workflow.node? d.id = some n)
  (hdeps : d.dependsOn.mapM pass.workflow.node? = some dependencies)

include h hd hn hdeps in
theorem Consistent.skipTurn
    (hturn : Turn others pass d n dependencies (skipTurn pass d)) (hp : n.status = .pending)
    (hall : ∀ m ∈ dependencies, isWorkflowNodeTerminal m.status = true)
    (hcond : evaluateWorkflowCondition d.condition dependencies = .ok false) :
    Consistent agent (ActiveWorkflow.skipTurn pass d).workflow := by
  have hrule := h.rules d hd n hn
  have hready := ready_of_dependencies hdeps hall
  have hsnap := dependencySnapshots_of_mapM hdeps
  have hlook : ∀ x, nodeById (ActiveWorkflow.skipTurn pass d).workflow.nodes x =
      if x = d.id then some (skippedNode d) else nodeById pass.workflow.nodes x := by
    intro x
    refine Eq.trans (nodeById_updateNode (finishNode_id _ _ _) d.id pass.workflow.nodes x) ?_
    by_cases hx : x = d.id
    · subst hx
      have hn : nodeById pass.workflow.nodes d.id = some n := hn
      rw [if_pos rfl, if_pos rfl, hn, hrule.pending hp]
      rfl
    · rw [if_neg hx, if_neg hx]
  obtain ⟨hf, hrules⟩ := h.rules.change h.wellFormed.core.valid.nodup hd hn
    (by rw [hp]; rfl) hlook (fun hfail => by cases hfail) (fun hf hdoom => by
      refine ⟨fun hs => (by cases hs), fun hs => (by cases hs), ?_, ?_⟩
      · intro _ _
        have hfsnap := hready.snapshots_frozen hf
        exact ⟨hready.frozen hf, false, by rw [hfsnap, hsnap]; exact hcond, rfl⟩
      · intro hdd
        exact absurd (hdoom hdd) (hrule.not_doomed (by rw [hp]; simp)))
  refine ⟨h.wellFormed.turn hd hturn, h.kept.turn h.wellFormed hn hdeps hturn (h.not_reenters d),
    h.independent, h.notCancelled, h.notFailed, ?_, hrules, ?_⟩
  · intro c hc
    refine h.keepCall hf hc ?_
    rw [hlook, if_neg]
    intro hid
    exact (h.calls c hc).started n (by rw [hid]; exact hn) hp
  · intro e he hent
    exact h.keepEntered hf he hent

/-- The calls after a node started its agent at once. -/
theorem mem_startTurn_calls {pass : Pass} {d : NormalizedWorkflowNodeDefinition}
    (hwf : pass.workflow.WellFormed) (hiso : d.writePolicy ≠ .isolated) {c : RunNodeCall}
    (hc : c ∈ (startTurn pass d).workflow.calls) :
    c ∈ pass.workflow.calls ∨ c = ⟨pass.workflow.entered.length, d,
      .delegating (nodePrompt d (startTurn pass d).workflow.nodes), false⟩ := by
  rw [startTurn_direct pass hiso] at hc ⊢
  obtain ⟨b, hb, rfl⟩ := List.mem_map.1 hc
  rcases List.mem_append.1 hb with hb | hb
  · have hlt : b.token < pass.workflow.entered.length :=
      (List.getElem?_eq_some_iff.1 (hwf.core.logged b hb)).1
    rw [if_neg (by omega)]
    exact Or.inl hb
  · rw [List.mem_singleton.1 hb]
    exact Or.inr (if_pos rfl)

include h hd hn hdeps in
theorem Consistent.startTurn
    (hturn : Turn others pass d n dependencies (startTurn pass d)) (hp : n.status = .pending)
    (hall : ∀ m ∈ dependencies, isWorkflowNodeTerminal m.status = true)
    (hcond : evaluateWorkflowCondition d.condition dependencies = .ok true) :
    Consistent agent (ActiveWorkflow.startTurn pass d).workflow := by
  have hrule := h.rules d hd n hn
  have hready := ready_of_dependencies hdeps hall
  have hsnap := dependencySnapshots_of_mapM hdeps
  have hiso := (h.independent d hd).2
  have hlook : ∀ x, nodeById (ActiveWorkflow.startTurn pass d).workflow.nodes x =
      if x = d.id then some (startedNode d) else nodeById pass.workflow.nodes x := by
    intro x
    rw [startTurn_direct pass hiso]
    have hup := nodeById_updateNode (f := fun node => { node with status := .running })
      (fun _ => rfl) d.id pass.workflow.nodes x
    refine Eq.trans hup ?_
    by_cases hx : x = d.id
    · subst hx
      have hn : nodeById pass.workflow.nodes d.id = some n := hn
      rw [if_pos rfl, if_pos rfl, hn, hrule.pending hp]
      rfl
    · rw [if_neg hx, if_neg hx]
  have hnew : Frozen pass.workflow.nodes (ActiveWorkflow.startTurn pass d).workflow.nodes →
      Ready (ActiveWorkflow.startTurn pass d).workflow.nodes d ∧
      evaluateWorkflowCondition d.condition
        (dependencySnapshots (ActiveWorkflow.startTurn pass d).workflow.nodes d) = .ok true := by
    intro hf
    exact ⟨hready.frozen hf, by rw [hready.snapshots_frozen hf, hsnap]; exact hcond⟩
  obtain ⟨hf, hrules⟩ := h.rules.change h.wellFormed.core.valid.nodup hd hn
    (by rw [hp]; rfl) hlook (fun hfail => by cases hfail) (fun hf hdoom =>
      ⟨fun hs => (by cases hs), fun _ => ⟨rfl, hnew hf⟩, fun hs => (by cases hs),
        fun hdd => absurd (hdoom hdd) (hrule.not_doomed (by rw [hp]; simp))⟩)
  have hsame : ∀ {c : RunNodeCall}, c ∈ pass.workflow.calls → c.node.id ≠ d.id := by
    intro c hc hid
    exact (h.calls c hc).started n (by rw [hid]; exact hn) hp
  have hdef := turn_definition hturn
  have hframe : (ActiveWorkflow.startTurn pass d).workflow.cancelRequested =
      pass.workflow.cancelRequested ∧ (ActiveWorkflow.startTurn pass d).workflow.failureNodeId =
      pass.workflow.failureNodeId := by
    rw [startTurn_direct pass hiso]
    exact ⟨rfl, rfl⟩
  refine ⟨h.wellFormed.turn hd hturn, h.kept.turn h.wellFormed hn hdeps hturn (h.not_reenters d),
    hdef.symm ▸ h.independent, hframe.1.trans h.notCancelled, hframe.2.trans h.notFailed, ?_,
    hdef.symm ▸ hrules, ?_⟩
  · intro c hc
    rcases mem_startTurn_calls h.wellFormed hiso hc with hold | rfl
    · refine h.keepCall hf hold ?_
      rw [hlook, if_neg (hsame hold)]
    · have hstarted := hlook d.id
      rw [if_pos rfl] at hstarted
      refine ⟨rfl, ?_, Or.inr ⟨rfl, startedNode d, hstarted, rfl⟩⟩
      intro m hm
      have hm : nodeById (ActiveWorkflow.startTurn pass d).workflow.nodes d.id = some m := hm
      rw [hstarted] at hm
      cases hm
      simp [startedNode]
  · intro e he hent
    rw [hdef] at he
    rw [startTurn_entered] at hent
    rcases List.mem_append.1 hent with hent | hent
    · exact h.keepEntered hf he hent
    · have heq : e = d := inj_on_of_nodup_map h.wellFormed.core.valid.nodup he hd
        (List.mem_singleton.1 hent)
      subst heq
      exact hnew hf

include h hd hn hdeps in
/-- A turn of a pass keeps the invariant. -/
theorem Consistent.turn {pass' : Pass}
    (hturn : Turn others pass d n dependencies pass') : Consistent agent pass'.workflow := by
  cases hturn with
  | notPending => exact h
  | notReady => exact h
  | blocked => exact h
  | skip hp hall hcond =>
    exact h.skipTurn hd hn hdeps (Turn.skip hp hall hcond : Turn others _ _ _ _ _) hp hall hcond
  | start hp hall hcond hsize hcan =>
    exact h.startTurn hd hn hdeps (.start hp hall hcond hsize hcan) hp hall hcond

/-! ## The end of a call -/

theorem mem_dependentsOf {definition : NormalizedWorkflowDefinition} {a b : String} :
    b ∈ dependentsOf definition a ↔ Feeds definition.nodes a b := by
  unfold dependentsOf Feeds
  simp only [mem_map, mem_filter, contains_iff_mem]
  constructor
  · rintro ⟨d, ⟨hd, ha⟩, rfl⟩; exact ⟨d, hd, rfl, ha⟩
  · rintro ⟨d, hd, rfl, ha⟩; exact ⟨d, ⟨hd, ha⟩, rfl⟩

/-- The loop over the dependents finds everything below a node. -/
theorem mem_allDependentsOf {definition : NormalizedWorkflowDefinition} {a b : String} :
    b ∈ allDependentsOf definition a ↔ Relation.TransGen (Feeds definition.nodes) a b := by
  have hrel : (fun x y => y ∈ dependentsOf definition x) = Feeds definition.nodes := by
    funext x y
    exact propext mem_dependentsOf
  have hnext : ∀ x, dependentsOf definition x ⊆ nodeIds definition.nodes := by
    intro x y hy
    obtain ⟨d, hd, rfl, -⟩ := mem_dependentsOf.1 hy
    exact List.mem_map.2 ⟨d, hd, rfl⟩
  have h : b ∈ closure (dependentsOf definition) _ a ↔ _ :=
    mem_closure_iff (dependentsOf definition) hnext
  rw [hrel] at h
  unfold allDependentsOf
  have hlen : (nodeIds definition.nodes).length = definition.nodes.length := length_map _
  rw [hlen] at h
  exact h

theorem not_below_itself {definition : NormalizedWorkflowDefinition}
    (hvalid : ValidDefinition definition) {id : String} (hid : id ∈ nodeIds definition.nodes) :
    ¬ Relation.TransGen (Feeds definition.nodes) id id := by
  intro hpath
  have hsub : ∀ a b, Feeds definition.nodes a b → a ∈ dependenciesOf definition.nodes b := by
    rintro a b ⟨d, hd, rfl, ha⟩
    rw [dependenciesOf_mem hvalid.nodup hd]
    exact ha
  have hrel : Relation.TransGen
      (fun dependency id => dependency ∈ dependenciesOf definition.nodes id) id id :=
    Relation.TransGen.mono hsub _ _ hpath
  have hacc := (hvalid.acyclic id hid).transGen
  induction hacc with
  | intro id _ ih => exact ih id hrel hid hpath hrel

/-- The end of a call that got no worktree and skips no dependents. -/
theorem endRunNode_quiet (w : ActiveWorkflow) (call : RunNodeCall) (status output error)
    {failed : Bool} (hquiet : failed = true → call.node.failurePolicy = .continue) :
    (w.endRunNode call status output error failed false).1 =
      { (w.changeNode call.node.id (finishNode status output error)).moveCall call.token
          .returned with nodeControllers := w.nodeControllers.delete call.node.id } := by
  unfold endRunNode
  dsimp only
  cases failed with
  | false => rfl
  | true =>
    have hpolicy : ((w.changeNode call.node.id (finishNode status output error)).applyFailurePolicy
        call.node) = w.changeNode call.node.id (finishNode status output error) := by
      unfold applyFailurePolicy
      rw [hquiet rfl]
    rw [if_pos rfl, hpolicy]
    rfl

/-- The message that a node skipped because of a failure carries. -/
def upstreamFailure (id : String) : WorkflowError :=
  ⟨"upstream_failure", "Skipped because dependency " ++ id ++ " failed"⟩

/-- The end of a call that got no worktree and skips its dependents. -/
theorem endRunNode_skips (w : ActiveWorkflow) (call : RunNodeCall) (status output error)
    (hpolicy : call.node.failurePolicy = .skipDependents) :
    (w.endRunNode call status output error true false).1 =
      { w.moveCall call.token .returned with
        nodeControllers := w.nodeControllers.delete call.node.id
        nodes := finishPending
          (fun id => decide (id ∈ allDependentsOf w.definition call.node.id)) .skipped
          (upstreamFailure call.node.id)
          (updateNode call.node.id (finishNode status output error) w.nodes) } := by
  unfold endRunNode
  dsimp only
  rw [if_pos rfl]
  unfold applyFailurePolicy
  rw [hpolicy]
  rfl

/-- The call that ends has returned; the others wait as before. -/
theorem Consistent.endedCalls (h : Consistent agent w) {call : RunNodeCall}
    (hc : call ∈ w.calls) {nodes' : List WorkflowNodeSnapshot} (hf : Frozen w.nodes nodes')
    (hended : ∀ n, nodeById nodes' call.node.id = some n → n.status ≠ .pending)
    (hsame : ∀ id n, id ≠ call.node.id → nodeById w.nodes id = some n → n.status ≠ .pending →
      nodeById nodes' id = some n) :
    ∀ c ∈ (w.moveCall call.token .returned).calls, CallRule nodes' c := by
  intro c hcm
  obtain ⟨b, hb, rfl⟩ := List.mem_map.1 hcm
  by_cases ht : b.token = call.token
  · have heq : b = call := inj_on_of_nodup_map h.wellFormed.core.tokens hb hc ht
    subst heq
    rw [if_pos rfl]
    exact ⟨(h.calls b hb).alive, hended, Or.inl rfl⟩
  · rw [if_neg ht]
    have hne : b.node.id ≠ call.node.id := by
      intro hid
      exact ht (congrArg RunNodeCall.token
        (h.wellFormed.call_unique h.kept.entered hb hc hid))
    obtain ⟨n, hn, -⟩ := h.snapshot hb
    refine h.keepCall hf hb ?_
    rw [hn]
    exact hsame b.node.id n hne hn ((h.calls b hb).started n hn)

/-- **The end of a call keeps the invariant**, when its agent answered as it does. -/
theorem Consistent.endRunNode (h : Consistent agent w) {call : RunNodeCall} (hc : call ∈ w.calls)
    {prompt : String} (hpoint : call.point = .delegating prompt) {status : WorkflowNodeStatus}
    {output : Option AgentTaskResult} {error : Option WorkflowError}
    (hstatus : isWorkflowNodeTerminal status = true)
    (hanswer : finishNode status output error (startedNode call.node) =
      answeredNode call.node (agent call.node prompt)) :
    Consistent agent
      (w.endRunNode call status output error (nodeFailureStatus status) false).1 := by
  have hwf := h.wellFormed.endRunNode hc hstatus output error (nodeFailureStatus status) false
  have hkept := h.kept.of_frame
    (endRunNode_frame w call status output error (nodeFailureStatus status) false)
  have hd := h.wellFormed.core.known call hc
  obtain ⟨n, hn, hrule⟩ := h.snapshot hc
  -- the call was waiting with the prompt of its node, which was running
  obtain ⟨hprompt, hrun⟩ : prompt = nodePrompt call.node w.nodes ∧ n.status = .running := by
    rcases (h.calls call hc).point with hret | ⟨hdel, m, hm, hrun⟩
    · rw [hpoint] at hret; cases hret
    · rw [hn] at hm
      cases hm
      rw [hpoint] at hdel
      injection hdel with hdel
      exact ⟨hdel, hrun⟩
  have hfinish : finishNode status output error n =
      answeredNode call.node (agent call.node (nodePrompt call.node w.nodes)) := by
    rw [(hrule.running hrun).1, hanswer, hprompt]
  have hfinal : isWorkflowNodeTerminal
      (answeredNode call.node (agent call.node (nodePrompt call.node w.nodes))).status = true := by
    rw [← hfinish, finishNode_status (by rw [hrun]; rfl)]
    exact hstatus
  have hopen : isWorkflowNodeTerminal n.status = false := by rw [hrun]; rfl
  have hnp : ∀ {m : WorkflowNodeSnapshot}, isWorkflowNodeTerminal m.status = true →
      m.status ≠ .pending := by
    intro m ht hs; rw [hs] at ht; cases ht
  have hupdate : ∀ x, nodeById (updateNode call.node.id (finishNode status output error) w.nodes) x =
      if x = call.node.id then some (answeredNode call.node
        (agent call.node (nodePrompt call.node w.nodes))) else nodeById w.nodes x := by
    intro x
    rw [nodeById_updateNode (finishNode_id _ _ _)]
    by_cases hx : x = call.node.id
    · subst hx; rw [if_pos rfl, if_pos rfl, hn]; simp only [map_some, hfinish]
    · rw [if_neg hx, if_neg hx]
  by_cases hskip : nodeFailureStatus status = true ∧ call.node.failurePolicy = .skipDependents
  · -- the dependents are skipped
    obtain ⟨hfail, hpolicy⟩ := hskip
    rw [hfail] at hwf hkept ⊢
    rw [endRunNode_skips w call status output error hpolicy] at hwf hkept ⊢
    have hlook : ∀ x, nodeById (finishPending
        (fun id => decide (id ∈ allDependentsOf w.definition call.node.id)) .skipped
        (upstreamFailure call.node.id)
        (updateNode call.node.id (finishNode status output error) w.nodes)) x =
        if x = call.node.id then some (answeredNode call.node
          (agent call.node (nodePrompt call.node w.nodes)))
        else (nodeById w.nodes x).map (finishIfPending
          (fun id => decide (id ∈ allDependentsOf w.definition call.node.id)) .skipped
          (upstreamFailure call.node.id)) := by
      intro x
      unfold finishPending
      rw [nodeById_map (keepsIdentity_finishPending ..).id, hupdate]
      by_cases hx : x = call.node.id
      · rw [if_pos hx, if_pos hx]
        unfold finishIfPending
        simp only [map_some]
        rw [if_neg fun hp => hnp hfinal hp.1]
      · rw [if_neg hx, if_neg hx]
    obtain ⟨hf, hrules⟩ := h.rules.skipBelow h.wellFormed.core.valid.nodup hd
      (not_below_itself h.wellFormed.core.valid (List.mem_map.2 ⟨call.node, hd, rfl⟩)) hn hrun rfl
      hfinal (fun x => by rw [decide_eq_true_eq]; exact mem_allDependentsOf)
      ⟨⟨call.node, hd, rfl, hpolicy⟩, _, by rw [hlook, if_pos rfl], by
        rw [← hfinish, finishNode_status hopen]; exact hfail⟩ hlook
    have hcalls := h.endedCalls hc hf
      (by
        intro m hm
        rw [hlook, if_pos rfl] at hm
        cases hm
        exact hnp hfinal)
      (by
        intro id m hne hm hp
        rw [hlook, if_neg hne, hm]
        unfold finishIfPending
        simp only [map_some]
        rw [if_neg fun hpp => hp hpp.1])
    exact ⟨hwf, hkept, h.independent, h.notCancelled, h.notFailed, hcalls, hrules,
      fun e he hent => h.keepEntered hf he hent⟩
  · -- nothing else changes
    have hquiet : nodeFailureStatus status = true → call.node.failurePolicy = .continue := by
      intro hfail
      have hnot := (h.independent call.node hd).1
      cases hpol : call.node.failurePolicy with
      | failWorkflow => exact absurd hpol hnot
      | «continue» => rfl
      | skipDependents => exact absurd ⟨hfail, hpol⟩ hskip
    rw [endRunNode_quiet w call status output error hquiet] at hwf hkept ⊢
    obtain ⟨hf, hrules⟩ := h.rules.change h.wellFormed.core.valid.nodup hd hn hopen hupdate
      (fun hfail => by
        rw [← hfinish, finishNode_status hopen] at hfail
        rw [hquiet hfail]
        simp)
      (fun hf hdoom => answered_rule hrule hrun hf
        (fun hdd => hrule.not_doomed (by rw [hrun]; simp) (hdoom hdd)) hfinal)
    have hcalls := h.endedCalls hc hf
      (by
        intro m hm
        rw [hupdate, if_pos rfl] at hm
        cases hm
        exact hnp hfinal)
      (by
        intro id m hne hm _
        rw [hupdate, if_neg hne, hm])
    exact ⟨hwf, hkept, h.independent, h.notCancelled, h.notFailed, hcalls, hrules,
      fun e he hent => h.keepEntered hf he hent⟩

/-! ## One event -/

/-- Every node has ended. -/
def AllEnded (w : ActiveWorkflow) : Prop :=
  ∀ n ∈ w.nodes, isWorkflowNodeTerminal n.status = true

/-- Behind the `while` loop every node has ended, and in the `finally` block the status of
the workflow says how. -/
structure Staged (w : ActiveWorkflow) : Prop where
  draining : ∀ tokens, w.loop = .draining tokens → AllEnded w
  final : w.loop = .finalizing ∨ w.loop = .done → AllEnded w ∧ w.status = w.finalStatus

/-- The events of a workflow are not a cancellation, and its agents answer as the given
function says. -/
def FollowsEvent (agent : AgentFunction) (w : ActiveWorkflow) : WorkflowEvent → Prop
  | .requestCancel => False
  | .agentReturned token result => ∀ c prompt, w.call? token = some c →
      c.point = .delegating prompt → agent c.node prompt = .returned result
  | .agentThrew token message => ∀ c prompt, w.call? token = some c →
      c.point = .delegating prompt → agent c.node prompt = .threw message
  | _ => True

theorem Consistent.of_loop (h : Consistent agent w) (loop : ExecuteLoop) (status : WorkflowStatus) :
    Consistent agent { w with loop := loop, status := status } :=
  ⟨⟨h.wellFormed.core, h.wellFormed.isolated⟩, ⟨h.kept.entered, h.kept.running⟩, h.independent,
    h.notCancelled, h.notFailed, h.calls, h.rules, h.entered⟩

theorem Consistent.beginPass (h : Consistent agent w) : w.beginPass = ⟨w, false, false⟩ := by
  unfold ActiveWorkflow.beginPass
  rw [h.notCancelled, h.notFailed]
  rfl

theorem finishPending_eq_self {select : String → Bool} {status : WorkflowNodeStatus}
    {error : WorkflowError} {nodes : List WorkflowNodeSnapshot}
    (h : ∀ n ∈ nodes, n.status ≠ .pending) : finishPending select status error nodes = nodes := by
  unfold finishPending
  conv_rhs => rw [← map_id nodes]
  refine map_congr_left fun n hn => ?_
  unfold finishIfPending
  rw [if_neg fun hp => h n hn hp.1]
  rfl

/-- A loop that is not behind the `while` loop. -/
theorem staged_of_loop {loop : ExecuteLoop} (h : w.loop = loop)
    (hdraining : ∀ tokens, loop ≠ .draining tokens) (hfinalizing : loop ≠ .finalizing)
    (hdone : loop ≠ .done) : Staged w := by
  refine ⟨fun tokens hl => absurd (h.symm.trans hl) (hdraining tokens), ?_⟩
  rintro (hl | hl)
  · exact absurd (h.symm.trans hl) hfinalizing
  · exact absurd (h.symm.trans hl) hdone

theorem Consistent.afterPass {pass : Pass} (h : Consistent agent w)
    (hc : Consistent agent pass.workflow) (hpass : schedulingPass others w = .ok pass) :
    Consistent agent (afterPass others pass) ∧ Staged (afterPass others pass) := by
  unfold ActiveWorkflow.afterPass
  dsimp only
  split
  · exact ⟨hc.of_loop _ _, staged_of_loop rfl (by simp) (by simp) (by simp)⟩
  · next hsize =>
    split
    · exact ⟨hc.of_loop _ _, staged_of_loop rfl (by simp) (by simp) (by simp)⟩
    · next hidle =>
      split
      · exact ⟨hc.of_loop _ _, staged_of_loop rfl (by simp) (by simp) (by simp)⟩
      · next hothers =>
        have hnil : others = [] := by simpa using hothers
        subst hnil
        have hnone := pass_starts h.wellFormed h.kept hpass (by omega) (by simpa using hidle)
        have hsame : pass.workflow.schedulerDeadlock = pass.workflow := by
          unfold schedulerDeadlock
          rw [finishPending_eq_self hnone]
        rw [hsame]
        exact ⟨hc.of_loop _ _, staged_of_loop rfl (by simp) (by simp) (by simp)⟩

theorem Consistent.resume {r : ActiveWorkflow × Bool} (h : Consistent agent w) (hs : Staged w)
    (hr : w.resume others = some r) : Consistent agent r.1 ∧ Staged r.1 := by
  rcases resume_cases h.wellFormed hr with ⟨pass, -, hpass, rfl⟩ | ⟨hall, rfl⟩ |
    ⟨⟨tokens, hloop, -⟩, rfl⟩
  · obtain ⟨pass', hpass', hc, -⟩ := schedulingPass_rule others
      (P := fun pass => Consistent agent pass.workflow) (G := fun _ _ _ => True) h.wellFormed
      (along_true _ _) (by rw [h.beginPass]; exact h)
      (fun pass d n deps pass' _ hdef hd hn _ hdeps hturn _ hcp =>
        hcp.turn (hdef ▸ hd) hn hdeps hturn)
    rw [hpass] at hpass'
    cases hpass'
    exact h.afterPass hc hpass
  · refine ⟨h.of_loop _ _, ⟨fun _ _ => hall, ?_⟩⟩
    rintro (hl | hl)
    · cases hl
    · cases hl
  · have hended := hs.draining tokens hloop
    exact ⟨h.of_loop _ _, ⟨fun _ _ => hended, fun _ => ⟨hended, rfl⟩⟩⟩

/-- A call waits for its agent only while its node is running, which is before the end of
the `while` loop. -/
theorem Consistent.not_ended (h : Consistent agent w) {c : RunNodeCall} (hc : c ∈ w.calls)
    {prompt : String} (hp : c.point = .delegating prompt) : ¬ AllEnded w := by
  intro hall
  rcases (h.calls c hc).point with hret | ⟨-, n, hn, hrun⟩
  · rw [hp] at hret; cases hret
  · have := hall n (nodeById_some hn).1
    rw [hrun] at this
    cases this

theorem Consistent.staged_end (h : Consistent agent w) (hs : Staged w) {call : RunNodeCall}
    (hc : call ∈ w.calls) {prompt : String} (hp : call.point = .delegating prompt)
    (status output error) (failed leased : Bool) :
    Staged (w.endRunNode call status output error failed leased).1 := by
  have hframe := endRunNode_frame w call status output error failed leased
  have hnot := h.not_ended hc hp
  constructor
  · intro tokens hl
    exact absurd (hs.draining tokens (hframe.loop ▸ hl)) hnot
  · intro hl
    exact absurd (hs.final (hframe.loop ▸ hl)).1 hnot

theorem isDelegating_spec {point : RunNodePoint} (h : isDelegating point = true) :
    ∃ prompt, point = .delegating prompt := by
  cases point with
  | delegating prompt => exact ⟨prompt, rfl⟩
  | creatingWorktree => cases h
  | cleaning => cases h
  | returned => cases h

/-- Without worktrees a call waits for its agent or has returned. -/
theorem Consistent.no_worktree (h : Consistent agent w) {token : Nat} {c : RunNodeCall}
    {point : RunNodePoint} (hne : point ≠ .returned)
    (hdel : ∀ prompt, point ≠ .delegating prompt)
    (hc : w.waitingCall? token (· == point) = some c) : False := by
  obtain ⟨hmem, -, hp⟩ := waitingCall?_some hc
  have hp : c.point = point := by simpa using hp
  rcases (h.calls c hmem).point with hret | ⟨hdelegating, -⟩
  · exact hne (hp.symm.trans hret)
  · exact hdel _ (hp.symm.trans hdelegating)

/-- **One event keeps the invariant.** -/
theorem Consistent.advance {event : WorkflowEvent} {r : ActiveWorkflow × Bool}
    (h : Consistent agent w) (hs : Staged w) (hfollows : FollowsEvent agent w event)
    (hr : w.advance others event = some r) : Consistent agent r.1 ∧ Staged r.1 := by
  have hwf := advance_wellFormed h.wellFormed hr
  cases event with
  | resume => exact h.resume hs hr
  | worktreeCreated | worktreeFailed | worktreeCleaned =>
    obtain ⟨call, hc, -⟩ := map_eq_some_iff.1 hr
    exact (h.no_worktree (by simp) (by simp) hc).elim
  | agentProgress token =>
    obtain ⟨call, -, rfl⟩ := map_eq_some_iff.1 hr
    exact ⟨h, hs⟩
  | agentReturned token result =>
    obtain ⟨call, hc, rfl⟩ := map_eq_some_iff.1 hr
    obtain ⟨hmem, -, hp⟩ := waitingCall?_some hc
    obtain ⟨prompt, hp⟩ := isDelegating_spec hp
    have hanswer := hfollows call prompt (Option.filter_eq_some_iff.1 hc).1 hp
    have hiso : decide (call.node.writePolicy = .isolated) = false :=
      decide_eq_false (h.independent call.node (h.wellFormed.core.known call hmem)).2
    unfold ActiveWorkflow.agentReturned
    dsimp only
    rw [hiso]
    refine ⟨h.endRunNode hmem hp (isWorkflowNodeTerminal_statusOfResult _) ?_,
      h.staged_end hs hmem hp _ _ _ _ _⟩
    rw [hanswer]
    rfl
  | agentThrew token message =>
    obtain ⟨call, hc, rfl⟩ := map_eq_some_iff.1 hr
    obtain ⟨hmem, -, hp⟩ := waitingCall?_some hc
    obtain ⟨prompt, hp⟩ := isDelegating_spec hp
    have hanswer := hfollows call prompt (Option.filter_eq_some_iff.1 hc).1 hp
    have hiso : decide (call.node.writePolicy = .isolated) = false :=
      decide_eq_false (h.independent call.node (h.wellFormed.core.known call hmem)).2
    have hcancelled : (call.aborted || w.cancelRequested) = false := by
      rw [(h.calls call hmem).alive, h.notCancelled]
      rfl
    unfold ActiveWorkflow.runNodeThrew
    dsimp only
    rw [hiso, hcancelled]
    refine ⟨h.endRunNode hmem hp rfl ?_, h.staged_end hs hmem hp _ _ _ _ _⟩
    rw [hanswer]
    rfl
  | runNodeSettled token =>
    have hkept := @advance_promiseKept others w (.runNodeSettled token) r h.wellFormed h.kept trivial hr
    obtain ⟨call, -, rfl⟩ := map_eq_some_iff.1 hr
    refine ⟨⟨hwf, hkept, h.independent, h.notCancelled, h.notFailed, ?_, h.rules, h.entered⟩,
      ⟨hs.draining, hs.final⟩⟩
    intro c hc
    exact h.calls c (mem_of_mem_filter hc)
  | finalized leases =>
    unfold ActiveWorkflow.advance at hr
    dsimp only at hr
    split at hr
    · next hloop =>
      cases hr
      -- no node has a worktree, so the snapshots stay as they are
      have hnodes : (w.finalize leases).nodes = w.nodes := by
        unfold ActiveWorkflow.finalize
        dsimp only
        conv_rhs => rw [← map_id w.nodes]
        refine map_congr_left fun n hn => ?_
        have hid : n.id ∈ nodeIds w.definition.nodes := by
          rw [← h.wellFormed.core.ids]
          exact List.mem_map.2 ⟨n, hn, rfl⟩
        obtain ⟨d, hd, hdid⟩ := List.mem_map.1 hid
        obtain ⟨m, hm, hpolicy⟩ := h.wellFormed.core.snapshot hd
        have hfind := nodeById_of_mem h.wellFormed.core.nodup hn
        rw [← hdid, hm] at hfind
        cases hfind
        rw [if_neg (hpolicy ▸ (h.independent d hd).2)]
        rfl
      have hsame : w.finalize leases = { w with loop := .done } := by
        show { w with nodes := (w.finalize leases).nodes, loop := .done } = _
        rw [hnodes]
      rw [hsame]
      obtain ⟨hended, hstatus⟩ := hs.final (Or.inl hloop)
      refine ⟨h.of_loop .done w.status, ⟨fun _ _ => hended, fun _ => ⟨hended, hstatus⟩⟩⟩
    · cases hr
  | requestCancel => exact hfollows.elim

/-! ## Runs -/

/-- The events of one workflow follow the agent function: it is not cancelled, neither
when it starts nor later. -/
def FollowsAgent (agent : AgentFunction) (id : String) (s : RuntimeState) : RuntimeEvent → Prop
  | .start k _ _ aborted => k = id → aborted = false
  | .workflow k event => k = id → ∀ w, s.get? k = some w → FollowsEvent agent w event

/-- What an answer of an agent must be can be checked on the call it is for. -/
def decidableAnswer (agent : AgentFunction) (w : ActiveWorkflow) (token : Nat)
    (outcome : AgentOutcome) : Decidable (∀ c prompt, w.call? token = some c →
      c.point = .delegating prompt → agent c.node prompt = outcome) :=
  match hc : w.call? token with
  | none => isTrue fun _ _ h => nomatch h
  | some c =>
    match hp : c.point with
    | .delegating prompt =>
      decidable_of_iff (agent c.node prompt = outcome) (by
        constructor
        · rintro h b q hb hq
          cases hb
          rw [hp] at hq
          cases hq
          exact h
        · intro h
          exact h c prompt rfl hp)
    | .creatingWorktree => isTrue fun _ _ h hq => by cases h; rw [hp] at hq; cases hq
    | .cleaning => isTrue fun _ _ h hq => by cases h; rw [hp] at hq; cases hq
    | .returned => isTrue fun _ _ h hq => by cases h; rw [hp] at hq; cases hq

instance (agent : AgentFunction) (w : ActiveWorkflow) :
    ∀ event, Decidable (FollowsEvent agent w event)
  | .requestCancel => isFalse id
  | .agentReturned token result => decidableAnswer agent w token (.returned result)
  | .agentThrew token message => decidableAnswer agent w token (.threw message)
  | .resume => isTrue trivial
  | .worktreeCreated _ => isTrue trivial
  | .worktreeFailed _ _ => isTrue trivial
  | .agentProgress _ => isTrue trivial
  | .worktreeCleaned _ _ => isTrue trivial
  | .runNodeSettled _ => isTrue trivial
  | .finalized _ => isTrue trivial

instance (agent : AgentFunction) (id : String) (s : RuntimeState) :
    ∀ e, Decidable (FollowsAgent agent id s e)
  | .start k _ _ aborted => inferInstanceAs (Decidable (k = id → aborted = false))
  | .workflow k event =>
    match h : s.get? k with
    | none => isTrue fun _ _ hw => nomatch h.symm.trans hw
    | some w =>
      decidable_of_iff (k = id → FollowsEvent agent w event)
        ⟨fun hp hk _ hv => Option.some.inj (h.symm.trans hv) ▸ hp hk, fun hp hk => hp hk w h⟩

theorem initial_consistent {definition : NormalizedWorkflowDefinition}
    (hvalid : ValidDefinition definition) (hind : Independent definition) :
    Consistent agent { initial definition with status := .running } := by
  have hinit := initial_wellFormed hvalid
  have hfresh : ∀ d ∈ definition.nodes, ∀ n, nodeById (initial definition).nodes d.id = some n →
      n = freshNode d := by
    intro d hd n hn
    obtain ⟨e, he, rfl⟩ := List.mem_map.1 (nodeById_some hn).1
    have heq : e = d := inj_on_of_nodup_map hvalid.nodup he hd (nodeById_some hn).2
    rw [heq]
    rfl
  have hquiet : ∀ id, ¬ Doomed definition.nodes (initial definition).nodes id := by
    rintro id ⟨f, ⟨⟨d, hd, rfl, -⟩, n, hn, hfail⟩, -⟩
    rw [hfresh d hd n hn] at hfail
    cases hfail
  refine ⟨⟨hinit.core, hinit.isolated⟩, ⟨nodup_nil, fun c hc => absurd hc not_mem_nil⟩,
    hind, rfl, rfl, fun c hc => absurd hc not_mem_nil, ?_,
    fun d _ hent => absurd hent not_mem_nil⟩
  intro d hd n hn
  have hn := hfresh d hd n hn
  subst hn
  exact ⟨fun _ => rfl, fun hs => (by cases hs), fun hs => (by cases hs),
    fun hdd => absurd hdd (hquiet d.id)⟩

/-- The invariant of one workflow, if its definition is independent. -/
def FollowsInvariant (agent : AgentFunction) (w : ActiveWorkflow) : Prop :=
  w.WellFormed ∧ (Independent w.definition → Consistent agent w ∧ Staged w)

theorem FollowsInvariant.wakeIf {b : Bool} (h : FollowsInvariant agent w) :
    FollowsInvariant agent (wakeIf b w) := by
  unfold Workflow.wakeIf ActiveWorkflow.wake
  split
  · split
    · refine ⟨⟨h.1.core, h.1.isolated⟩, fun hind => ?_⟩
      obtain ⟨hc, -⟩ := h.2 hind
      exact ⟨hc.of_loop .ready w.status, staged_of_loop rfl (by simp) (by simp) (by simp)⟩
    · exact h
  · exact h

theorem step_followsInvariant {profiles : Profiles} {s t : RuntimeState} {e : RuntimeEvent}
    {id : String} (hs : ∀ w, s.get? id = some w → FollowsInvariant agent w)
    (hfollows : FollowsAgent agent id s e) (h : step profiles s e = some t) :
    ∀ w, t.get? id = some w → FollowsInvariant agent w := by
  intro v hv
  rcases step_cases h with ⟨-, -, -, -, -, -, -, rfl⟩ | ⟨k, input, task, aborted, w, rfl, -, hw, rfl⟩ |
    ⟨k, event, w, r, rfl, hw, hr, rfl⟩
  · exact hs v hv
  · rw [get?_store] at hv
    split at hv
    · next heq =>
      cases hv
      obtain ⟨definition, hvalid, hdef⟩ := started_spec hw
      rw [hfollows heq.symm] at hdef
      refine FollowsInvariant.wakeIf ⟨started_wellFormed hw, fun hind => ?_⟩
      rw [hdef] at hind ⊢
      exact ⟨initial_consistent hvalid hind,
        @staged_of_loop _ .ready rfl (by simp) (by simp) (by simp)⟩
    · obtain ⟨u, hu, rfl⟩ := map_eq_some_iff.1 hv
      exact (hs u hu).wakeIf
  · rw [get?_store] at hv
    split at hv
    · next heq =>
      cases hv
      subst heq
      obtain ⟨hwf, hinv⟩ := hs w hw
      refine FollowsInvariant.wakeIf ⟨advance_wellFormed hwf hr, fun hind => ?_⟩
      rw [advance_definition hwf hr] at hind
      obtain ⟨hc, hst⟩ := hinv hind
      exact hc.advance hst (hfollows rfl w hw) hr
    · obtain ⟨u, hu, rfl⟩ := map_eq_some_iff.1 hv
      exact (hs u hu).wakeIf

theorem reachable_consistent {profiles : Profiles} {s : RuntimeState} {id : String}
    (h : Reaches (step profiles) (FollowsAgent agent id) .empty s)
    (hw : s.get? id = some w) (hind : Independent w.definition) :
    Consistent agent w ∧ Staged w := by
  have hinv : ∀ w, s.get? id = some w → FollowsInvariant agent w :=
    reaches_invariant (I := fun s => ∀ w, s.get? id = some w → FollowsInvariant agent w)
      (fun w hw => by cases hw)
      (fun _ _ _ hu hG hstep => step_followsInvariant hu hG hstep) h
  exact (hinv w hw).2 hind

theorem Consistent.solution (h : Consistent agent w) (hended : AllEnded w) :
    Solution agent w.definition.nodes w.nodes := by
  refine ⟨hended, ?_⟩
  intro d hd
  obtain ⟨n, hn, -⟩ := h.wellFormed.core.snapshot hd
  exact ⟨n, hn, h.rules d hd n hn⟩

/-- The status of a workflow that was not cancelled. -/
theorem Consistent.status_completed (h : Consistent agent w) (hstatus : w.status = w.finalStatus) :
    w.status = .completed ↔ ∀ n ∈ w.nodes, nodeFailureStatus n.status = false := by
  rw [hstatus]
  unfold finalStatus
  rw [h.notCancelled]
  simp only [Bool.false_eq_true, if_false]
  split
  · next hany =>
    obtain ⟨n, hn, hfail⟩ := List.any_eq_true.1 hany
    constructor
    · intro hc; cases hc
    · intro hall; rw [hall n hn] at hfail; cases hfail
  · next hany =>
    constructor
    · intro _ n hn
      have := List.any_eq_false.1 (Bool.not_eq_true _ ▸ hany) n hn
      simpa using this
    · intro _; rfl

theorem Consistent.status_failed (h : Consistent agent w) (hstatus : w.status = w.finalStatus) :
    w.status = .completed ∨ w.status = .failed := by
  rw [hstatus]
  unfold finalStatus
  rw [h.notCancelled]
  simp only [Bool.false_eq_true, if_false]
  split
  · exact Or.inr rfl
  · exact Or.inl rfl

/-- **Schedule independence.**  Take two runs, each of any runtime with any workflows, in
which one workflow starts from the same independent nodes, is not cancelled, has its
agents answer by the same function, and has ended.  Then

* every node has the same status and the same output in both, and so does the workflow;
* in every state of such a run a node that was entered had its dependencies ended and its
  condition true on their snapshots, in the last state included;
* the workflow is completed exactly when no node failed, timed out or was lost. -/
theorem schedule_independence (agent : AgentFunction) {profiles profiles' : Profiles}
    {s s' : RuntimeState} {id id' : String} {w w' : ActiveWorkflow}
    (h : Reaches (step profiles) (FollowsAgent agent id) .empty s) (hw : s.get? id = some w)
    (hdone : w.loop = .done)
    (h' : Reaches (step profiles') (FollowsAgent agent id') .empty s') (hw' : s'.get? id' = some w')
    (hdone' : w'.loop = .done)
    (hind : Independent w.definition) (hsame : w'.definition.nodes = w.definition.nodes) :
    (∀ d ∈ w.definition.nodes, ∃ n n', w.node? d.id = some n ∧ w'.node? d.id = some n' ∧
      n.status = n'.status ∧ n.output = n'.output) ∧
    w.status = w'.status ∧
    (∀ u v, Reaches (step profiles) (FollowsAgent agent id) .empty u → u.get? id = some v →
      Independent v.definition → ∀ d ∈ v.definition.nodes, d.id ∈ v.entered →
      (∀ x ∈ d.dependsOn, ∃ m, v.node? x = some m ∧ isWorkflowNodeTerminal m.status = true) ∧
      evaluateWorkflowCondition d.condition (dependencySnapshots v.nodes d) = .ok true) ∧
    (w.status = .completed ↔ ∀ n ∈ w.nodes, n.status ≠ .failed ∧ n.status ≠ .timedOut ∧
      n.status ≠ .lost) := by
  have hind' : Independent w'.definition := by
    unfold Independent
    rw [hsame]
    exact hind
  obtain ⟨hc, hst⟩ := reachable_consistent h hw hind
  obtain ⟨hc', hst'⟩ := reachable_consistent h' hw' hind'
  obtain ⟨hended, hstatus⟩ := hst.final (Or.inr hdone)
  obtain ⟨hended', hstatus'⟩ := hst'.final (Or.inr hdone')
  have hvalid := hc.wellFormed.core.valid
  have hsol := hc.solution hended
  have hsol' : Solution agent w.definition.nodes w'.nodes := hsame ▸ hc'.solution hended'
  have hagree : ∀ d ∈ w.definition.nodes, ∃ n n', w.node? d.id = some n ∧
      w'.node? d.id = some n' ∧ n.status = n'.status ∧ n.output = n'.output := by
    intro d hd
    have hid : d.id ∈ nodeIds w.definition.nodes := List.mem_map.2 ⟨d, hd, rfl⟩
    obtain ⟨n, hn, -⟩ := hsol.rule d hd
    obtain ⟨n', hn', -⟩ := hsol'.rule d hd
    obtain ⟨hs, ho, -⟩ := solution_agreeAt hvalid.nodup hvalid.known hsol hsol' hid
      (hvalid.acyclic d.id hid) n n' hn hn'
    exact ⟨n, n', hn, hn', hs, ho⟩
  have hcompleted := hc.status_completed hstatus
  have hcompleted' := hc'.status_completed hstatus'
  -- no node of one failed exactly when no node of the other did
  have hfailures : (∀ n ∈ w.nodes, nodeFailureStatus n.status = false) ↔
      ∀ n ∈ w'.nodes, nodeFailureStatus n.status = false := by
    constructor
    · intro hall n' hn'
      have hid : n'.id ∈ nodeIds w.definition.nodes := by
        rw [← hsame, ← hc'.wellFormed.core.ids]
        exact List.mem_map.2 ⟨n', hn', rfl⟩
      obtain ⟨d, hd, hdid⟩ := List.mem_map.1 hid
      obtain ⟨m, m', hm, hm', hs, -⟩ := hagree d hd
      have hfind := nodeById_of_mem hc'.wellFormed.core.nodup hn'
      have hm' : nodeById w'.nodes d.id = some m' := hm'
      rw [← hdid, hm'] at hfind
      cases hfind
      rw [← hs]
      exact hall m (nodeById_some hm).1
    · intro hall n hn
      have hid : n.id ∈ nodeIds w.definition.nodes := by
        rw [← hc.wellFormed.core.ids]
        exact List.mem_map.2 ⟨n, hn, rfl⟩
      obtain ⟨d, hd, hdid⟩ := List.mem_map.1 hid
      obtain ⟨m, m', hm, hm', hs, -⟩ := hagree d hd
      have hfind := nodeById_of_mem hc.wellFormed.core.nodup hn
      have hm : nodeById w.nodes d.id = some m := hm
      rw [← hdid, hm] at hfind
      cases hfind
      rw [hs]
      exact hall m' (nodeById_some hm').1
  refine ⟨hagree, ?_, ?_, ?_⟩
  · have hiff : w.status = .completed ↔ w'.status = .completed :=
      hcompleted.trans (hfailures.trans hcompleted'.symm)
    rcases hc.status_failed hstatus with hs | hs
    · rw [hs, hiff.1 hs]
    · rcases hc'.status_failed hstatus' with hs' | hs'
      · rw [hiff.2 hs', hs']
      · rw [hs, hs']
  · intro u v hu hv hindv d hd hent
    obtain ⟨hcv, -⟩ := reachable_consistent hu hv hindv
    exact hcv.entered d hd hent
  · rw [hcompleted]
    refine forall₂_congr fun n _ => ?_
    cases n.status <;> simp [nodeFailureStatus]

/-- A node that fails and skips its dependent, next to a node that does not. -/
def skippingDefinition (maxConcurrency : Nat) : WorkflowDefinition :=
  { plainDefinition
      [{ plainNode "check" .none [] with failurePolicy := some .skipDependents },
       plainNode "build" .none [], plainNode "ship" .shared ["check", "build"]] with
    maxConcurrency := some maxConcurrency }

/-- The check fails, every other agent succeeds. -/
def skippingAgent : AgentFunction := fun d _ =>
  if d.id = "check" then .returned { plainResult with status := .failed } else .returned plainResult

/-- One node after the other, the failing one first. -/
def serialTrace : List RuntimeEvent :=
  [.start "one" (skippingDefinition 1) none false,
   .workflow "one" .resume,
   .workflow "one" (.agentReturned 0 { plainResult with status := .failed }),
   .workflow "one" (.runNodeSettled 0),
   .workflow "one" .resume,
   .workflow "one" (.agentReturned 1 plainResult),
   .workflow "one" (.runNodeSettled 1),
   .workflow "one" .resume,
   .workflow "one" .resume,
   .workflow "one" (.finalized [])]

/-- Both nodes at the same time, the failing one last. -/
def parallelTrace : List RuntimeEvent :=
  [.start "two" (skippingDefinition 4) none false,
   .workflow "two" .resume,
   .workflow "two" (.agentReturned 1 plainResult),
   .workflow "two" (.runNodeSettled 1),
   .workflow "two" .resume,
   .workflow "two" (.agentReturned 0 { plainResult with status := .failed }),
   .workflow "two" (.runNodeSettled 0),
   .workflow "two" .resume,
   .workflow "two" .resume,
   .workflow "two" (.finalized [])]

instance (definition : NormalizedWorkflowDefinition) : Decidable (Independent definition) :=
  inferInstanceAs (Decidable (∀ d ∈ definition.nodes,
    d.failurePolicy ≠ .failWorkflow ∧ d.writePolicy ≠ .isolated))

theorem schedule_independence_skipping :
    ∃ s s' w w', runFrom (step plainProfiles) .empty serialTrace = some s ∧
      s.get? "one" = some w ∧ runFrom (step plainProfiles) .empty parallelTrace = some s' ∧
      s'.get? "two" = some w' ∧ w.status = .failed ∧
      (∀ d ∈ w.definition.nodes, ∃ n n', w.node? d.id = some n ∧ w'.node? d.id = some n' ∧
        n.status = n'.status ∧ n.output = n'.output) ∧ w.status = w'.status := by
  have hserial : ((workflowAfter serialTrace "one").map fun w => (w.loop, w.status,
      decide (Independent w.definition), w.definition.nodes)) =
      some (.done, .failed, true, ((workflowAfter parallelTrace "two").map
        (·.definition.nodes)).getD []) := by decide
  have hparallel : ((workflowAfter parallelTrace "two").map (·.loop)) = some .done := by
    decide
  obtain ⟨w, hw, hfacts⟩ := Option.map_eq_some_iff.1 hserial
  obtain ⟨w', hw', hdone'⟩ := Option.map_eq_some_iff.1 hparallel
  simp only [Prod.mk.injEq, decide_eq_true_eq] at hfacts
  obtain ⟨hdone, hstatus, hind, hsame⟩ := hfacts
  rw [hw'] at hsame
  obtain ⟨s, hs, hget⟩ := Option.bind_eq_some_iff.1 hw
  obtain ⟨s', hs', hget'⟩ := Option.bind_eq_some_iff.1 hw'
  have hreach : Reaches (step plainProfiles) (FollowsAgent skippingAgent "one") .empty s :=
    reaches_of_runFrom serialTrace .empty .empty s .refl (by decide) hs
  have hreach' : Reaches (step plainProfiles) (FollowsAgent skippingAgent "two") .empty s' :=
    reaches_of_runFrom parallelTrace .empty .empty s' .refl (by decide) hs'
  obtain ⟨hagree, heq, -⟩ := schedule_independence skippingAgent hreach hget hdone hreach' hget'
    hdone' hind hsame.symm
  exact ⟨s, s', w, w', hs, hget, hs', hget', hstatus, hagree, heq⟩

end BeauPi.Workflow
