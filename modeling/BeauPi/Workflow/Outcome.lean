import BeauPi.Workflow.Deadlock

/-!
# What a workflow amounts to

For nodes that neither stop the whole workflow nor use a worktree, the outcome of a run
does not depend on its schedule.  This module says what the outcome is, without any
schedule: each node is described from its dependencies alone.

* `Doomed` — some node above it failed and skips its dependents.
* `NodeRule` — how the snapshot of a node follows from the snapshots of its
  dependencies, in any state of a run.
* `Solution` — every node has ended and follows its rule.
* `solution_agreeAt` — **two solutions of the same nodes agree** on the status and the
  output of every node.
-/

namespace BeauPi.Workflow

open Machine List

/-- How an agent answers a prompt: with a result, or by throwing. -/
inductive AgentOutcome
  | returned (result : AgentTaskResult)
  | threw (message : String)
  deriving DecidableEq

/-- The answer of the agent of every node to every prompt. -/
abbrev AgentFunction := NormalizedWorkflowNodeDefinition → String → AgentOutcome

/-! ## The snapshots of a node -/

/-- Before it starts. -/
def freshNode (d : NormalizedWorkflowNodeDefinition) : WorkflowNodeSnapshot :=
  { id := d.id, writePolicy := d.writePolicy, status := .pending, output := none,
    diagnostics := [], error := none }

/-- While its agent works. -/
def startedNode (d : NormalizedWorkflowNodeDefinition) : WorkflowNodeSnapshot :=
  { freshNode d with status := .running }

/-- After its condition was false. -/
def skippedNode (d : NormalizedWorkflowNodeDefinition) : WorkflowNodeSnapshot :=
  finishNode .skipped none
    (some ⟨"condition_false", "Condition evaluated to false: " ++ d.condition.getD "default"⟩)
    (freshNode d)

/-- After its agent answered. -/
def answeredNode (d : NormalizedWorkflowNodeDefinition) : AgentOutcome → WorkflowNodeSnapshot
  | .returned result =>
    finishNode (ActiveWorkflow.statusOfResult result.status) (some result) result.error
      (startedNode d)
  | .threw message =>
    finishNode .failed none (some ⟨"workflow_node_error", message⟩) (startedNode d)

/-! ## Dependencies -/

/-- The snapshots of the dependencies of a node. -/
def dependencySnapshots (nodes : List WorkflowNodeSnapshot)
    (d : NormalizedWorkflowNodeDefinition) : List WorkflowNodeSnapshot :=
  d.dependsOn.filterMap (nodeById nodes)

variable {nodes : List WorkflowNodeSnapshot} {d : NormalizedWorkflowNodeDefinition}

theorem dependencySnapshots_of_mapM {dependencies : List WorkflowNodeSnapshot}
    (h : d.dependsOn.mapM (nodeById nodes) = some dependencies) :
    dependencySnapshots nodes d = dependencies := by
  unfold dependencySnapshots
  have hpairs := mapM_eq_some h
  clear h
  generalize d.dependsOn = ids at hpairs
  induction hpairs with
  | nil => rfl
  | cons hxy _ ih => rw [filterMap_cons, hxy]; simp only [ih]

variable {nodes' : List WorkflowNodeSnapshot}

theorem dependencySnapshots_congr (h : ∀ x ∈ d.dependsOn, nodeById nodes x = nodeById nodes' x) :
    dependencySnapshots nodes d = dependencySnapshots nodes' d := by
  unfold dependencySnapshots
  exact filterMap_congr h

theorem nodePrompt_congr (h : dependencySnapshots nodes d = dependencySnapshots nodes' d) :
    nodePrompt d nodes = nodePrompt d nodes' := by
  unfold nodePrompt dependencyPayload
  unfold dependencySnapshots at h
  rw [h]

/-- `b` depends on `a` directly. -/
def Feeds (ds : List NormalizedWorkflowNodeDefinition) (a b : String) : Prop :=
  ∃ d ∈ ds, d.id = b ∧ a ∈ d.dependsOn

/-- Every dependency of a node has ended. -/
def Ready (nodes : List WorkflowNodeSnapshot) (d : NormalizedWorkflowNodeDefinition) : Prop :=
  ∀ x ∈ d.dependsOn, ∃ m, nodeById nodes x = some m ∧ isWorkflowNodeTerminal m.status = true

/-- A node failed, and its failure skips its dependents. -/
def SkipsDependents (ds : List NormalizedWorkflowNodeDefinition)
    (nodes : List WorkflowNodeSnapshot) (id : String) : Prop :=
  (∃ d ∈ ds, d.id = id ∧ d.failurePolicy = .skipDependents) ∧
    ∃ n, nodeById nodes id = some n ∧ nodeFailureStatus n.status = true

/-- A node is skipped because of a failure above it. -/
def Doomed (ds : List NormalizedWorkflowNodeDefinition) (nodes : List WorkflowNodeSnapshot)
    (id : String) : Prop :=
  ∃ f, SkipsDependents ds nodes f ∧ Relation.TransGen (Feeds ds) f id

variable {ds : List NormalizedWorkflowNodeDefinition}

theorem Doomed.below {a b : String} (h : Doomed ds nodes a)
    (hab : Relation.TransGen (Feeds ds) a b) : Doomed ds nodes b := by
  obtain ⟨f, hf, hfa⟩ := h
  exact ⟨f, hf, hfa.trans hab⟩

/-! ## The rule of a node -/

/-- How a snapshot follows from the snapshots of the dependencies. -/
structure NodeRule (agent : AgentFunction) (ds : List NormalizedWorkflowNodeDefinition)
    (nodes : List WorkflowNodeSnapshot) (d : NormalizedWorkflowNodeDefinition)
    (n : WorkflowNodeSnapshot) : Prop where
  pending : n.status = .pending → n = freshNode d
  running : n.status = .running → n = startedNode d ∧ Ready nodes d ∧
    evaluateWorkflowCondition d.condition (dependencySnapshots nodes d) = .ok true
  ended : isWorkflowNodeTerminal n.status = true → ¬ Doomed ds nodes d.id → Ready nodes d ∧
    ∃ b, evaluateWorkflowCondition d.condition (dependencySnapshots nodes d) = .ok b ∧
      n = if b then answeredNode d (agent d (nodePrompt d nodes)) else skippedNode d
  doomed : Doomed ds nodes d.id → n.status = .skipped ∧ n.output = none

/-- Every node has ended, as its rule says. -/
structure Solution (agent : AgentFunction) (ds : List NormalizedWorkflowNodeDefinition)
    (nodes : List WorkflowNodeSnapshot) : Prop where
  ended : ∀ n ∈ nodes, isWorkflowNodeTerminal n.status = true
  rule : ∀ d ∈ ds, ∃ n, nodeById nodes d.id = some n ∧ NodeRule agent ds nodes d n

/-- Every snapshot follows its rule. -/
def Rules (agent : AgentFunction) (ds : List NormalizedWorkflowNodeDefinition)
    (nodes : List WorkflowNodeSnapshot) : Prop :=
  ∀ d ∈ ds, ∀ n, nodeById nodes d.id = some n → NodeRule agent ds nodes d n

/-! ## Keeping the rules -/

/-- What has ended stays exactly as it is. -/
def Frozen (nodes nodes' : List WorkflowNodeSnapshot) : Prop :=
  ∀ id n, nodeById nodes id = some n → isWorkflowNodeTerminal n.status = true →
    nodeById nodes' id = some n

section Keeping

variable {agent : AgentFunction} {ds : List NormalizedWorkflowNodeDefinition}
  {nodes nodes' : List WorkflowNodeSnapshot} {d : NormalizedWorkflowNodeDefinition}

theorem Ready.frozen (h : Ready nodes d) (hf : Frozen nodes nodes') : Ready nodes' d := by
  intro x hx
  obtain ⟨m, hm, ht⟩ := h x hx
  exact ⟨m, hf x m hm ht, ht⟩

theorem Ready.snapshots_frozen (h : Ready nodes d) (hf : Frozen nodes nodes') :
    dependencySnapshots nodes' d = dependencySnapshots nodes d := by
  refine dependencySnapshots_congr fun x hx => ?_
  obtain ⟨m, hm, ht⟩ := h x hx
  rw [hm, hf x m hm ht]

theorem Doomed.frozen {id : String} (h : Doomed ds nodes id) (hf : Frozen nodes nodes') :
    Doomed ds nodes' id := by
  obtain ⟨f, ⟨hd, n, hn, hfail⟩, hpath⟩ := h
  exact ⟨f, ⟨hd, n, hf f n hn (isWorkflowNodeTerminal_of_nodeFailureStatus hfail), hfail⟩, hpath⟩

/-- A node that did not change follows its rule after others changed, unless it became
doomed. -/
theorem NodeRule.frozen {n : WorkflowNodeSnapshot} (h : NodeRule agent ds nodes d n)
    (hf : Frozen nodes nodes') (hdoomed : Doomed ds nodes' d.id → Doomed ds nodes d.id) :
    NodeRule agent ds nodes' d n := by
  refine ⟨h.pending, ?_, ?_, fun hd => h.doomed (hdoomed hd)⟩
  · intro hr
    obtain ⟨hn, hready, hcond⟩ := h.running hr
    exact ⟨hn, hready.frozen hf, by rw [hready.snapshots_frozen hf]; exact hcond⟩
  · intro ht hnot
    obtain ⟨hready, b, hb, hn⟩ := h.ended ht fun hd => hnot (hd.frozen hf)
    have hsnap := hready.snapshots_frozen hf
    exact ⟨hready.frozen hf, b, by rw [hsnap]; exact hb, by rw [nodePrompt_congr hsnap]; exact hn⟩

/-- A node that is running is not doomed. -/
theorem NodeRule.not_doomed {n : WorkflowNodeSnapshot} (h : NodeRule agent ds nodes d n)
    (hs : n.status ≠ .skipped) : ¬ Doomed ds nodes d.id :=
  fun hd => hs (h.doomed hd).1

/-- **Above a node that has started and is not doomed everything has ended.** -/
theorem Rules.ended_above (h : Rules agent ds nodes) {a b : String}
    (hpath : Relation.TransGen (Feeds ds) a b) :
    ∀ n, nodeById nodes b = some n → n.status ≠ .pending → ¬ Doomed ds nodes b →
      ∃ m, nodeById nodes a = some m ∧ isWorkflowNodeTerminal m.status = true := by
  have hready : ∀ {x b}, Feeds ds x b → ∀ n, nodeById nodes b = some n → n.status ≠ .pending →
      ¬ Doomed ds nodes b →
      ∃ m, nodeById nodes x = some m ∧ isWorkflowNodeTerminal m.status = true := by
    rintro x b ⟨d, hd, rfl, hx⟩ n hn hp hdoom
    have hrule := h d hd n hn
    cases ht : isWorkflowNodeTerminal n.status with
    | true => exact (hrule.ended ht hdoom).1 x hx
    | false =>
      have hrun : n.status = .running := by
        cases hs : n.status with
        | pending => exact absurd hs hp
        | running => rfl
        | _ => rw [hs] at ht; cases ht
      exact (hrule.running hrun).2.1 x hx
  induction hpath with
  | single hab => exact hready hab
  | @tail c b _ hcb ih =>
    intro n hn hp hdoom
    obtain ⟨m, hm, ht⟩ := hready hcb n hn hp hdoom
    refine ih m hm ?_ fun hc => hdoom (hc.below (.single hcb))
    rintro hs
    rw [hs] at ht
    cases ht

variable {n₀ : WorkflowNodeSnapshot}

/-- Changing one node that had not ended keeps the rules, if nothing becomes doomed. -/
theorem Rules.change (h : Rules agent ds nodes) {d₀ : NormalizedWorkflowNodeDefinition}
    {n' : WorkflowNodeSnapshot} (hnd : (nodeIds ds).Nodup) (hd₀ : d₀ ∈ ds)
    (hn₀ : nodeById nodes d₀.id = some n₀) (hopen : isWorkflowNodeTerminal n₀.status = false)
    (hlook : ∀ x, nodeById nodes' x = if x = d₀.id then some n' else nodeById nodes x)
    (hquiet : nodeFailureStatus n'.status = true → d₀.failurePolicy ≠ .skipDependents)
    (hnew : Frozen nodes nodes' → (Doomed ds nodes' d₀.id → Doomed ds nodes d₀.id) → NodeRule agent
      ds nodes' d₀ n') :
    Frozen nodes nodes' ∧ Rules agent ds nodes' := by
  have hf : Frozen nodes nodes' := by
    intro id n hn ht
    rw [hlook]
    have hne : id ≠ d₀.id := by
      rintro rfl
      rw [hn₀] at hn
      cases hn
      rw [hopen] at ht
      cases ht
    rw [if_neg hne]
    exact hn
  have hdoom : ∀ id, Doomed ds nodes' id → Doomed ds nodes id := by
    rintro id ⟨f, ⟨⟨d, hd, rfl, hpolicy⟩, n, hn, hfail⟩, hpath⟩
    rw [hlook] at hn
    split at hn
    · next heq =>
      cases hn
      have hsame : d = d₀ := inj_on_of_nodup_map hnd hd hd₀ heq
      subst hsame
      exact absurd hpolicy (hquiet hfail)
    · exact ⟨d.id, ⟨⟨d, hd, rfl, hpolicy⟩, n, hn, hfail⟩, hpath⟩
  refine ⟨hf, ?_⟩
  intro d hd n hn
  rw [hlook] at hn
  split at hn
  · next heq =>
    cases hn
    have hsame : d = d₀ := inj_on_of_nodup_map hnd hd hd₀ heq
    subst hsame
    exact hnew hf (hdoom d.id)
  · exact (h d hd n hn).frozen hf (hdoom d.id)

/-- The answer of an agent follows the rule of its node. -/
theorem answered_rule (h : NodeRule agent ds nodes d n₀) (hrun : n₀.status = .running)
    (hf : Frozen nodes nodes') (hnot : ¬ Doomed ds nodes' d.id)
    (hended : isWorkflowNodeTerminal (answeredNode d (agent d (nodePrompt d nodes))).status = true) :
    NodeRule agent ds nodes' d (answeredNode d (agent d (nodePrompt d nodes))) := by
  obtain ⟨-, hready, hcond⟩ := h.running hrun
  have hsnap := hready.snapshots_frozen hf
  refine ⟨?_, ?_, ?_, fun hd => absurd hd hnot⟩
  · intro hs; rw [hs] at hended; cases hended
  · intro hs; rw [hs] at hended; cases hended
  · intro _ _
    refine ⟨hready.frozen hf, true, by rw [hsnap]; exact hcond, ?_⟩
    rw [nodePrompt_congr hsnap]
    rfl

/-- The failure of a node that skips its dependents keeps the rules: whatever is below it
is pending, or was doomed before. -/
theorem Rules.skipBelow (h : Rules agent ds nodes) {f : NormalizedWorkflowNodeDefinition}
    {n' : WorkflowNodeSnapshot} {select : String → Bool} {error : WorkflowError}
    (hnd : (nodeIds ds).Nodup) (hf : f ∈ ds) (hcycle : ¬ Relation.TransGen (Feeds ds) f.id f.id)
    (hn₀ : nodeById nodes f.id = some n₀) (hrun : n₀.status = .running)
    (hanswer : n' = answeredNode f (agent f (nodePrompt f nodes)))
    (hended : isWorkflowNodeTerminal n'.status = true)
    (hselect : ∀ x, select x = true ↔ Relation.TransGen (Feeds ds) f.id x)
    (hfailed : SkipsDependents ds nodes' f.id)
    (hlook : ∀ x, nodeById nodes' x = if x = f.id then some n' else (nodeById nodes x).map
      (finishIfPending select .skipped error)) :
    Frozen nodes nodes' ∧ Rules agent ds nodes' := by
  have hkeep : ∀ n : WorkflowNodeSnapshot, n.status ≠ .pending →
      finishIfPending select .skipped error n = n := by
    intro n hn
    unfold finishIfPending
    rw [if_neg fun hp => hn hp.1]
  have hfrozen : Frozen nodes nodes' := by
    intro id n hn ht
    have hne : id ≠ f.id := by
      rintro rfl
      rw [hn₀] at hn
      cases hn
      rw [hrun] at ht
      cases ht
    rw [hlook, if_neg hne, hn]
    have hnp : n.status ≠ .pending := by intro hs; rw [hs] at ht; cases ht
    simp only [Option.map_some, hkeep n hnp]
  have hdoom : ∀ id, Doomed ds nodes' id →
      Doomed ds nodes id ∨ Relation.TransGen (Feeds ds) f.id id := by
    rintro id ⟨g, ⟨hg, n, hn, hfail⟩, hpath⟩
    rw [hlook] at hn
    split at hn
    · next heq => exact Or.inr (heq ▸ hpath)
    · obtain ⟨m, hm, rfl⟩ := Option.map_eq_some_iff.1 hn
      refine Or.inl ⟨g, ⟨hg, m, hm, ?_⟩, hpath⟩
      by_cases hp : m.status = .pending ∧ select m.id = true
      · unfold finishIfPending at hfail
        rw [if_pos hp, finishNode_status (by rw [hp.1]; rfl)] at hfail
        cases hfail
      · unfold finishIfPending at hfail
        rwa [if_neg hp] at hfail
  have hnotf : ¬ Doomed ds nodes f.id :=
    (h f hf n₀ hn₀).not_doomed (by rw [hrun]; simp)
  refine ⟨hfrozen, ?_⟩
  intro d hd n hn
  rw [hlook] at hn
  split at hn
  · next heq =>
    cases hn
    have hsame : d = f := inj_on_of_nodup_map hnd hd hf heq
    subst hsame
    rw [hanswer] at hended ⊢
    refine answered_rule (h d hd n₀ hn₀) hrun hfrozen ?_ hended
    intro hdd
    rcases hdoom d.id hdd with hold | hself
    · exact hnotf hold
    · exact hcycle hself
  · obtain ⟨m, hm, rfl⟩ := Option.map_eq_some_iff.1 hn
    have hrule := h d hd m hm
    by_cases hbelow : Relation.TransGen (Feeds ds) f.id d.id
    · have hdoomed : Doomed ds nodes' d.id := ⟨f.id, hfailed, hbelow⟩
      by_cases hp : m.status = .pending
      · -- a pending node below the failure is skipped now
        have hsel : select m.id = true := by
          rw [(nodeById_some hm).2]
          exact (hselect d.id).2 hbelow
        have hfin : finishIfPending select .skipped error m =
            finishNode .skipped none (some error) (freshNode d) := by
          unfold finishIfPending
          rw [if_pos ⟨hp, hsel⟩, hrule.pending hp]
        rw [hfin]
        exact ⟨fun hs => (by cases hs), fun hs => (by cases hs),
          fun _ hnot => absurd hdoomed hnot, fun _ => ⟨rfl, rfl⟩⟩
      · -- anything else below the failure was doomed: its ancestors have not all ended
        have hold : Doomed ds nodes d.id := by
          by_contra hnot
          obtain ⟨k, hk, ht⟩ := h.ended_above hbelow m hm hp hnot
          rw [hn₀] at hk
          cases hk
          rw [hrun] at ht
          cases ht
        rw [hkeep m hp]
        exact hrule.frozen hfrozen fun _ => hold
    · have hsame : finishIfPending select .skipped error m = m := by
        unfold finishIfPending
        rw [if_neg]
        rintro ⟨-, hsel⟩
        rw [(nodeById_some hm).2] at hsel
        exact hbelow ((hselect d.id).1 hsel)
      rw [hsame]
      exact hrule.frozen hfrozen fun hdd => (hdoom d.id hdd).resolve_right hbelow

end Keeping

/-! ## Two solutions agree -/

/-- Two lists of snapshots agree on a node: always on its status and output, and on
everything unless it was skipped because of a failure above it. -/
def AgreeAt (ds : List NormalizedWorkflowNodeDefinition) (nodes nodes' : List WorkflowNodeSnapshot)
    (id : String) : Prop :=
  ∀ n n', nodeById nodes id = some n → nodeById nodes' id = some n' →
    n.status = n'.status ∧ n.output = n'.output ∧ (¬ Doomed ds nodes id → n = n')

theorem Doomed.transfer {id : String} (hnode : ∀ x ∈ nodeIds ds, ∃ n', nodeById nodes' x = some n')
    (hagree : ∀ x, Relation.TransGen (Feeds ds) x id → ∀ n n', nodeById nodes x = some n → nodeById
      nodes' x = some n' → n.status = n'.status)
    (h : Doomed ds nodes id) : Doomed ds nodes' id := by
  obtain ⟨f, ⟨⟨d, hd, rfl, hpolicy⟩, n, hn, hfail⟩, hpath⟩ := h
  obtain ⟨n', hn'⟩ := hnode d.id (mem_map.2 ⟨d, hd, rfl⟩)
  have hst := hagree d.id hpath n n' hn hn'
  exact ⟨d.id, ⟨⟨d, hd, rfl, hpolicy⟩, n', hn', hst ▸ hfail⟩, hpath⟩

/-- **Two solutions of the same nodes agree.**  The induction is along the dependencies:
whether a node is doomed, its condition and its prompt are all determined above it. -/
theorem solution_agreeAt {agent : AgentFunction} (hnd : (nodeIds ds).Nodup)
    (hknown : ∀ d ∈ ds, ∀ x ∈ d.dependsOn, x ∈ nodeIds ds) (h : Solution agent ds nodes)
    (h' : Solution agent ds nodes') {id : String} (hid : id ∈ nodeIds ds)
    (hacc : Acc (fun dependency id => dependency ∈ dependenciesOf ds id) id) :
    AgreeAt ds nodes nodes' id := by
  have hlookup : ∀ x ∈ nodeIds ds, ∃ n, nodeById nodes x = some n := by
    intro x hx
    obtain ⟨d, hd, rfl⟩ := mem_map.1 hx
    obtain ⟨n, hn, -⟩ := h.rule d hd
    exact ⟨n, hn⟩
  have hlookup' : ∀ x ∈ nodeIds ds, ∃ n, nodeById nodes' x = some n := by
    intro x hx
    obtain ⟨d, hd, rfl⟩ := mem_map.1 hx
    obtain ⟨n, hn, -⟩ := h'.rule d hd
    exact ⟨n, hn⟩
  have hfeeds : ∀ a b, Feeds ds a b → a ∈ dependenciesOf ds b ∧ a ∈ nodeIds ds := by
    rintro a b ⟨d, hd, rfl, ha⟩
    exact ⟨by rw [ActiveWorkflow.dependenciesOf_mem hnd hd]; exact ha, hknown d hd a ha⟩
  have hacc' : Acc (Relation.TransGen (Feeds ds)) id :=
    (Subrelation.accessible (fun hab => (hfeeds _ _ hab).1) hacc).transGen
  induction hacc' with
  | intro id _ ih =>
    obtain ⟨d, hd, rfl⟩ := mem_map.1 hid
    have habove : ∀ x, Relation.TransGen (Feeds ds) x d.id → AgreeAt ds nodes nodes' x := by
      intro x hx
      have hxid : x ∈ nodeIds ds := by
        obtain ⟨y, hxy, -⟩ := Relation.TransGen.head'_iff.1 hx
        exact (hfeeds x y hxy).2
      refine ih x hx hxid ?_
      have hrel : Relation.TransGen (fun dependency id => dependency ∈ dependenciesOf ds id) x d.id :=
        Relation.TransGen.mono (fun a b hab => (hfeeds a b hab).1) _ _ hx
      exact Acc.inv_of_transGen hacc hrel
    have hdoomed : Doomed ds nodes d.id ↔ Doomed ds nodes' d.id := by
      constructor
      · exact Doomed.transfer hlookup' fun x hx n n' hn hn' => (habove x hx n n' hn hn').1
      · exact Doomed.transfer hlookup fun x hx n n' hn hn' => (habove x hx n' n hn' hn).1.symm
    intro n n' hn hn'
    obtain ⟨m, hm, hrule⟩ := h.rule d hd
    obtain ⟨m', hm', hrule'⟩ := h'.rule d hd
    rw [hn] at hm
    rw [hn'] at hm'
    cases hm
    cases hm'
    by_cases hdoom : Doomed ds nodes d.id
    · obtain ⟨hs, ho⟩ := hrule.doomed hdoom
      obtain ⟨hs', ho'⟩ := hrule'.doomed (hdoomed.1 hdoom)
      exact ⟨hs.trans hs'.symm, ho.trans ho'.symm, fun hnot => absurd hdoom hnot⟩
    · -- a dependency of a node that is not doomed is not doomed, so the snapshots are equal
      have hdeps : dependencySnapshots nodes d = dependencySnapshots nodes' d := by
        refine dependencySnapshots_congr fun x hx => ?_
        have hedge : Feeds ds x d.id := ⟨d, hd, rfl, hx⟩
        obtain ⟨k, hk⟩ := hlookup x (hknown d hd x hx)
        obtain ⟨k', hk'⟩ := hlookup' x (hknown d hd x hx)
        have hnot : ¬ Doomed ds nodes x := fun hx => hdoom (hx.below (.single hedge))
        rw [hk, hk', (habove x (.single hedge) k k' hk hk').2.2 hnot]
      have hended : isWorkflowNodeTerminal n.status = true := h.ended n (nodeById_some hn).1
      have hended' : isWorkflowNodeTerminal n'.status = true := h'.ended n' (nodeById_some hn').1
      obtain ⟨-, b, hb, heq⟩ := hrule.ended hended hdoom
      obtain ⟨-, b', hb', heq'⟩ := hrule'.ended hended' fun hx => hdoom (hdoomed.2 hx)
      rw [hdeps, hb'] at hb
      cases hb
      have hsame : n = n' := by
        rw [heq, heq', nodePrompt_congr hdeps]
      exact ⟨by rw [hsame], by rw [hsame], fun _ => hsame⟩

end BeauPi.Workflow
