import BeauPi.Workflow.WellFormed

/-!
# What a step of the runtime can do

* `Turn`, `scheduleNode_cases` — everything one turn of a scheduling pass can do; it
  never throws.
* `schedulingPass_rule` — the rule for a whole pass.
* `resume_cases`, `step_cases` — everything the loop and the runtime can do.
* `step_everywhere` — the rule for invariants of single workflows.
-/

namespace BeauPi.Workflow

open Machine List
open Option (ite_some_none_eq_some map_eq_some_iff some.inj)

namespace ActiveWorkflow

variable {w : ActiveWorkflow}

/-! ## A scheduling pass -/

/-- Everything one turn of a scheduling pass can do. -/
inductive Turn (others : List WorkflowNodeSnapshot) (pass : Pass)
    (d : NormalizedWorkflowNodeDefinition) (n : WorkflowNodeSnapshot)
    (dependencies : List WorkflowNodeSnapshot) : Pass → Prop
  /-- The node is not pending. -/
  | notPending : n.status ≠ .pending → Turn others pass d n dependencies pass
  /-- Some dependency has not ended. -/
  | notReady {m : WorkflowNodeSnapshot} : n.status = .pending → m ∈ dependencies →
      isWorkflowNodeTerminal m.status = false → Turn others pass d n dependencies pass
  /-- There is no room, or another node excludes it. -/
  | blocked : n.status = .pending →
      (∀ m ∈ dependencies, isWorkflowNodeTerminal m.status = true) →
      evaluateWorkflowCondition d.condition dependencies = .ok true →
      (pass.workflow.definition.maxConcurrency ≤ pass.workflow.running.size ∨
        canStart (others ++ pass.workflow.runningNodes) n = false) →
      Turn others pass d n dependencies pass
  | skip : n.status = .pending →
      (∀ m ∈ dependencies, isWorkflowNodeTerminal m.status = true) →
      evaluateWorkflowCondition d.condition dependencies = .ok false →
      Turn others pass d n dependencies (skipTurn pass d)
  | start : n.status = .pending →
      (∀ m ∈ dependencies, isWorkflowNodeTerminal m.status = true) →
      evaluateWorkflowCondition d.condition dependencies = .ok true →
      pass.workflow.running.size < pass.workflow.definition.maxConcurrency →
      canStart (others ++ pass.workflow.runningNodes) n = true →
      Turn others pass d n dependencies (startTurn pass d)

variable {d : NormalizedWorkflowNodeDefinition}

/-- The snapshots of the dependencies of a node are there. -/
theorem WellFormed.dependencies (h : w.WellFormed) (hd : d ∈ w.definition.nodes) :
    ∃ dependencies, d.dependsOn.mapM w.node? = some dependencies := by
  have hknown := h.core.valid.known d hd
  generalize d.dependsOn = ids at hknown
  induction ids with
  | nil => exact ⟨[], rfl⟩
  | cons id ids ih =>
    obtain ⟨n, hn⟩ := h.core.exists_snapshot (hknown id (mem_cons_self ..))
    obtain ⟨ns, hns⟩ := ih fun x hx => hknown x (mem_cons_of_mem _ hx)
    refine ⟨n :: ns, ?_⟩
    rw [mapM_cons, node?, hn, hns]
    rfl

variable {pass : Pass}

/-- **A turn never throws**, and does one of the five things. -/
theorem scheduleNode_cases (others : List WorkflowNodeSnapshot) (h : pass.workflow.WellFormed)
    (hd : d ∈ pass.workflow.definition.nodes) :
    ∃ n dependencies pass', pass.workflow.node? d.id = some n ∧ n.writePolicy = d.writePolicy ∧
      d.dependsOn.mapM pass.workflow.node? = some dependencies ∧
      scheduleNode others pass d = .ok pass' ∧ Turn others pass d n dependencies pass' := by
  obtain ⟨n, hn, hpolicy⟩ := h.core.snapshot hd
  obtain ⟨dependencies, hdeps⟩ := h.dependencies hd
  obtain ⟨b, hb⟩ := evaluateWorkflowCondition_ok (h.core.valid.conditions d hd) dependencies
  have hn' : pass.workflow.node? d.id = some n := hn
  suffices hturn : ∃ pass', scheduleNode others pass d = .ok pass' ∧
      Turn others pass d n dependencies pass' by
    obtain ⟨pass', heq, hturn⟩ := hturn
    exact ⟨n, dependencies, pass', hn', hpolicy, hdeps, heq, hturn⟩
  unfold scheduleNode
  simp only [hn', hdeps, hb]
  by_cases hp : n.status = .pending
  · rw [if_neg (not_not.2 hp)]
    cases hall : dependencies.all (fun m => isWorkflowNodeTerminal m.status) with
    | false =>
      obtain ⟨m, hm, hmt⟩ := List.all_eq_false.1 hall
      exact ⟨pass, rfl, .notReady hp hm (by simpa using hmt)⟩
    | true =>
      have hready : ∀ m ∈ dependencies, isWorkflowNodeTerminal m.status = true := by
        simpa using hall
      cases b with
      | false => exact ⟨_, rfl, .skip hp hready hb⟩
      | true =>
        by_cases hroom : pass.workflow.definition.maxConcurrency ≤ pass.workflow.running.size ∨
            canStart (others ++ pass.workflow.runningNodes) n = false
        · exact ⟨pass, by simp [hroom], .blocked hp hready hb hroom⟩
        · obtain ⟨hsize, hcan⟩ := not_or.1 hroom
          exact ⟨_, by simp [hroom], .start hp hready hb (by omega) (by simpa using hcan)⟩
  · rw [if_pos hp]
    exact ⟨pass, rfl, .notPending hp⟩

variable {call : RunNodeCall}

theorem WellFormed.delegate (h : CoreInvariant w.definition w.nodes w.calls w.entered)
    (hcall : call ∈ w.calls)
    (hiso : ∀ c ∈ w.calls, c.token ≠ call.token → c.point = .creatingWorktree → c.node.writePolicy =
      .isolated) :
    (w.delegate call.token call.node).WellFormed := by
  constructor
  · exact h.delegate _ ⟨call, hcall, rfl, rfl⟩
  · intro c hc hp
    obtain ⟨b, hb, rfl⟩ := List.mem_map.1 hc
    split at hp
    · cases hp
    · next hne => rw [if_neg hne]; exact hiso b hb hne hp

/-- An isolated node starts by asking for a worktree. -/
theorem startTurn_isolated (pass : Pass) (h : d.writePolicy = .isolated) :
    (ActiveWorkflow.startTurn pass d).workflow =
      { pass.workflow.registerCall d with
        running := pass.workflow.running.set d.id pass.workflow.entered.length } := by
  have henter : pass.workflow.enterRunNode d = (pass.workflow.registerCall d, false) := if_pos h
  unfold ActiveWorkflow.startTurn
  dsimp only
  rw [henter]
  rfl

/-- Any other node starts its agent at once. -/
theorem startTurn_direct (pass : Pass) (h : d.writePolicy ≠ .isolated) :
    (ActiveWorkflow.startTurn pass d).workflow =
      { (pass.workflow.registerCall d).delegate pass.workflow.entered.length d with
        running := pass.workflow.running.set d.id pass.workflow.entered.length } := by
  have henter : pass.workflow.enterRunNode d =
      ((pass.workflow.registerCall d).delegate pass.workflow.entered.length d, true) := if_neg h
  unfold ActiveWorkflow.startTurn
  dsimp only
  rw [henter]
  rfl

theorem WellFormed.startTurn (h : pass.workflow.WellFormed)
    (hd : d ∈ pass.workflow.definition.nodes) :
    (startTurn pass d).workflow.WellFormed := by
  have hcore := h.core.enter hd
  have hlt : ∀ c ∈ pass.workflow.calls, c.token < pass.workflow.entered.length := by
    intro c hc
    exact (List.getElem?_eq_some_iff.1 (h.core.logged c hc)).1
  by_cases hiso : d.writePolicy = .isolated
  · rw [startTurn_isolated pass hiso]
    refine ⟨hcore, ?_⟩
    intro c hc hp
    rcases List.mem_append.1 hc with hc | hc
    · exact h.isolated c hc hp
    · rw [List.mem_singleton.1 hc]; exact hiso
  · rw [startTurn_direct pass hiso]
    have hdel := WellFormed.delegate (w := pass.workflow.registerCall d) hcore (mem_append_right _
      (mem_singleton_self _)) (by
      intro c hc hne hp
      rcases List.mem_append.1 hc with hc | hc
      · exact h.isolated c hc hp
      · rw [List.mem_singleton.1 hc] at hne
        exact absurd rfl hne)
    exact ⟨hdel.core, hdel.isolated⟩

variable {others : List WorkflowNodeSnapshot}

variable {pass' : Pass} {n : WorkflowNodeSnapshot} {dependencies : List WorkflowNodeSnapshot}

theorem WellFormed.turn (h : pass.workflow.WellFormed) (hd : d ∈ pass.workflow.definition.nodes)
    (hturn : Turn others pass d n dependencies pass') :
    pass'.workflow.WellFormed := by
  cases hturn with
  | notPending => exact h
  | notReady => exact h
  | blocked => exact h
  | skip =>
    exact h.mapNodes (keepsIdentity_at (keepsIdentity_finishNode ..) _)
      (onlyEnds_at (onlyEnds_finishNode rfl _ _) _)
  | start => exact h.startTurn hd

theorem turn_definition (hturn : Turn others pass d n dependencies pass') :
    pass'.workflow.definition = pass.workflow.definition := by
  cases hturn with
  | start =>
    by_cases hiso : d.writePolicy = .isolated
    · rw [startTurn_isolated pass hiso]; rfl
    · rw [startTurn_direct pass hiso]; rfl
  | _ => rfl

/-- One turn as a partial step, so that a pass is a run. -/
def turnStep (others : List WorkflowNodeSnapshot) (pass : Pass)
    (d : NormalizedWorkflowNodeDefinition) : Option Pass :=
  (scheduleNode others pass d).toOption

variable {P : Pass → Prop} {G : Pass → NormalizedWorkflowNodeDefinition → Pass → Prop}
  {definition : NormalizedWorkflowDefinition}

/-- **The rule for a pass.**  A property of passes that every guarded turn keeps holds
at the end of a pass whose turns are all guarded, and the pass does not throw. -/
theorem foldlM_turns (others : List WorkflowNodeSnapshot)
    (hP : ∀ pass d n dependencies pass', pass.workflow.WellFormed → pass.workflow.definition =
      definition → d ∈ definition.nodes → pass.workflow.node? d.id = some n → n.writePolicy =
      d.writePolicy → d.dependsOn.mapM pass.workflow.node? = some dependencies → Turn others pass d
      n dependencies pass' → G pass d pass' → P pass → P pass') :
    ∀ (ds : List NormalizedWorkflowNodeDefinition) (pass : Pass), ds ⊆ definition.nodes →
      pass.workflow.WellFormed → pass.workflow.definition = definition →
      Along (turnStep others) G pass ds → P pass →
      ∃ pass', ds.foldlM (scheduleNode others) pass = .ok pass' ∧ P pass' ∧
        pass'.workflow.WellFormed ∧ pass'.workflow.definition = definition := by
  intro ds
  induction ds with
  | nil => intro pass _ hw hdef _ hPp; exact ⟨pass, rfl, hPp, hw, hdef⟩
  | cons d ds ih =>
    intro pass hsub hw hdef hG hPp
    have hd : d ∈ definition.nodes := hsub (mem_cons_self ..)
    obtain ⟨n, deps, pass', hn, hpol, hdeps, heq, hturn⟩ :=
      scheduleNode_cases others hw (hdef ▸ hd)
    obtain ⟨hg, hrest⟩ := hG pass' (by rw [turnStep, heq]; rfl)
    rw [foldlM_cons, heq]
    exact ih pass' (fun x hx => hsub (mem_cons_of_mem _ hx)) (hw.turn (hdef ▸ hd) hturn)
      ((turn_definition hturn).trans hdef) hrest
      (hP pass d n deps pass' hw hdef hd hn hpol hdeps hturn hg hPp)

theorem WellFormed.beginPass (h : w.WellFormed) : w.beginPass.workflow.WellFormed := by
  unfold ActiveWorkflow.beginPass
  simp only
  split
  · exact h.abortCalls _
  · exact h

theorem beginPass_definition (w : ActiveWorkflow) :
    w.beginPass.workflow.definition = w.definition := by
  unfold beginPass; dsimp only; split <;> rfl

theorem schedulingPass_rule (others : List WorkflowNodeSnapshot) (h : w.WellFormed)
    (hG : Along (turnStep others) G w.beginPass w.definition.nodes) (hstart : P w.beginPass)
    (hP : ∀ pass d n dependencies pass', pass.workflow.WellFormed → pass.workflow.definition =
      w.definition → d ∈ w.definition.nodes → pass.workflow.node? d.id = some n → n.writePolicy =
      d.writePolicy → d.dependsOn.mapM pass.workflow.node? = some dependencies → Turn others pass d
      n dependencies pass' → G pass d pass' → P pass → P pass') :
    ∃ pass, schedulingPass others w = .ok pass ∧ P pass ∧ pass.workflow.WellFormed ∧
      pass.workflow.definition = w.definition :=
  foldlM_turns others hP w.definition.nodes w.beginPass (fun _ hx => hx) h.beginPass
    (beginPass_definition w) hG hstart

/-! ## One event -/

theorem WellFormed.afterPass (h : pass.workflow.WellFormed) :
    (afterPass others pass).WellFormed := by
  unfold ActiveWorkflow.afterPass
  dsimp only
  split
  · exact ⟨h.core, h.isolated⟩
  · split
    · exact ⟨h.core, h.isolated⟩
    · split
      · exact ⟨h.core, h.isolated⟩
      · have := h.mapNodes (keepsIdentity_finishPending (fun _ => true) .lost
          ⟨"scheduler_deadlock", "Workflow scheduler could not make deterministic progress"⟩)
          (onlyEnds_finishPending rfl _ _)
        exact ⟨this.core, this.isolated⟩

/-- The loop is at the test of the `while` loop, and the test succeeds: continuing it
runs a scheduling pass. -/
def RunsPass (w : ActiveWorkflow) : Prop :=
  (w.loop = .ready ∨ ∃ tokens, w.loop = .racing tokens) ∧
    ∃ n ∈ w.nodes, isWorkflowNodeTerminal n.status = false

/-- Is the loop at the test of the `while` loop? -/
def atTest (w : ActiveWorkflow) : Bool :=
  match w.loop with
  | .ready | .racing _ => true
  | _ => false

theorem atTest_iff : w.atTest = true ↔ w.loop = .ready ∨ ∃ tokens, w.loop = .racing tokens := by
  unfold atTest
  cases w.loop <;> simp

instance (w : ActiveWorkflow) : Decidable w.RunsPass :=
  have := decidable_of_iff _ (@atTest_iff w)
  inferInstanceAs (Decidable (_ ∧ _))

variable {r : ActiveWorkflow × Bool}

/-- The ways the loop can continue: with a pass, out of the `while` loop, or into the
`finally` block. -/
theorem resume_cases (h : w.WellFormed) (hr : w.resume others = some r) :
    (∃ pass, w.RunsPass ∧ schedulingPass others w = .ok pass ∧
      r = (afterPass others pass, pass.published)) ∨
    ((∀ n ∈ w.nodes, isWorkflowNodeTerminal n.status = true) ∧
      r = ({ w with loop := .draining w.running.values }, false)) ∨
    ((∃ tokens, w.loop = .draining tokens ∧ tokens.all w.isSettled = true) ∧
      r = ({ w with status := w.finalStatus, loop := .finalizing }, false)) := by
  have hiterate : (w.loop = .ready ∨ ∃ tokens, w.loop = .racing tokens) →
      ∀ r, w.iterate others = r →
      (∃ pass, w.RunsPass ∧ schedulingPass others w = .ok pass ∧
        r = (afterPass others pass, pass.published)) ∨
      ((∀ n ∈ w.nodes, isWorkflowNodeTerminal n.status = true) ∧
        r = ({ w with loop := .draining w.running.values }, false)) := by
    rintro hloop r rfl
    obtain ⟨pass, hpass, -⟩ := schedulingPass_rule others (P := fun _ => True)
      (G := fun _ _ _ => True) h (along_true _ _) trivial (fun _ _ _ _ _ _ _ _ _ _ _ _ _ _ => trivial)
    unfold iterate
    split
    · next hall => exact Or.inr ⟨by simpa using hall, rfl⟩
    · next hall =>
      rw [hpass]
      refine Or.inl ⟨pass, ⟨hloop, ?_⟩, rfl, rfl⟩
      simpa using hall
  unfold resume at hr
  split at hr
  · next hloop =>
    rcases hiterate (Or.inl hloop) r (some.inj hr) with hpass | hout
    · exact Or.inl hpass
    · exact Or.inr (Or.inl hout)
  · next tokens hloop =>
    split at hr
    · rcases hiterate (Or.inr ⟨tokens, hloop⟩) r (some.inj hr) with hpass | hout
      · exact Or.inl hpass
      · exact Or.inr (Or.inl hout)
    · cases hr
  · next tokens hloop =>
    split at hr
    · next hall => cases hr; exact Or.inr (Or.inr ⟨⟨tokens, hloop, hall⟩, rfl⟩)
    · cases hr
  · cases hr
  · cases hr
  · cases hr

theorem isWorkflowNodeTerminal_statusOfResult (s : AgentTaskStatus) :
    isWorkflowNodeTerminal (statusOfResult s) = true := by
  cases s <;> rfl

theorem WellFormed.runNodeThrew (h : w.WellFormed) (hcall : call ∈ w.calls) (leased : Bool)
    (message : String) : (w.runNodeThrew call leased message).1.WellFormed := by
  refine h.endRunNode hcall ?_ _ _ _ _
  split <;> rfl

theorem WellFormed.requestCancel (h : w.WellFormed) : w.requestCancel.1.WellFormed := by
  unfold ActiveWorkflow.requestCancel
  split
  · exact h
  · have := (h.abortCalls (w.calls.map (·.token))).mapNodes
      (keepsIdentity_finishPending (fun _ => true) .cancelled
        ⟨"cancelled", "Workflow was cancelled before the node started"⟩)
      (onlyEnds_finishPending rfl _ _)
    exact ⟨this.core, this.isolated⟩

/-- **Every event keeps the invariant.** -/
theorem advance_wellFormed {event : WorkflowEvent} (h : w.WellFormed)
    (hr : w.advance others event = some r) :
    r.1.WellFormed := by
  cases event with
  | resume =>
    rcases resume_cases h hr with ⟨pass, -, hpass, rfl⟩ | ⟨-, rfl⟩ | ⟨-, rfl⟩
    · obtain ⟨pass', hpass', -, hw, -⟩ := schedulingPass_rule others
        (P := fun _ => True) (G := fun _ _ _ => True) h (along_true _ _) trivial
        (fun _ _ _ _ _ _ _ _ _ _ _ _ _ _ => trivial)
      rw [hpass] at hpass'
      cases hpass'
      exact hw.afterPass
    · exact ⟨h.core, h.isolated⟩
    · exact ⟨h.core, h.isolated⟩
  | worktreeCreated token =>
    obtain ⟨call, hc, rfl⟩ := map_eq_some_iff.1 hr
    obtain ⟨hmem, rfl, -⟩ := waitingCall?_some hc
    exact WellFormed.delegate h.core hmem fun c hc _ hp => h.isolated c hc hp
  | worktreeFailed | agentThrew =>
    obtain ⟨call, hc, rfl⟩ := map_eq_some_iff.1 hr
    exact h.runNodeThrew (waitingCall?_some hc).1 _ _
  | agentProgress token =>
    obtain ⟨call, hc, rfl⟩ := map_eq_some_iff.1 hr
    exact h
  | agentReturned token result =>
    obtain ⟨call, hc, rfl⟩ := map_eq_some_iff.1 hr
    exact h.endRunNode (waitingCall?_some hc).1 (isWorkflowNodeTerminal_statusOfResult _) _ _ _ _
  | worktreeCleaned token diagnostics =>
    obtain ⟨call, hc, rfl⟩ := map_eq_some_iff.1 hr
    obtain ⟨hmem, rfl, hpoint⟩ := waitingCall?_some hc
    have hpoint : call.point = .cleaning := by simpa using hpoint
    have hnoted : (w.changeNode call.node.id (noteDiagnostics diagnostics)).WellFormed :=
      h.mapNodes (keepsIdentity_at (keepsIdentity_noteDiagnostics _) _)
        (onlyEnds_at (onlyEnds_noteDiagnostics _) _)
    refine hnoted.moveCall hmem (by simp) ?_
    intro n _
    rw [hpoint]
    simp
  | runNodeSettled token =>
    obtain ⟨call, hc, rfl⟩ := map_eq_some_iff.1 hr
    obtain ⟨hmem, rfl, hpoint⟩ := waitingCall?_some hc
    have hpoint : call.point = .returned := by simpa using hpoint
    refine ⟨h.core.settle ?_, fun c hc => h.isolated c (mem_of_mem_filter hc)⟩
    intro c hc ht
    rw [inj_on_of_nodup_map h.core.tokens hc hmem ht]
    exact hpoint
  | finalized leases =>
    obtain ⟨-, rfl⟩ := ite_some_none_eq_some.1 hr
    have := h.mapNodes (g := fun node => if node.writePolicy = .isolated then
      noteDiagnostics
        ((leases.filter fun lease => decide (lease.1 = node.id)).map Prod.snd).flatten node
      else node) ⟨fun n => by split <;> rfl, fun n => by split <;> rfl⟩
      (fun n => Or.inl (by dsimp only; split <;> rfl))
    exact ⟨this.core, this.isolated⟩
  | requestCancel =>
    obtain ⟨-, rfl⟩ := ite_some_none_eq_some.1 hr
    exact h.requestCancel

theorem WellFormed.wake (h : w.WellFormed) : w.wake.WellFormed := by
  unfold ActiveWorkflow.wake
  split
  · exact ⟨h.core, h.isolated⟩
  · exact h

theorem initial_wellFormed (h : ValidDefinition definition) : (initial definition).WellFormed := by
  have hpending : ∀ id n, nodeById (initial definition).nodes id = some n → n.status = .pending := by
    intro id n hn
    obtain ⟨d, -, rfl⟩ := List.mem_map.1 (nodeById_some hn).1
    rfl
  refine ⟨⟨h, ?_, ?_, ?_, ?_, ?_, ?_⟩, ?_⟩
  · simp [initial]
  · intro c hc; exact absurd hc not_mem_nil
  · intro c hc; exact absurd hc not_mem_nil
  · exact nodup_nil
  · intro id hid; exact absurd hid not_mem_nil
  · intro id n hn hp
    rw [hpending id n hn] at hp
    cases hp
  · intro c hc; exact absurd hc not_mem_nil

end ActiveWorkflow

/-! ## What happens to the nodes -/

/-- Some nodes end, and the snapshots otherwise stay what they are. -/
def EndsNodes (before after : List WorkflowNodeSnapshot) : Prop :=
  ∃ g, KeepsIdentity g ∧ OnlyEnds g ∧ after = before.map g

theorem EndsNodes.refl (nodes : List WorkflowNodeSnapshot) : EndsNodes nodes nodes :=
  ⟨id, ⟨fun _ => rfl, fun _ => rfl⟩, fun _ => Or.inl rfl, (map_id nodes).symm⟩

variable {a b : List WorkflowNodeSnapshot}

theorem EndsNodes.trans {c : List WorkflowNodeSnapshot} (h : EndsNodes a b) (h' : EndsNodes b c) :
    EndsNodes a c := by
  obtain ⟨g, hg, hgs, rfl⟩ := h
  obtain ⟨f, hf, hfs, rfl⟩ := h'
  refine ⟨f ∘ g, ⟨fun n => (hf.id _).trans (hg.id n),
    fun n => (hf.writePolicy _).trans (hg.writePolicy n)⟩, ?_, map_map⟩
  intro n
  show (f (g n)).status = n.status ∨ _ ∧ isWorkflowNodeTerminal (f (g n)).status = true
  rcases hfs (g n) with heq | ⟨hnot, hterm⟩
  · rw [heq]; exact hgs n
  · rcases hgs n with heq' | ⟨hnot', hterm'⟩
    · exact Or.inr ⟨heq' ▸ hnot, hterm⟩
    · rw [hterm'] at hnot; cases hnot

variable {id : String}

/-- A snapshot after some nodes ended, seen from before. -/
theorem EndsNodes.before (h : EndsNodes a b) {m : WorkflowNodeSnapshot}
    (hm : nodeById b id = some m) :
    ∃ n, nodeById a id = some n ∧ m.writePolicy = n.writePolicy ∧
      (m.status = n.status ∨
        isWorkflowNodeTerminal n.status = false ∧ isWorkflowNodeTerminal m.status = true) := by
  obtain ⟨g, hg, hs, rfl⟩ := h
  rw [nodeById_map hg.id] at hm
  obtain ⟨n, hn, rfl⟩ := map_eq_some_iff.1 hm
  exact ⟨n, hn, hg.writePolicy n, hs n⟩

/-- A snapshot before some nodes ended, seen from after. -/
theorem EndsNodes.after (h : EndsNodes a b) {n : WorkflowNodeSnapshot}
    (hn : nodeById a id = some n) :
    ∃ m, nodeById b id = some m ∧
      (m.status = n.status ∨
        isWorkflowNodeTerminal n.status = false ∧ isWorkflowNodeTerminal m.status = true) := by
  obtain ⟨g, hg, hs, rfl⟩ := h
  exact ⟨g n, by rw [nodeById_map hg.id, hn]; rfl, hs n⟩

variable {status : WorkflowNodeStatus}

theorem endsNodes_finishPending (h : isWorkflowNodeTerminal status = true) (select : String → Bool)
    (error) (nodes : List WorkflowNodeSnapshot) :
    EndsNodes nodes (finishPending select status error nodes) :=
  ⟨_, keepsIdentity_finishPending .., onlyEnds_finishPending h _ _, rfl⟩

theorem endsNodes_finishNode (h : isWorkflowNodeTerminal status = true) (output error) (id : String)
    (nodes : List WorkflowNodeSnapshot) :
    EndsNodes nodes (updateNode id (finishNode status output error) nodes) :=
  ⟨_, keepsIdentity_at (keepsIdentity_finishNode ..) id,
    onlyEnds_at (onlyEnds_finishNode h _ _) id, rfl⟩

namespace ActiveWorkflow

variable {w : ActiveWorkflow}

theorem applyFailurePolicy_endsNodes (w : ActiveWorkflow) (d : NormalizedWorkflowNodeDefinition) :
    EndsNodes w.nodes (w.applyFailurePolicy d).nodes := by
  unfold applyFailurePolicy
  split
  · exact .refl _
  · exact endsNodes_finishPending rfl _ _ _
  · exact endsNodes_finishPending rfl _ _ _

theorem leaveRunNode_nodes (w : ActiveWorkflow) (token : Nat) (id : String) (leased : Bool) :
    (w.leaveRunNode token id leased).1.nodes = w.nodes := by
  obtain ⟨point, -, heq⟩ := leaveRunNode_eq w token id leased
  rw [heq]; rfl

theorem endRunNode_endsNodes (w : ActiveWorkflow) (call : RunNodeCall)
    (hstatus : isWorkflowNodeTerminal status = true) (output error) (failed leased : Bool) :
    EndsNodes w.nodes (w.endRunNode call status output error failed leased).1.nodes := by
  unfold endRunNode
  rw [leaveRunNode_nodes]
  have hfin := endsNodes_finishNode hstatus output error call.node.id w.nodes
  split
  · exact hfin.trans (applyFailurePolicy_endsNodes (w.changeNode call.node.id _) call.node)
  · exact hfin

theorem runNodeThrew_endsNodes (w : ActiveWorkflow) (call : RunNodeCall) (leased : Bool)
    (message : String) : EndsNodes w.nodes (w.runNodeThrew call leased message).1.nodes := by
  refine endRunNode_endsNodes w call ?_ _ _ _ _
  split <;> rfl

theorem finalize_endsNodes (w : ActiveWorkflow) (leases : List (String × List WorkflowDiagnostic)) :
    EndsNodes w.nodes (w.finalize leases).nodes :=
  ⟨_, ⟨fun n => by split <;> rfl, fun n => by split <;> rfl⟩,
    fun n => Or.inl (by split <;> rfl), rfl⟩

theorem afterPass_endsNodes (others : List WorkflowNodeSnapshot) (pass : Pass) :
    EndsNodes pass.workflow.nodes (afterPass others pass).nodes := by
  unfold afterPass
  dsimp only
  split
  · exact .refl _
  · split
    · exact .refl _
    · split
      · exact .refl _
      · exact endsNodes_finishPending rfl _ _ _

theorem beginPass_nodes (w : ActiveWorkflow) : w.beginPass.workflow.nodes = w.nodes := by
  unfold beginPass
  dsimp only
  split <;> rfl

variable {others : List WorkflowNodeSnapshot} {event : WorkflowEvent} {r : ActiveWorkflow × Bool}

/-- An event other than a continuation of the loop and the creation of a worktree only
ends nodes. -/
theorem advance_endsNodes (hr : w.advance others event = some r) (hresume : event ≠ .resume)
    (hcreated : ∀ token, event ≠ .worktreeCreated token) : EndsNodes w.nodes r.1.nodes := by
  cases event with
  | resume => exact absurd rfl hresume
  | worktreeCreated token => exact absurd rfl (hcreated token)
  | worktreeFailed | agentThrew =>
    obtain ⟨call, -, rfl⟩ := map_eq_some_iff.1 hr
    exact runNodeThrew_endsNodes w call _ _
  | agentProgress | runNodeSettled =>
    obtain ⟨call, -, rfl⟩ := map_eq_some_iff.1 hr
    exact .refl _
  | agentReturned token result =>
    obtain ⟨call, -, rfl⟩ := map_eq_some_iff.1 hr
    exact endRunNode_endsNodes w call (isWorkflowNodeTerminal_statusOfResult _) _ _ _ _
  | worktreeCleaned token diagnostics =>
    obtain ⟨call, -, rfl⟩ := map_eq_some_iff.1 hr
    exact ⟨_, keepsIdentity_at (keepsIdentity_noteDiagnostics diagnostics) call.node.id,
      onlyEnds_at (onlyEnds_noteDiagnostics diagnostics) call.node.id, rfl⟩
  | finalized leases =>
    obtain ⟨-, rfl⟩ := ite_some_none_eq_some.1 hr
    exact finalize_endsNodes w leases
  | requestCancel =>
    obtain ⟨-, rfl⟩ := ite_some_none_eq_some.1 hr
    unfold requestCancel
    split
    · exact .refl _
    · exact endsNodes_finishPending rfl _ _ _

/-- What stays the same when a call of `runNode` moves on. -/
structure SameFrame (w v : ActiveWorkflow) : Prop where
  definition : v.definition = w.definition
  status : v.status = w.status
  cancelRequested : v.cancelRequested = w.cancelRequested
  running : v.running = w.running
  loop : v.loop = w.loop
  entered : v.entered = w.entered
  calls : v.calls.map (fun c => (c.token, c.node)) = w.calls.map fun c => (c.token, c.node)

variable {v : ActiveWorkflow}

theorem SameFrame.trans {u : ActiveWorkflow} (h : SameFrame w v) (h' : SameFrame v u) :
    SameFrame w u :=
  ⟨h'.definition.trans h.definition, h'.status.trans h.status,
    h'.cancelRequested.trans h.cancelRequested, h'.running.trans h.running, h'.loop.trans h.loop,
    h'.entered.trans h.entered, h'.calls.trans h.calls⟩

theorem SameFrame.mem_calls (h : SameFrame w v) {c : RunNodeCall} (hc : c ∈ v.calls) :
    ∃ b ∈ w.calls, b.token = c.token ∧ b.node = c.node := by
  have hmem : (c.token, c.node) ∈ w.calls.map fun c => (c.token, c.node) :=
    h.calls ▸ List.mem_map.2 ⟨c, hc, rfl⟩
  obtain ⟨b, hb, heq⟩ := List.mem_map.1 hmem
  injection heq with htoken hnode
  exact ⟨b, hb, htoken, hnode⟩

theorem moveCall_frame (w : ActiveWorkflow) (token : Nat) (point : RunNodePoint) :
    SameFrame w (w.moveCall token point) := by
  refine ⟨rfl, rfl, rfl, rfl, rfl, rfl, ?_⟩
  show (w.calls.map _).map _ = _
  rw [map_map]
  refine map_congr_left fun c _ => ?_
  show ((if _ then _ else _ : RunNodeCall).token, (if _ then _ else _ : RunNodeCall).node) = _
  split <;> rfl

theorem abortCalls_frame (w : ActiveWorkflow) (tokens : List Nat) :
    SameFrame w (w.abortCalls tokens) := by
  refine ⟨rfl, rfl, rfl, rfl, rfl, rfl, ?_⟩
  show (w.calls.map _).map _ = _
  rw [map_map]
  refine map_congr_left fun c _ => ?_
  show ((if _ then _ else _ : RunNodeCall).token, (if _ then _ else _ : RunNodeCall).node) = _
  split <;> rfl

theorem applyFailurePolicy_frame (w : ActiveWorkflow) (d : NormalizedWorkflowNodeDefinition) :
    SameFrame w (w.applyFailurePolicy d) := by
  unfold applyFailurePolicy
  split
  · exact ⟨rfl, rfl, rfl, rfl, rfl, rfl, rfl⟩
  · have h := abortCalls_frame w
      ((w.nodeControllers.entries.filter fun p => decide (p.1 ≠ d.id)).map Prod.snd)
    exact ⟨rfl, rfl, rfl, rfl, rfl, rfl, h.calls⟩
  · exact ⟨rfl, rfl, rfl, rfl, rfl, rfl, rfl⟩

/-- Only the scheduling loop calls `runNode`, stores promises or moves itself. -/
theorem endRunNode_frame (w : ActiveWorkflow) (call : RunNodeCall) (status output error)
    (failed leased : Bool) :
    SameFrame w (w.endRunNode call status output error failed leased).1 := by
  unfold endRunNode
  have hhandled : SameFrame w (if failed then
      (w.changeNode call.node.id (finishNode status output error)).applyFailurePolicy call.node
      else w.changeNode call.node.id (finishNode status output error)) := by
    have hchanged : SameFrame w (w.changeNode call.node.id (finishNode status output error)) :=
      ⟨rfl, rfl, rfl, rfl, rfl, rfl, rfl⟩
    split
    · exact hchanged.trans (applyFailurePolicy_frame _ _)
    · exact hchanged
  obtain ⟨point, -, heq⟩ := leaveRunNode_eq _ call.token call.node.id leased
  rw [heq]
  have hmoved := hhandled.trans (moveCall_frame _ call.token point)
  exact ⟨hmoved.definition, hmoved.status, hmoved.cancelRequested, hmoved.running, hmoved.loop,
    hmoved.entered, hmoved.calls⟩

theorem afterPass_definition (others : List WorkflowNodeSnapshot) (pass : Pass) :
    (afterPass others pass).definition = pass.workflow.definition := by
  unfold afterPass
  dsimp only
  split
  · rfl
  · split
    · rfl
    · split <;> rfl

/-- Only a pass enters nodes. -/
theorem advance_kept (hr : w.advance others event = some r) (hresume : event ≠ .resume) :
    r.1.definition = w.definition ∧ r.1.entered = w.entered := by
  cases event with
  | resume => exact absurd rfl hresume
  | worktreeCreated token | agentProgress token | worktreeCleaned token | runNodeSettled token =>
    obtain ⟨call, -, rfl⟩ := map_eq_some_iff.1 hr
    exact ⟨rfl, rfl⟩
  | worktreeFailed token | agentReturned token | agentThrew token =>
    obtain ⟨call, -, rfl⟩ := map_eq_some_iff.1 hr
    have hframe := endRunNode_frame w call
    exact ⟨(hframe _ _ _ _ _).definition, (hframe _ _ _ _ _).entered⟩
  | finalized leases =>
    obtain ⟨-, rfl⟩ := ite_some_none_eq_some.1 hr
    exact ⟨rfl, rfl⟩
  | requestCancel =>
    obtain ⟨-, rfl⟩ := ite_some_none_eq_some.1 hr
    unfold requestCancel
    split <;> exact ⟨rfl, rfl⟩

/-- The definition of a workflow never changes. -/
theorem advance_definition (h : w.WellFormed) (hr : w.advance others event = some r) :
    r.1.definition = w.definition := by
  by_cases hresume : event = .resume
  · subst hresume
    rcases resume_cases h hr with ⟨pass, -, hpass, rfl⟩ | ⟨-, rfl⟩ | ⟨-, rfl⟩
    · obtain ⟨pass', hpass', -, -, hdef⟩ := schedulingPass_rule others
        (P := fun _ => True) (G := fun _ _ _ => True) h (along_true _ _) trivial
        (fun _ _ _ _ _ _ _ _ _ _ _ _ _ _ => trivial)
      rw [hpass] at hpass'
      cases hpass'
      exact (afterPass_definition others pass).trans hdef
    · rfl
    · rfl
  · exact (advance_kept hr hresume).1

/-- A workflow that has ended stays ended. -/
theorem advance_isActive (hr : w.advance others event = some r) (hactive : r.1.isActive = true) :
    w.isActive = true := by
  have hloop : ∀ {v : ActiveWorkflow}, v.loop = w.loop → v.isActive = true → w.isActive = true := by
    intro v hv
    unfold isActive
    rw [hv]
    exact id
  cases event with
  | resume =>
    unfold isActive
    rw [decide_eq_true_eq]
    intro hdone
    unfold advance resume at hr
    dsimp only at hr
    rw [hdone] at hr
    cases hr
  | worktreeCreated token | agentProgress token | worktreeCleaned token | runNodeSettled token =>
    obtain ⟨call, -, rfl⟩ := map_eq_some_iff.1 hr
    exact hactive
  | worktreeFailed token | agentReturned token | agentThrew token =>
    obtain ⟨call, -, rfl⟩ := map_eq_some_iff.1 hr
    exact hloop (endRunNode_frame w call _ _ _ _ _).loop hactive
  | finalized leases =>
    obtain ⟨hfin, -⟩ := ite_some_none_eq_some.1 hr
    unfold isActive
    rw [hfin]
    rfl
  | requestCancel =>
    exact (ite_some_none_eq_some.1 hr).1

end ActiveWorkflow

/-! ## Runs -/

variable {profiles : Profiles}

variable {input : WorkflowDefinition} {task : Option String} {aborted : Bool} {w : ActiveWorkflow}

/-- What `start` creates: the initial workflow of a valid definition, cancelled or
not. -/
theorem started_spec (h : started profiles input task aborted = .ok w) :
    ∃ definition, ValidDefinition definition ∧
      w = { (if aborted then (ActiveWorkflow.initial definition).requestCancel.1
        else ActiveWorkflow.initial definition) with status := .running } := by
  unfold started at h
  obtain ⟨validated, hvalid, h⟩ := bind_eq_ok.1 h
  obtain ⟨definition, hmat, h⟩ := bind_eq_ok.1 h
  cases h
  exact ⟨definition, materializeWorkflowTask_valid (validateWorkflowDefinition_valid hvalid) hmat,
    rfl⟩

theorem started_wellFormed (h : started profiles input task aborted = .ok w) : w.WellFormed := by
  obtain ⟨definition, hvalid, rfl⟩ := started_spec h
  have hinit := ActiveWorkflow.initial_wellFormed hvalid
  cases aborted with
  | false => exact ⟨hinit.core, hinit.isolated⟩
  | true => exact ⟨hinit.requestCancel.core, hinit.requestCancel.isolated⟩

/-- A workflow, woken if something was published. -/
def wakeIf (published : Bool) (w : ActiveWorkflow) : ActiveWorkflow :=
  if published then w.wake else w

theorem wakeIf_nodes (b : Bool) (w : ActiveWorkflow) : (wakeIf b w).nodes = w.nodes := by
  unfold wakeIf ActiveWorkflow.wake
  split
  · split <;> rfl
  · rfl

theorem wakeIf_isActive (b : Bool) (w : ActiveWorkflow) : (wakeIf b w).isActive = w.isActive := by
  unfold wakeIf ActiveWorkflow.wake
  split
  · split
    · next h => unfold ActiveWorkflow.isActive; rw [h]; rfl
    · rfl
  · rfl

theorem get?_store (s : RuntimeState) (id k : String) (r : ActiveWorkflow × Bool) :
    (store s id r).get? k = if k = id then some (wakeIf r.2 r.1)
      else (s.get? k).map (wakeIf r.2) := by
  unfold store wakeIf
  cases r.2 with
  | true =>
    simp only [if_true]
    rw [OrderedMap.get?_mapValues, OrderedMap.get?_set]
    split <;> rfl
  | false =>
    simp only [Bool.false_eq_true, if_false]
    rw [OrderedMap.get?_set, Option.map_id']

variable {s t : RuntimeState} {e : RuntimeEvent}

/-- Everything a step of the runtime can do. -/
theorem step_cases (h : step profiles s e = some t) :
    (∃ id input task aborted error, e = .start id input task aborted ∧
      started profiles input task aborted = .error error ∧ t = s) ∨
    (∃ id input task aborted w, e = .start id input task aborted ∧ s.get? id = none ∧
      started profiles input task aborted = .ok w ∧ t = store s id (w, true)) ∨
    (∃ id event w r, e = .workflow id event ∧ s.get? id = some w ∧
      w.advance (runningElsewhere s id) event = some r ∧ t = store s id r) := by
  cases e with
  | start id input task aborted =>
    unfold step at h
    dsimp only at h
    split at h
    · cases h
    · next hnone =>
      cases hs : started profiles input task aborted with
      | error error =>
        rw [hs] at h
        cases h
        exact Or.inl ⟨id, input, task, aborted, error, rfl, hs, rfl⟩
      | ok w =>
        rw [hs] at h
        cases h
        exact Or.inr (Or.inl ⟨id, input, task, aborted, w, rfl, by simpa using hnone, hs, rfl⟩)
  | workflow id event =>
    unfold step at h
    dsimp only at h
    cases hw : s.get? id with
    | none => rw [hw] at h; cases h
    | some w =>
      rw [hw] at h
      obtain ⟨r, hr, rfl⟩ := map_eq_some_iff.1 h
      exact Or.inr (Or.inr ⟨id, event, w, r, rfl, hw, hr, rfl⟩)

/-- A property of every workflow of the runtime. -/
def Everywhere (I : ActiveWorkflow → Prop) (s : RuntimeState) : Prop :=
  ∀ id w, s.get? id = some w → I w

variable {I : ActiveWorkflow → Prop}

theorem everywhere_store (hwake : ∀ w, I w → I w.wake) {r : ActiveWorkflow × Bool}
    (hs : Everywhere I s) (hr : I r.1) :
    Everywhere I (store s id r) := by
  have hwakeIf : ∀ w, I w → I (wakeIf r.2 w) := by
    intro w hw
    unfold wakeIf
    split
    · exact hwake w hw
    · exact hw
  intro k v hk
  rw [get?_store] at hk
  split at hk
  · cases hk; exact hwakeIf _ hr
  · obtain ⟨u, hu, rfl⟩ := map_eq_some_iff.1 hk
    exact hwakeIf u (hs k u hu)

/-- **The rule for invariants of single workflows.** -/
theorem step_everywhere (hwake : ∀ w, I w → I w.wake)
    (hstart : ∀ input task aborted w, started profiles input task aborted = .ok w → I w)
    (hadvance : ∀ id event w r, e = .workflow id event → s.get? id = some w → I w → w.advance
      (runningElsewhere s id) event = some r → I r.1)
    (hs : Everywhere I s) (h : step profiles s e = some t) : Everywhere I t := by
  rcases step_cases h with ⟨-, -, -, -, -, -, -, rfl⟩ | ⟨id, input, task, aborted, w, -, -, hw, rfl⟩ |
    ⟨id, event, w, r, he, hw, hr, rfl⟩
  · exact hs
  · exact everywhere_store hwake hs (hstart input task aborted w hw)
  · exact everywhere_store hwake hs (hadvance id event w r he hw (hs id w hw) hr)

theorem step_wellFormed (hs : Everywhere ActiveWorkflow.WellFormed s)
    (h : step profiles s e = some t) :
    Everywhere ActiveWorkflow.WellFormed t :=
  step_everywhere (fun _ hw => hw.wake) (fun _ _ _ _ hw => started_wellFormed hw)
    (fun _ _ _ _ _ _ hw hr => ActiveWorkflow.advance_wellFormed hw hr) hs h

theorem everywhere_empty (I : ActiveWorkflow → Prop) : Everywhere I (.empty : RuntimeState) := by
  intro id w h
  cases h

/-! ## Small workflows to run -/

/-- A node with a write policy, some dependencies and otherwise nothing special. -/
def plainNode (id : String) (writePolicy : WorkflowWritePolicy) (dependsOn : List String) :
    WorkflowNodeDefinition :=
  { id, agent := none, profile := none, task := "work", dependsOn := some dependsOn,
    condition := none, writePolicy := some writePolicy, timeoutMs := none,
    failurePolicy := some .continue, budget := none, cancelStrategy := none }

/-- A workflow of the given nodes. -/
def plainDefinition (nodes : List WorkflowNodeDefinition) : WorkflowDefinition :=
  { version := 1, id := "plain", description := none, maxConcurrency := none, nodes }

/-- A session with one profile. -/
def plainProfiles : Profiles :=
  { exists? := fun profile => profile == "worker"
    options := { defaultProfile := some "worker", availableProfiles := ["worker"] } }

/-- An agent that succeeded without saying anything. -/
def plainResult : AgentTaskResult := { status := .completed, error := none, fields := [] }

/-- A workflow after a run of the runtime from its start. -/
def workflowAfter (events : List RuntimeEvent) (id : String) : Option ActiveWorkflow :=
  (runFrom (step plainProfiles) .empty events).bind fun s => s.get? id

end BeauPi.Workflow
