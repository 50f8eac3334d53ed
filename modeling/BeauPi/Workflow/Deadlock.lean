import BeauPi.Workflow.AtMostOnce

/-!
# The scheduler makes progress

When a pass starts nothing, nothing of the workflow is running and nothing of another
workflow is running, the loop gives up and marks what is still pending as lost.  As long
as `runNode` is not called twice for a node, this branch never finds a pending node: the
dependency order has a pending node all of whose dependencies have ended, and with
nothing running neither the concurrency limit nor a write policy holds it back.

A second call of `runNode` for a node breaks this: when the first call ends it removes
the promise of the second from the map of running promises, and the loop no longer knows
that the node is running.

* `PromiseKept` — every suspended call has its promise in the map of running promises.
* `pass_starts` — a pass over a workflow with a pending node and nothing running does
  something.
* `scheduler_never_deadlocks` — **in a run without re-entry the deadlock branch never
  finds a pending node.**
-/

namespace BeauPi.Workflow

open Machine List
open Option (map_eq_some_iff)

namespace ActiveWorkflow

variable {others : List WorkflowNodeSnapshot} {w : ActiveWorkflow}

/-! ## Promises -/

/-- Every node was entered at most once, and the promise of every suspended call is the
one the loop knows for its node. -/
structure PromiseKept (w : ActiveWorkflow) : Prop where
  entered : w.entered.Nodup
  running : ∀ c ∈ w.calls, w.running.get? c.node.id = some c.token

theorem PromiseKept.of_frame {v : ActiveWorkflow} (h : PromiseKept w) (hf : SameFrame w v) :
    PromiseKept v := by
  refine ⟨hf.entered ▸ h.entered, ?_⟩
  intro c hc
  obtain ⟨b, hb, htoken, hnode⟩ := hf.mem_calls hc
  rw [hf.running, ← htoken, ← hnode]
  exact h.running b hb

/-- In a well-formed workflow where every node was entered at most once, two suspended
calls belong to different nodes. -/
theorem WellFormed.call_unique (h : w.WellFormed) (hnd : w.entered.Nodup) {b c : RunNodeCall}
    (hb : b ∈ w.calls) (hc : c ∈ w.calls) (hid : b.node.id = c.node.id) : b = c := by
  have hb' := h.core.logged b hb
  have hc' := h.core.logged c hc
  rw [hid, ← hc'] at hb'
  have hlt : b.token < w.entered.length := (List.getElem?_eq_some_iff.1 (h.core.logged b hb)).1
  have htoken : b.token = c.token := (getElem?_inj hlt hnd).1 hb'
  exact inj_on_of_nodup_map h.core.tokens hb hc htoken

theorem startTurn_calls (pass : Pass) (d : NormalizedWorkflowNodeDefinition) :
    ((startTurn pass d).workflow.calls.map fun c => (c.token, c.node)) =
      (pass.workflow.calls.map fun c => (c.token, c.node)) ++
        [(pass.workflow.entered.length, d)] := by
  by_cases hiso : d.writePolicy = .isolated
  · rw [startTurn_isolated pass hiso]
    show (pass.workflow.calls ++ _).map _ = _
    rw [map_append]
    rfl
  · rw [startTurn_direct pass hiso]
    have h := (moveCall_frame ((pass.workflow.registerCall d).changeNode d.id
      fun node => { node with status := .running }) pass.workflow.entered.length
      (.delegating (nodePrompt d ((pass.workflow.registerCall d).changeNode d.id
        fun node => { node with status := .running }).nodes))).calls
    refine Eq.trans h ?_
    show (pass.workflow.calls ++ _).map _ = _
    rw [map_append]
    rfl

theorem startTurn_running (pass : Pass) (d : NormalizedWorkflowNodeDefinition) :
    (startTurn pass d).workflow.running =
      pass.workflow.running.set d.id pass.workflow.entered.length := by
  by_cases hiso : d.writePolicy = .isolated
  · rw [startTurn_isolated pass hiso]
  · rw [startTurn_direct pass hiso]

variable {pass pass' : Pass} {d : NormalizedWorkflowNodeDefinition} {n : WorkflowNodeSnapshot}
  {dependencies : List WorkflowNodeSnapshot}

/-- A turn that does not reenter `runNode` stores a promise for a node that had none. -/
theorem PromiseKept.turn (h : PromiseKept pass.workflow) (hwf : pass.workflow.WellFormed)
    (hn : pass.workflow.node? d.id = some n)
    (hdeps : d.dependsOn.mapM pass.workflow.node? = some dependencies)
    (hturn : Turn others pass d n dependencies pass') (hsafe : ¬ Reenters others pass d) :
    PromiseKept pass'.workflow := by
  have hgood := PassGood.turn (w := pass.workflow) ⟨h.entered, .refl _⟩ hwf hn hdeps hturn hsafe
  refine ⟨hgood.entered, ?_⟩
  cases hturn with
  | notPending | notReady | blocked | skip => exact h.running
  | start hp hready hcond hsize hcan =>
    intro c hc
    have hmem : (c.token, c.node) ∈ (pass.workflow.calls.map fun c => (c.token, c.node)) ++
        [(pass.workflow.entered.length, d)] :=
      startTurn_calls pass d ▸ List.mem_map.2 ⟨c, hc, rfl⟩
    rw [startTurn_running, OrderedMap.get?_set]
    rcases List.mem_append.1 hmem with hold | hnew
    · obtain ⟨b, hb, heq⟩ := List.mem_map.1 hold
      injection heq with htoken hnode
      have hne : c.node.id ≠ d.id := by
        rw [← hnode]
        intro hid
        exact hsafe ⟨⟨n, dependencies, hn, hdeps, hp, hready, hcond, hsize, hcan⟩, b, hb, hid⟩
      rw [if_neg hne, ← hnode, ← htoken]
      exact h.running b hb
    · have hnew := List.mem_singleton.1 hnew
      injection hnew with htoken hnode
      rw [hnode, if_pos rfl, htoken]

/-- The event does not call `runNode` for a node with a suspended call. -/
def ReentryFree (others : List WorkflowNodeSnapshot) (w : ActiveWorkflow) : WorkflowEvent → Prop
  | .resume => w.RunsPass → NoReentry others w
  | _ => True

theorem beginPass_frame (w : ActiveWorkflow) : SameFrame w w.beginPass.workflow := by
  unfold beginPass
  dsimp only
  split
  · exact abortCalls_frame w _
  · exact ⟨rfl, rfl, rfl, rfl, rfl, rfl, rfl⟩

/-- An event without re-entry keeps the promises. -/
theorem advance_promiseKept {event : WorkflowEvent} {r : ActiveWorkflow × Bool}
    (hwf : w.WellFormed) (h : PromiseKept w) (hsafe : ReentryFree others w event)
    (hr : w.advance others event = some r) : PromiseKept r.1 := by
  cases event with
  | resume =>
    rcases resume_cases hwf hr with ⟨pass, hruns, hpass, rfl⟩ | ⟨-, rfl⟩ | ⟨-, rfl⟩
    · obtain ⟨pass', hpass', hkept, -⟩ := schedulingPass_rule others
        (P := fun pass => PromiseKept pass.workflow) hwf (hsafe hruns)
        (h.of_frame (beginPass_frame w))
        (fun pass d n deps pass' hw _ _ hn _ hdeps hturn hG hk => hk.turn hw hn hdeps hturn hG)
      rw [hpass] at hpass'
      cases hpass'
      unfold afterPass
      dsimp only
      split
      · exact ⟨hkept.entered, hkept.running⟩
      · split
        · exact ⟨hkept.entered, hkept.running⟩
        · split
          · exact ⟨hkept.entered, hkept.running⟩
          · exact ⟨hkept.entered, hkept.running⟩
    · exact ⟨h.entered, h.running⟩
    · exact ⟨h.entered, h.running⟩
  | worktreeCreated token =>
    obtain ⟨call, -, rfl⟩ := map_eq_some_iff.1 hr
    have hchanged : PromiseKept (w.changeNode call.node.id
      fun node => { node with status := .running }) := ⟨h.entered, h.running⟩
    exact hchanged.of_frame (moveCall_frame _ _ _)
  | worktreeFailed | agentReturned | agentThrew =>
    obtain ⟨call, -, rfl⟩ := map_eq_some_iff.1 hr
    exact h.of_frame (endRunNode_frame w call _ _ _ _ _)
  | agentProgress token =>
    obtain ⟨call, -, rfl⟩ := map_eq_some_iff.1 hr
    exact h
  | worktreeCleaned token diagnostics =>
    obtain ⟨call, -, rfl⟩ := map_eq_some_iff.1 hr
    have hnoted : PromiseKept (w.changeNode call.node.id (noteDiagnostics diagnostics)) :=
      ⟨h.entered, h.running⟩
    exact hnoted.of_frame (moveCall_frame _ _ _)
  | runNodeSettled token =>
    obtain ⟨call, hc, rfl⟩ := map_eq_some_iff.1 hr
    obtain ⟨hmem, rfl, -⟩ := waitingCall?_some hc
    refine ⟨h.entered, ?_⟩
    intro c hcmem
    obtain ⟨hcw, hne⟩ := List.mem_filter.1 hcmem
    -- the promise that is removed is the one of the call that returned
    have hid : c.node.id ≠ call.node.id := by
      intro hid
      rw [hwf.call_unique h.entered hcw hmem hid] at hne
      simp at hne
    show (w.running.delete call.node.id).get? c.node.id = some c.token
    rw [OrderedMap.get?_delete_ne _ hid]
    exact h.running c hcw
  | finalized leases =>
    obtain ⟨-, rfl⟩ := Option.ite_some_none_eq_some.1 hr
    exact ⟨h.entered, h.running⟩
  | requestCancel =>
    obtain ⟨-, rfl⟩ := Option.ite_some_none_eq_some.1 hr
    unfold requestCancel
    split
    · exact h
    · have := h.of_frame (abortCalls_frame w (w.calls.map (·.token)))
      exact ⟨this.entered, this.running⟩

/-! ## A pass that does nothing -/

theorem Turn.started (hturn : Turn others pass d n dependencies pass') :
    pass' = pass ∨ pass'.started = true := by
  cases hturn with
  | notPending | notReady | blocked => exact Or.inl rfl
  | skip => exact Or.inr rfl
  | start => exact Or.inr rfl

/-- Why a turn did nothing. -/
theorem Turn.held_back (hturn : Turn others pass d n dependencies pass')
    (hidle : pass'.started = false) :
    n.status ≠ .pending ∨ (∃ m ∈ dependencies, isWorkflowNodeTerminal m.status = false) ∨
      pass.workflow.definition.maxConcurrency ≤ pass.workflow.running.size ∨
      canStart (others ++ pass.workflow.runningNodes) n = false := by
  cases hturn with
  | notPending h => exact Or.inl h
  | notReady _ hm hnot => exact Or.inr (Or.inl ⟨_, hm, hnot⟩)
  | blocked _ _ _ hroom => exact Or.inr (Or.inr hroom)
  | skip => cases hidle
  | start => cases hidle

/-- A pass that started nothing left the workflow as it was, and every node had a turn
that left it as it was. -/
theorem foldlM_idle {definition : NormalizedWorkflowDefinition} :
    ∀ (ds : List NormalizedWorkflowNodeDefinition) (pass final : Pass), ds ⊆ definition.nodes →
      pass.workflow.WellFormed → pass.workflow.definition = definition →
      ds.foldlM (scheduleNode others) pass = .ok final → final.started = false →
      final = pass ∧ ∀ d ∈ ds, ∃ n dependencies, pass.workflow.node? d.id = some n ∧
        d.dependsOn.mapM pass.workflow.node? = some dependencies ∧
        Turn others pass d n dependencies pass := by
  intro ds
  induction ds with
  | nil => intro pass final _ _ _ h _; cases h; exact ⟨rfl, fun d hd => absurd hd not_mem_nil⟩
  | cons d ds ih =>
    intro pass final hsub hwf hdef h hidle
    have hd : d ∈ definition.nodes := hsub (mem_cons_self ..)
    have hrest : ds ⊆ definition.nodes := fun x hx => hsub (mem_cons_of_mem _ hx)
    obtain ⟨n, deps, pass', hn, -, hdeps, heq, hturn⟩ :=
      scheduleNode_cases others hwf (hdef ▸ hd)
    rw [foldlM_cons, heq] at h
    have hwf' := hwf.turn (hdef ▸ hd) hturn
    have hdef' := (turn_definition hturn).trans hdef
    rcases hturn.started with rfl | hstarted
    · obtain ⟨hfinal, hturns⟩ := ih _ final hrest hwf hdef h hidle
      refine ⟨hfinal, ?_⟩
      intro x hx
      rcases List.mem_cons.1 hx with rfl | hx
      · exact ⟨n, deps, hn, hdeps, hturn⟩
      · exact hturns x hx
    · -- once a turn has done something, the pass says so to its end
      obtain ⟨final', hfinal', hdone, -⟩ := foldlM_turns others
        (P := fun pass => pass.started = true) (G := fun _ _ _ => True)
        (by
          intro pass d n deps pass' _ _ _ _ _ _ hturn _ hp
          rcases hturn.started with rfl | hs
          · exact hp
          · exact hs) ds pass' hrest hwf' hdef' (along_true _ _) hstarted
      have h : ds.foldlM (scheduleNode others) pass' = .ok final := h
      rw [hfinal'] at h
      cases h
      rw [hdone] at hidle
      cases hidle

theorem canStart_nil (n : WorkflowNodeSnapshot) : canStart [] n = true := by
  unfold canStart
  split <;> rfl

/-- The dependencies of a node, looked up by its id. -/
theorem dependenciesOf_mem {nodes : List NormalizedWorkflowNodeDefinition}
    (hnd : (nodeIds nodes).Nodup) (hd : d ∈ nodes) :
    dependenciesOf nodes d.id = d.dependsOn := by
  have hfind : nodes.find? (fun node => node.id == d.id) = some d := by
    unfold nodeIds at hnd
    induction nodes with
    | nil => exact absurd hd not_mem_nil
    | cons a nodes ih =>
      rw [map_cons, nodup_cons] at hnd
      rw [find?_cons]
      rcases List.mem_cons.1 hd with rfl | hd
      · simp
      · have hne : a.id ≠ d.id := by
          intro heq
          exact hnd.1 (List.mem_map.2 ⟨d, hd, heq.symm⟩)
        rw [beq_eq_false_iff_ne.2 hne]
        exact ih hnd.2 hd
  unfold dependenciesOf
  rw [hfind]

/-- **A pass over a workflow with nothing running does something**, as long as a node is
pending: a pending node whose dependencies have all ended is skipped or started. -/
theorem pass_starts (hwf : w.WellFormed) (hkept : PromiseKept w)
    (hpass : schedulingPass [] w = .ok pass) (hsize : pass.workflow.running.size = 0)
    (hidle : pass.started = false) : ∀ n ∈ pass.workflow.nodes, n.status ≠ .pending := by
  obtain ⟨rfl, hturns⟩ := foldlM_idle w.definition.nodes w.beginPass pass (fun _ h => h)
    hwf.beginPass (beginPass_definition w) hpass hidle
  have hframe := beginPass_frame w
  have hwf' := hwf.beginPass
  -- nothing is running: there is no promise, so there is no call
  have hnocall : w.beginPass.workflow.calls = [] := by
    rw [eq_nil_iff_forall_not_mem]
    intro c hc
    have hget := (hkept.of_frame hframe).running c hc
    rw [OrderedMap.size_eq_zero_iff.1 hsize] at hget
    cases hget
  have hnorun : ∀ id n, w.beginPass.workflow.node? id = some n → n.status ≠ .running := by
    intro id n hn hrun
    obtain ⟨c, hc, -⟩ := hwf'.core.running id n hn hrun
    rw [hnocall] at hc
    exact absurd hc not_mem_nil
  have hnil : w.beginPass.workflow.runningNodes = [] := by
    unfold runningNodes
    rw [filter_eq_nil_iff]
    intro n hn
    have := hnorun n.id n (nodeById_of_mem hwf'.core.nodup hn)
    simpa using this
  -- no node is pending, by induction along the dependencies
  have hids : ∀ id, id ∈ nodeIds w.definition.nodes →
      ∀ n, w.beginPass.workflow.node? id = some n → n.status ≠ .pending := by
    intro id hid
    have hacc := hwf.core.valid.acyclic id hid
    induction hacc with
    | intro id _ ih =>
      intro n hn hpending
      obtain ⟨d, hd, rfl⟩ := List.mem_map.1 hid
      obtain ⟨n', deps, hn', hdeps, hturn⟩ := hturns d hd
      rw [hn] at hn'
      cases hn'
      have hended : ∀ m ∈ deps, isWorkflowNodeTerminal m.status = true := by
        intro m hm
        obtain ⟨x, hx, hfind⟩ := exists_of_forall₂_right (mapM_eq_some hdeps) hm
        have hdep : x ∈ dependenciesOf w.definition.nodes d.id := by
          rw [dependenciesOf_mem hwf.core.valid.nodup hd]
          exact hx
        have hnp := ih x hdep (hwf.core.valid.known d hd x hx) m hfind
        have hnr := hnorun x m hfind
        cases hs : m.status with
        | pending => exact absurd hs hnp
        | running => exact absurd hs hnr
        | _ => rfl
      rcases hturn.held_back hidle with hnot | ⟨m, hm, hnot⟩ | hroom | hroom
      · exact hnot hpending
      · rw [hended m hm] at hnot
        cases hnot
      · have := hwf'.core.valid.concurrency
        omega
      · rw [hnil, append_nil, canStart_nil] at hroom
        cases hroom
  intro n hn
  refine hids n.id ?_ n (nodeById_of_mem hwf'.core.nodup hn)
  have : n.id ∈ w.beginPass.workflow.nodes.map (·.id) := List.mem_map.2 ⟨n, hn, rfl⟩
  rw [hwf'.core.ids, beginPass_definition] at this
  exact this

/-- The pass of the loop starts nothing, nothing is running here or elsewhere, and a node
is still pending: the loop marks it as lost. -/
def Deadlocks (others : List WorkflowNodeSnapshot) (w : ActiveWorkflow) : Prop :=
  w.RunsPass ∧ ∃ pass, schedulingPass others w = .ok pass ∧ pass.started = false ∧
    pass.workflow.running.size = 0 ∧ others = [] ∧
    ∃ n ∈ pass.workflow.nodes, n.status = .pending

theorem not_deadlocks (hwf : w.WellFormed) (hkept : PromiseKept w) : ¬ Deadlocks others w := by
  rintro ⟨-, pass, hpass, hidle, hsize, rfl, n, hn, hpending⟩
  exact pass_starts hwf hkept hpass hsize hidle n hn hpending

end ActiveWorkflow

/-! ## Runs -/

/-- No turn of the step's pass calls `runNode` for a node with a suspended call. -/
def ReentryFreeStep (s : RuntimeState) : RuntimeEvent → Prop
  | .start _ _ _ _ => True
  | .workflow id event => ∀ w, s.get? id = some w → w.ReentryFree (runningElsewhere s id) event

instance (others : List WorkflowNodeSnapshot) (w : ActiveWorkflow) :
    ∀ event, Decidable (w.ReentryFree others event)
  | .resume => inferInstanceAs (Decidable (_ → _))
  | .worktreeCreated _ => isTrue trivial
  | .worktreeFailed _ _ => isTrue trivial
  | .agentProgress _ => isTrue trivial
  | .agentReturned _ _ => isTrue trivial
  | .agentThrew _ _ => isTrue trivial
  | .worktreeCleaned _ _ => isTrue trivial
  | .runNodeSettled _ => isTrue trivial
  | .finalized _ => isTrue trivial
  | .requestCancel => isTrue trivial

instance (s : RuntimeState) : ∀ e, Decidable (ReentryFreeStep s e)
  | .start _ _ _ _ => isTrue trivial
  | .workflow id event =>
    match h : s.get? id with
    | none => isTrue fun _ hw => nomatch h.symm.trans hw
    | some w =>
      decidable_of_iff (w.ReentryFree (runningElsewhere s id) event)
        ⟨fun hp _ hv => Option.some.inj (h.symm.trans hv) ▸ hp, fun hp => hp w h⟩

/-- The step is a continuation of a loop that reaches the deadlock branch with a pending
node. -/
def DeadlockStep (s : RuntimeState) (e : RuntimeEvent) : Prop :=
  ∃ id w, e = .workflow id .resume ∧ s.get? id = some w ∧ w.Deadlocks (runningElsewhere s id)

/-- Every workflow is well formed, and every promise is kept. -/
def AllKept (s : RuntimeState) : Prop :=
  Everywhere (fun w => w.WellFormed ∧ w.PromiseKept) s

theorem step_allKept {profiles : Profiles} {s t : RuntimeState} {e : RuntimeEvent}
    (hs : AllKept s) (hsafe : ReentryFreeStep s e) (h : step profiles s e = some t) :
    AllKept t := by
  refine step_everywhere ?_ ?_ ?_ hs h
  · rintro w ⟨hwf, hkept⟩
    refine ⟨hwf.wake, ?_⟩
    unfold ActiveWorkflow.wake
    split
    · exact ⟨hkept.entered, hkept.running⟩
    · exact hkept
  · intro input task aborted w hw
    refine ⟨started_wellFormed hw, ?_⟩
    obtain ⟨definition, -, rfl⟩ := started_spec hw
    cases aborted with
    | false => exact ⟨nodup_nil, fun c hc => absurd hc not_mem_nil⟩
    | true => exact ⟨nodup_nil, fun c hc => absurd hc not_mem_nil⟩
  · rintro id event w r rfl hw ⟨hwf, hkept⟩ hr
    exact ⟨ActiveWorkflow.advance_wellFormed hwf hr,
      ActiveWorkflow.advance_promiseKept hwf hkept (hsafe w hw) hr⟩

/-- **The scheduler never deadlocks.**  In every run, with any number of workflows, whose
passes never call `runNode` for a node that has a suspended call, no step reaches the
deadlock branch with a pending node. -/
theorem scheduler_never_deadlocks (profiles : Profiles) (events : List RuntimeEvent)
    (h : Along (step profiles) (fun s e _ => ReentryFreeStep s e) .empty events) :
    Along (step profiles) (fun s e _ => ¬ DeadlockStep s e) .empty events := by
  refine along_of_invariant (I := AllKept) ?_ events _ (everywhere_empty _) h
  intro s e t hs hstep hsafe
  refine ⟨?_, step_allKept hs hsafe hstep⟩
  rintro ⟨id, w, rfl, hw, hdead⟩
  obtain ⟨hwf, hkept⟩ := hs id w hw
  exact ActiveWorkflow.not_deadlocks hwf hkept hdead

/-- A shared node that starts after the isolated node it depends on has ended. -/
def orderlyTrace : List RuntimeEvent :=
  [.start "wf" (plainDefinition [plainNode "iso" .isolated [], plainNode "next" .shared ["iso"]])
    none false,
   .workflow "wf" .resume,
   .workflow "wf" (.worktreeCreated 0),
   .workflow "wf" (.agentReturned 0 plainResult),
   .workflow "wf" (.runNodeSettled 0),
   .workflow "wf" .resume]

theorem scheduler_never_deadlocks_orderlyTrace :
    (workflowAfter orderlyTrace "wf").map (·.entered) = some ["iso", "next"] ∧
    Along (step plainProfiles) (fun s e _ => ¬ DeadlockStep s e) .empty orderlyTrace :=
  ⟨by decide, scheduler_never_deadlocks plainProfiles orderlyTrace (by decide)⟩

/-- An isolated node waits for its worktree while a quick node ends, is entered again, and
its first worktree fails: the loop loses the promise of the second call, whose worktree
is created.  The last event is the end of the only node the loop still knows. -/
def deadlockTrace : List RuntimeEvent :=
  [.start "wf" (plainDefinition [plainNode "iso" .isolated [], plainNode "quick" .none [],
    plainNode "hold" .none [], plainNode "next" .none ["iso"]]) none false,
   .workflow "wf" .resume,
   .workflow "wf" (.agentReturned 1 plainResult),
   .workflow "wf" (.runNodeSettled 1),
   .workflow "wf" .resume,
   .workflow "wf" (.worktreeFailed 0 "could not lock config file"),
   .workflow "wf" (.runNodeSettled 0),
   .workflow "wf" (.worktreeCreated 3),
   .workflow "wf" (.agentReturned 2 plainResult),
   .workflow "wf" (.runNodeSettled 2)]

/-- What the deadlock branch sees when the loop of a workflow continues: whether the pass
did anything, how many promises it knows, how many nodes run elsewhere, and the
statuses. -/
def passAfter (events : List RuntimeEvent) (id : String) :
    Option (Bool × Nat × Nat × List WorkflowNodeStatus) :=
  (runFrom (step plainProfiles) .empty events).bind fun s => (s.get? id).bind fun w =>
    (ActiveWorkflow.schedulingPass (runningElsewhere s id) w).toOption.map fun pass =>
      (pass.started, pass.workflow.running.size, (runningElsewhere s id).length,
        pass.workflow.nodes.map (·.status))

/-- The deadlock branch is reached with a pending node, which is marked as lost while its
dependency is running. -/
theorem reentry_deadlocks :
    ((workflowAfter (deadlockTrace ++ [.workflow "wf" .resume]) "wf").map
        fun w => w.nodes.map (·.status)) = some [.running, .completed, .completed, .lost] ∧
    ¬ Along (step plainProfiles) (fun s e _ => ¬ DeadlockStep s e) .empty
        (deadlockTrace ++ [.workflow "wf" .resume]) := by
  refine ⟨by decide, ?_⟩
  intro h
  have hpass : passAfter deadlockTrace "wf" =
      some (false, 0, 0, [.running, .completed, .completed, .pending]) := by decide
  have hruns : (workflowAfter deadlockTrace "wf").any
      (fun w => decide w.RunsPass) = true := by decide
  have hnext : ((runFrom (step plainProfiles) .empty deadlockTrace).bind fun s =>
      step plainProfiles s (.workflow "wf" .resume)).isSome = true := by decide
  obtain ⟨s, hs, hpass⟩ := Option.bind_eq_some_iff.1 hpass
  obtain ⟨w, hw, hpass⟩ := Option.bind_eq_some_iff.1 hpass
  obtain ⟨pass, hpass, hfacts⟩ := Option.map_eq_some_iff.1 hpass
  rw [hs] at hnext
  obtain ⟨t, ht⟩ := Option.isSome_iff_exists.1 hnext
  have hlast := along_last (P := fun s e _ => ¬ DeadlockStep s e) deadlockTrace _ h hs ht
  refine hlast ⟨"wf", w, rfl, hw, ?_⟩
  simp only [Prod.mk.injEq] at hfacts
  obtain ⟨hidle, hsize, hothers, hstatuses⟩ := hfacts
  refine ⟨?_, pass, ?_, hidle, hsize, eq_nil_of_length_eq_zero hothers, ?_⟩
  · have hafter : workflowAfter deadlockTrace "wf" = some w := by
      unfold workflowAfter
      rw [hs]
      exact hw
    rw [hafter] at hruns
    simpa using hruns
  · cases hsp : ActiveWorkflow.schedulingPass (runningElsewhere s "wf") w with
    | error e => rw [hsp] at hpass; cases hpass
    | ok pass' => rw [hsp] at hpass; cases hpass; rfl
  · have hmem : WorkflowNodeStatus.pending ∈ pass.workflow.nodes.map (·.status) := by
      rw [hstatuses]; decide
    obtain ⟨n, hn, hp⟩ := List.mem_map.1 hmem
    exact ⟨n, hn, hp⟩

end BeauPi.Workflow
