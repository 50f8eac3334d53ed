import BeauPi.Workflow.Steps

/-!
# When a node runs at most once

`runNode` is meant to be called once for each node, and a node that has ended is meant
to stay ended.  An isolated node stays pending while its worktree is created, so a
scheduling pass in that window calls `runNode` for it again, and a worktree that is
created after its node was cancelled, skipped or failed sets the node running again.

* `Reenters` — a turn of a pass calls `runNode` for a node that has a suspended call.
* `SafeStep` — no turn of the pass does that, and no worktree is delivered to a node
  that has ended.
* `OnceAndForAll` — every node was entered at most once, and what has ended stays as it
  ended.
* `onceAndForAll_iff_safe` — **a run is safe at every step if and only if every node is
  entered at most once and every end is final at every step.**
* `kept_always` — no workflow is lost, replaced, rewound or revived.
-/

namespace BeauPi.Workflow

open Machine List
open Option (ite_some_none_eq_some map_eq_some_iff)

/-! ## Ends are final -/

/-- Nodes that have ended keep their status. -/
def Absorbs (before after : List WorkflowNodeSnapshot) : Prop :=
  ∀ id n, nodeById before id = some n → isWorkflowNodeTerminal n.status = true →
    ∃ m, nodeById after id = some m ∧ m.status = n.status

theorem Absorbs.refl (nodes : List WorkflowNodeSnapshot) : Absorbs nodes nodes :=
  fun _ n hn _ => ⟨n, hn, rfl⟩

theorem Absorbs.trans {a b c : List WorkflowNodeSnapshot} (h : Absorbs a b) (h' : Absorbs b c) :
    Absorbs a c := by
  intro id n hn ht
  obtain ⟨m, hm, hmn⟩ := h id n hn ht
  obtain ⟨k, hk, hkm⟩ := h' id m hm (hmn ▸ ht)
  exact ⟨k, hk, hkm.trans hmn⟩

theorem EndsNodes.absorbs {a b : List WorkflowNodeSnapshot} (h : EndsNodes a b) : Absorbs a b := by
  intro id n hn ht
  obtain ⟨m, hm, heq | ⟨hnot, -⟩⟩ := h.after hn
  · exact ⟨m, hm, heq⟩
  · rw [ht] at hnot; cases hnot

/-- Setting a node running is absorbed unless it has ended. -/
theorem absorbs_delegate_iff {w : ActiveWorkflow} {token : Nat}
    {d : NormalizedWorkflowNodeDefinition} {n : WorkflowNodeSnapshot}
    (hn : nodeById w.nodes d.id = some n) :
    Absorbs w.nodes (w.delegate token d).nodes ↔ isWorkflowNodeTerminal n.status = false := by
  have hlookup : ∀ id, nodeById (w.delegate token d).nodes id = (nodeById w.nodes id).map fun m =>
      if m.id = d.id then { m with status := .running } else m := by
    intro id
    exact nodeById_map (fun m => by split <;> rfl) w.nodes id
  constructor
  · intro h
    cases ht : isWorkflowNodeTerminal n.status with
    | false => rfl
    | true =>
      obtain ⟨m, hm, hmn⟩ := h d.id n hn ht
      rw [hlookup, hn] at hm
      have hid := (nodeById_some hn).2
      simp only [Option.map_some, if_pos hid, Option.some.injEq] at hm
      rw [← hm] at hmn
      have hrun : n.status = .running := hmn.symm
      rw [hrun] at ht
      cases ht
  · intro hnot id m hm ht
    rw [hlookup, hm]
    refine ⟨_, rfl, ?_⟩
    have hne : m.id ≠ d.id := by
      intro heq
      have : id = d.id := (nodeById_some hm).2.symm.trans heq
      subst this
      rw [hn] at hm
      cases hm
      rw [ht] at hnot
      cases hnot
    show (if m.id = d.id then { m with status := .running } else m : WorkflowNodeSnapshot).status = _
    rw [if_neg hne]

namespace ActiveWorkflow

variable {others : List WorkflowNodeSnapshot} {w : ActiveWorkflow}

/-! ## Calling `runNode` twice -/

/-- The turn of a node reaches the call of `runNode` although a call for the node is
suspended. -/
def Reenters (others : List WorkflowNodeSnapshot) (pass : Pass)
    (d : NormalizedWorkflowNodeDefinition) : Prop :=
  (∃ n dependencies, pass.workflow.node? d.id = some n ∧
    d.dependsOn.mapM pass.workflow.node? = some dependencies ∧ n.status = .pending ∧
    (∀ m ∈ dependencies, isWorkflowNodeTerminal m.status = true) ∧
    evaluateWorkflowCondition d.condition dependencies = .ok true ∧
    pass.workflow.running.size < pass.workflow.definition.maxConcurrency ∧
    canStart (others ++ pass.workflow.runningNodes) n = true) ∧
  ∃ c ∈ pass.workflow.calls, c.node.id = d.id

instance (others : List WorkflowNodeSnapshot) (pass : Pass)
    (d : NormalizedWorkflowNodeDefinition) : Decidable (Reenters others pass d) :=
  match hn : pass.workflow.node? d.id, hd : d.dependsOn.mapM pass.workflow.node? with
  | some n, some dependencies =>
    decidable_of_iff ((n.status = .pending ∧
        (∀ m ∈ dependencies, isWorkflowNodeTerminal m.status = true) ∧
        evaluateWorkflowCondition d.condition dependencies = .ok true ∧
        pass.workflow.running.size < pass.workflow.definition.maxConcurrency ∧
        canStart (others ++ pass.workflow.runningNodes) n = true) ∧
      ∃ c ∈ pass.workflow.calls, c.node.id = d.id) (by
        unfold Reenters
        rw [hn, hd]
        simp)
  | none, _ => isFalse (by unfold Reenters; rw [hn]; simp)
  | some _, none => isFalse (by unfold Reenters; rw [hd]; simp)

/-- No turn of the pass calls `runNode` for a node with a suspended call. -/
def NoReentry (others : List WorkflowNodeSnapshot) (w : ActiveWorkflow) : Prop :=
  Along (turnStep others) (fun pass d _ => ¬ Reenters others pass d) w.beginPass
    w.definition.nodes

instance (others : List WorkflowNodeSnapshot) (w : ActiveWorkflow) :
    Decidable (NoReentry others w) :=
  inferInstanceAs (Decidable (Along _ _ _ _))

/-- The event does not call `runNode` twice and does not revive a node. -/
def SafeEvent (others : List WorkflowNodeSnapshot) (w : ActiveWorkflow) : WorkflowEvent → Prop
  | .resume => w.RunsPass → NoReentry others w
  | .worktreeCreated token => ∀ c n, w.waitingCall? token (· == .creatingWorktree) = some c →
      w.node? c.node.id = some n → isWorkflowNodeTerminal n.status = false
  | _ => True

theorem startTurn_entered (pass : Pass) (d : NormalizedWorkflowNodeDefinition) :
    (startTurn pass d).workflow.entered = pass.workflow.entered ++ [d.id] := by
  by_cases hiso : d.writePolicy = .isolated
  · rw [startTurn_isolated pass hiso]; rfl
  · rw [startTurn_direct pass hiso]; rfl

theorem startTurn_absorbs {pass : Pass} {d : NormalizedWorkflowNodeDefinition}
    {n : WorkflowNodeSnapshot} (hn : pass.workflow.node? d.id = some n)
    (hp : n.status = .pending) :
    Absorbs pass.workflow.nodes (startTurn pass d).workflow.nodes := by
  by_cases hiso : d.writePolicy = .isolated
  · rw [startTurn_isolated pass hiso]; exact .refl _
  · rw [startTurn_direct pass hiso]
    exact (@absorbs_delegate_iff (pass.workflow.registerCall d) pass.workflow.entered.length _ _
      hn).2 (by rw [hp]; rfl)

/-- The state of a pass in which nothing has gone wrong. -/
structure PassGood (w : ActiveWorkflow) (pass : Pass) : Prop where
  entered : pass.workflow.entered.Nodup
  absorbs : Absorbs w.nodes pass.workflow.nodes

/-- A turn that does not reenter `runNode` calls it for a node that was never entered:
a pending node that was entered is waiting for its worktree. -/
theorem PassGood.turn {pass pass' : Pass} {d : NormalizedWorkflowNodeDefinition}
    {n : WorkflowNodeSnapshot} {dependencies : List WorkflowNodeSnapshot}
    (h : PassGood w pass) (hwf : pass.workflow.WellFormed)
    (hn : pass.workflow.node? d.id = some n)
    (hdeps : d.dependsOn.mapM pass.workflow.node? = some dependencies)
    (hturn : Turn others pass d n dependencies pass') (hsafe : ¬ Reenters others pass d) :
    PassGood w pass' := by
  cases hturn with
  | notPending => exact h
  | notReady => exact h
  | blocked => exact h
  | skip => exact ⟨h.entered, h.absorbs.trans (endsNodes_finishNode rfl _ _ _ _).absorbs⟩
  | start hp hready hcond hsize hcan =>
    have hnew : d.id ∉ pass.workflow.entered := by
      intro hmem
      obtain ⟨c, hc, hid, -⟩ := hwf.core.pending d.id hmem n hn hp
      exact hsafe ⟨⟨n, dependencies, hn, hdeps, hp, hready, hcond, hsize, hcan⟩, c, hc, hid⟩
    refine ⟨?_, h.absorbs.trans (startTurn_absorbs hn hp)⟩
    rw [startTurn_entered, nodup_append]
    refine ⟨h.entered, by simp, ?_⟩
    rintro a ha b hb rfl
    exact hnew (List.mem_singleton.1 hb ▸ ha)

theorem Turn.entered_grows {pass pass' : Pass} {d : NormalizedWorkflowNodeDefinition}
    {n : WorkflowNodeSnapshot} {dependencies : List WorkflowNodeSnapshot}
    (hturn : Turn others pass d n dependencies pass') :
    pass.workflow.entered <+: pass'.workflow.entered := by
  cases hturn with
  | start => rw [startTurn_entered]; exact prefix_append _ _
  | _ => exact prefix_rfl

/-- If a pass ends with every node entered at most once, none of its turns reentered
`runNode`: a second entry would be in the log twice. -/
theorem noReentry_of_nodup {definition : NormalizedWorkflowDefinition} :
    ∀ (ds : List NormalizedWorkflowNodeDefinition) (pass final : Pass), ds ⊆ definition.nodes →
      pass.workflow.WellFormed → pass.workflow.definition = definition →
      ds.foldlM (scheduleNode others) pass = .ok final → final.workflow.entered.Nodup →
      pass.workflow.entered.Sublist final.workflow.entered ∧
      Along (turnStep others) (fun pass d _ => ¬ Reenters others pass d) pass ds := by
  intro ds
  induction ds with
  | nil => intro pass final _ _ _ h _; cases h; exact ⟨List.Sublist.refl _, trivial⟩
  | cons d ds ih =>
    intro pass final hsub hwf hdef h hnd
    have hd : d ∈ definition.nodes := hsub (mem_cons_self ..)
    obtain ⟨n, deps, pass', hn, -, hdeps, heq, hturn⟩ :=
      scheduleNode_cases others hwf (hdef ▸ hd)
    rw [foldlM_cons, heq] at h
    obtain ⟨hsubl, halong⟩ := ih pass' final (fun x hx => hsub (mem_cons_of_mem _ hx))
      (hwf.turn (hdef ▸ hd) hturn) ((turn_definition hturn).trans hdef) h hnd
    refine ⟨hturn.entered_grows.sublist.trans hsubl, ?_⟩
    intro pass'' hstep
    have hpass : pass'' = pass' := by
      rw [turnStep, heq] at hstep
      cases hstep
      rfl
    subst hpass
    refine ⟨?_, halong⟩
    rintro ⟨⟨n', deps', hn', hdeps', hp, hready, hcond, hsize, hcan⟩, c, hc, hid⟩
    rw [hn] at hn'
    rw [hdeps] at hdeps'
    cases hn'
    cases hdeps'
    have hlogged : d.id ∈ pass.workflow.entered := by
      rw [← hid]
      exact mem_of_getElem? (hwf.core.logged c hc)
    have hnd' := hnd.sublist hsubl
    cases hturn with
    | notPending hnot => exact hnot hp
    | notReady _ hm hnot => rw [hready _ hm] at hnot; cases hnot
    | blocked _ _ _ hroom =>
      rcases hroom with hroom | hroom
      · omega
      · rw [hcan] at hroom; cases hroom
    | skip _ _ hfalse => rw [hcond] at hfalse; cases hfalse
    | start =>
      rw [startTurn_entered, nodup_append] at hnd'
      exact hnd'.2.2 d.id hlogged d.id (mem_singleton_self _) rfl

/-! ## One event -/

theorem afterPass_entered (others : List WorkflowNodeSnapshot) (pass : Pass) :
    (afterPass others pass).entered = pass.workflow.entered := by
  unfold afterPass
  dsimp only
  split
  · rfl
  · split
    · rfl
    · split <;> rfl

theorem beginPass_entered (w : ActiveWorkflow) : w.beginPass.workflow.entered = w.entered := by
  unfold beginPass
  dsimp only
  split <;> rfl

/-- **One event.**  From a state where every node was entered at most once, an event is
safe exactly when this is still so afterwards and nothing that had ended changed. -/
theorem advance_safe_iff {event : WorkflowEvent} {r : ActiveWorkflow × Bool} (hwf : w.WellFormed)
    (hnd : w.entered.Nodup) (hr : w.advance others event = some r) :
    SafeEvent others w event ↔ r.1.entered.Nodup ∧ Absorbs w.nodes r.1.nodes := by
  by_cases hresume : event = .resume
  · subst hresume
    rcases resume_cases hwf hr with ⟨pass, hruns, hpass, rfl⟩ | ⟨hall, rfl⟩ | ⟨⟨tokens, hloop, -⟩, rfl⟩
    · constructor
      · intro hsafe
        obtain ⟨pass', hpass', hgood, -⟩ := schedulingPass_rule _ (P := PassGood w) hwf
          (hsafe hruns)
          ⟨by rw [beginPass_entered]; exact hnd, by rw [beginPass_nodes]; exact .refl _⟩
          (fun pass d n deps pass' hw _ _ hn _ hdeps hturn hG h => h.turn hw hn hdeps hturn hG)
        rw [hpass] at hpass'
        cases hpass'
        exact ⟨by rw [afterPass_entered]; exact hgood.entered,
          hgood.absorbs.trans (afterPass_endsNodes others pass).absorbs⟩
      · rintro ⟨hnd', -⟩ -
        rw [afterPass_entered] at hnd'
        exact (noReentry_of_nodup w.definition.nodes w.beginPass pass (fun _ h => h)
          hwf.beginPass (beginPass_definition w) hpass hnd').2
    · constructor
      · intro _; exact ⟨hnd, .refl _⟩
      · rintro - ⟨-, n, hn, hnot⟩
        rw [hall n hn] at hnot
        cases hnot
    · constructor
      · intro _; exact ⟨hnd, .refl _⟩
      · rintro - ⟨hready | ⟨tokens', hracing⟩, -⟩
        · rw [hloop] at hready; cases hready
        · rw [hloop] at hracing; cases hracing
  · rw [(advance_kept hr hresume).2]
    by_cases hcreated : ∃ token, event = .worktreeCreated token
    · obtain ⟨token, rfl⟩ := hcreated
      obtain ⟨call, hc, rfl⟩ := map_eq_some_iff.1 hr
      obtain ⟨hmem, -, -⟩ := waitingCall?_some hc
      obtain ⟨n, hn, -⟩ := hwf.core.snapshot (hwf.core.known call hmem)
      have hiff := @absorbs_delegate_iff w token _ _ hn
      constructor
      · intro hsafe
        exact ⟨hnd, hiff.2 (hsafe call n hc hn)⟩
      · rintro ⟨-, habs⟩ c m hc' hm
        rw [hc] at hc'
        cases hc'
        have hm : nodeById w.nodes call.node.id = some m := hm
        rw [hn] at hm
        cases hm
        exact hiff.1 habs
    · have hends := advance_endsNodes hr hresume fun token ht => hcreated ⟨token, ht⟩
      have htrue : SafeEvent others w event := by
        cases event with
        | resume => exact absurd rfl hresume
        | worktreeCreated token => exact absurd ⟨token, rfl⟩ hcreated
        | _ => trivial
      exact ⟨fun _ => ⟨hnd, hends.absorbs⟩, fun _ => htrue⟩

/-- `v` is `w` later: it has the same definition and the `runNode` calls `w` had made, and
has not come back after its end. -/
structure Continues (w v : ActiveWorkflow) : Prop where
  definition : v.definition = w.definition
  entered : w.entered <+: v.entered
  ended : v.isActive = true → w.isActive = true

theorem Continues.trans {u v : ActiveWorkflow} (h : Continues u v) (h' : Continues v w) :
    Continues u w :=
  ⟨h'.definition.trans h.definition, h.entered.trans h'.entered, h.ended ∘ h'.ended⟩

theorem advance_continues {event : WorkflowEvent} (hwf : w.WellFormed)
    (hr : w.advance others event = some r) : Continues w r.1 := by
  refine ⟨advance_definition hwf hr, ?_, advance_isActive hr⟩
  by_cases hresume : event = .resume
  · subst hresume
    rcases resume_cases hwf hr with ⟨pass, -, hpass, rfl⟩ | ⟨-, rfl⟩ | ⟨-, rfl⟩
    · obtain ⟨pass', hpass', hgrows, -⟩ := schedulingPass_rule others
        (P := fun pass => w.entered <+: pass.workflow.entered) (G := fun _ _ _ => True) hwf
        (along_true _ _) (beginPass_entered w ▸ prefix_rfl)
        (fun _ _ _ _ _ _ _ _ _ _ _ hturn _ h => h.trans hturn.entered_grows)
      rw [hpass] at hpass'
      cases hpass'
      rwa [afterPass_entered]
    · exact prefix_rfl
    · exact prefix_rfl
  · exact (advance_kept hr hresume).2 ▸ prefix_rfl

end ActiveWorkflow

/-! ## Runs -/

/-- The step does not call `runNode` twice for a node and does not revive a node. -/
def SafeStep (s : RuntimeState) : RuntimeEvent → Prop
  | .start _ _ _ _ => True
  | .workflow id event => ∀ w, s.get? id = some w → w.SafeEvent (runningElsewhere s id) event

/-- After the step every node was entered at most once, and no node that had ended
before the step has another status after it. -/
def OnceAndForAll (s t : RuntimeState) : Prop :=
  (∀ id w, t.get? id = some w → w.entered.Nodup) ∧
  ∀ id w v, s.get? id = some w → t.get? id = some v →
    ∀ n ∈ w.nodes, isWorkflowNodeTerminal n.status = true →
      ∃ m ∈ v.nodes, m.id = n.id ∧ m.status = n.status

theorem wakeIf_entered (b : Bool) (w : ActiveWorkflow) : (wakeIf b w).entered = w.entered := by
  unfold wakeIf ActiveWorkflow.wake
  split
  · split <;> rfl
  · rfl

/-- Between well-formed states, "stays as it ended" can be said node by node. -/
theorem absorbs_iff {w v : ActiveWorkflow} (hw : w.WellFormed) (hv : v.WellFormed) :
    Absorbs w.nodes v.nodes ↔ ∀ n ∈ w.nodes, isWorkflowNodeTerminal n.status = true →
      ∃ m ∈ v.nodes, m.id = n.id ∧ m.status = n.status := by
  constructor
  · intro h n hn ht
    obtain ⟨m, hm, heq⟩ := h n.id n (nodeById_of_mem hw.core.nodup hn) ht
    exact ⟨m, (nodeById_some hm).1, (nodeById_some hm).2, heq⟩
  · intro h id n hn ht
    obtain ⟨hmem, rfl⟩ := nodeById_some hn
    obtain ⟨m, hm, hid, heq⟩ := h n hmem ht
    exact ⟨m, hid ▸ nodeById_of_mem hv.core.nodup hm, heq⟩

theorem onceAndForAll_store {s : RuntimeState} {k : String} {r : ActiveWorkflow × Bool}
    (hwf : Everywhere ActiveWorkflow.WellFormed s) (hr : r.1.WellFormed)
    (hnd : Everywhere (fun w => w.entered.Nodup) s) :
    OnceAndForAll s (store s k r) ↔ r.1.entered.Nodup ∧
      ∀ w, s.get? k = some w → Absorbs w.nodes r.1.nodes := by
  constructor
  · rintro ⟨hent, habs⟩
    have hk : (store s k r).get? k = some (wakeIf r.2 r.1) := by rw [get?_store, if_pos rfl]
    refine ⟨wakeIf_entered r.2 r.1 ▸ hent k _ hk, ?_⟩
    intro w hw
    rw [absorbs_iff (hwf k w hw) hr]
    have := habs k w _ hw hk
    rwa [wakeIf_nodes] at this
  · rintro ⟨hent, habs⟩
    refine ⟨?_, ?_⟩
    · intro id w hw
      rw [get?_store] at hw
      split at hw
      · cases hw; rw [wakeIf_entered]; exact hent
      · obtain ⟨v, hv, rfl⟩ := map_eq_some_iff.1 hw
        rw [wakeIf_entered]
        exact hnd id v hv
    · intro id w v hw hv
      rw [get?_store] at hv
      split at hv
      · next heq =>
        subst heq
        cases hv
        rw [wakeIf_nodes]
        exact (absorbs_iff (hwf id w hw) hr).1 (habs w hw)
      · rw [hw] at hv
        cases hv
        rw [wakeIf_nodes]
        intro n hn _
        exact ⟨n, hn, rfl, rfl⟩

/-- **One step of the runtime.** -/
theorem step_safe_iff {profiles : Profiles} {s t : RuntimeState} {e : RuntimeEvent}
    (hwf : Everywhere ActiveWorkflow.WellFormed s)
    (hnd : Everywhere (fun w => w.entered.Nodup) s) (h : step profiles s e = some t) :
    SafeStep s e ↔ OnceAndForAll s t := by
  rcases step_cases h with ⟨k, input, task, aborted, error, rfl, -, rfl⟩ |
    ⟨k, input, task, aborted, w, rfl, hnone, hw, rfl⟩ | ⟨k, event, w, r, rfl, hw, hr, rfl⟩
  · refine ⟨fun _ => ⟨hnd, ?_⟩, fun _ => trivial⟩
    intro id w v hw hv n hn _
    rw [hw] at hv
    cases hv
    exact ⟨n, hn, rfl, rfl⟩
  · have hstarted : w.entered = [] := by
      obtain ⟨definition, -, rfl⟩ := started_spec hw
      cases aborted <;> rfl
    refine ⟨fun _ => (onceAndForAll_store hwf (started_wellFormed hw) hnd).2 ⟨?_, ?_⟩,
      fun _ => trivial⟩
    · show w.entered.Nodup
      rw [hstarted]
      exact nodup_nil
    · intro v hv
      rw [hnone] at hv
      cases hv
  · have hlocal := ActiveWorkflow.advance_safe_iff (hwf k w hw) (hnd k w hw) hr
    rw [onceAndForAll_store hwf (ActiveWorkflow.advance_wellFormed (hwf k w hw) hr) hnd]
    constructor
    · intro hsafe
      obtain ⟨hent, habs⟩ := hlocal.1 (hsafe w hw)
      refine ⟨hent, ?_⟩
      intro v hv
      rw [hw] at hv
      cases hv
      exact habs
    · rintro ⟨hent, habs⟩ v hv
      rw [hw] at hv
      cases hv
      exact hlocal.2 ⟨hent, habs w hw⟩

/-- **A run keeps the promise exactly as long as it is safe.**  For every run of the
runtime from its start, with any number of workflows: at every step no pass calls
`runNode` for a node with a suspended call and no worktree is delivered to a node that
has ended, if and only if after every step every node was entered at most once and every
status that was terminal before the step is unchanged. -/
theorem onceAndForAll_iff_safe (profiles : Profiles) (events : List RuntimeEvent) :
    Along (step profiles) (fun s e _ => SafeStep s e) .empty events ↔
      Along (step profiles) (fun s _ t => OnceAndForAll s t) .empty events := by
  have hstart : Everywhere ActiveWorkflow.WellFormed (.empty : RuntimeState) ∧
      Everywhere (fun w => w.entered.Nodup) (.empty : RuntimeState) :=
    ⟨everywhere_empty _, everywhere_empty _⟩
  constructor
  · refine along_of_invariant (I := fun s => Everywhere ActiveWorkflow.WellFormed s ∧
      Everywhere (fun w => w.entered.Nodup) s) ?_ events _ hstart
    rintro s e t ⟨hwf, hnd⟩ hstep hsafe
    have hgood := (step_safe_iff hwf hnd hstep).1 hsafe
    exact ⟨hgood, step_wellFormed hwf hstep, hgood.1⟩
  · refine along_of_invariant (I := fun s => Everywhere ActiveWorkflow.WellFormed s ∧
      Everywhere (fun w => w.entered.Nodup) s) ?_ events _ hstart
    rintro s e t ⟨hwf, hnd⟩ hstep hgood
    exact ⟨(step_safe_iff hwf hnd hstep).2 hgood, step_wellFormed hwf hstep, hgood.1⟩

/-- An isolated node waits for its worktree while a quick node runs and ends.  The next
pass calls `runNode` for the isolated node again; then the first worktree fails. -/
def reentryTrace : List RuntimeEvent :=
  [.start "wf" (plainDefinition [plainNode "iso" .isolated [], plainNode "quick" .none []]) none
    false,
   .workflow "wf" .resume,
   .workflow "wf" (.agentReturned 1 plainResult),
   .workflow "wf" (.runNodeSettled 1),
   .workflow "wf" .resume,
   .workflow "wf" (.worktreeFailed 0 "could not lock config file")]

/-- The promise is broken: the isolated node is entered twice, and it is running after
it had failed. -/
theorem reentry_breaks_onceAndForAll :
    ((workflowAfter reentryTrace "wf").map fun w => (w.entered, w.nodes.map (·.status))) =
        some (["iso", "quick", "iso"], [.failed, .completed]) ∧
    ((workflowAfter (reentryTrace ++ [.workflow "wf" (.worktreeCreated 2)]) "wf").map
        fun w => w.nodes.map (·.status)) = some [.running, .completed] ∧
    ¬ Along (step plainProfiles) (fun s _ t => OnceAndForAll s t) .empty reentryTrace := by
  have hrun : ((workflowAfter reentryTrace "wf").map fun w => (w.entered, w.nodes.map (·.status))) =
      some (["iso", "quick", "iso"], [.failed, .completed]) := by decide
  refine ⟨hrun, by decide, ?_⟩
  intro h
  obtain ⟨w, hw, heq⟩ := Option.map_eq_some_iff.1 hrun
  obtain ⟨s, hs, hget⟩ := Option.bind_eq_some_iff.1 hw
  have hnd : Everywhere (fun w => w.entered.Nodup) s :=
    runFrom_invariant (fun _ _ _ _ _ hgood => hgood.1) reentryTrace .empty s (everywhere_empty _) h hs
  have hentered : w.entered = ["iso", "quick", "iso"] := (Prod.mk.inj heq).1
  have hnodup : w.entered.Nodup := hnd "wf" w hget
  rw [hentered] at hnodup
  exact absurd hnodup (by decide)

/-! ## What a run never takes back -/

/-- Every workflow of `s` goes on in `t`. -/
def Kept (s t : RuntimeState) : Prop :=
  ∀ id w, s.get? id = some w → ∃ v, t.get? id = some v ∧ w.Continues v

theorem wakeIf_continues (b : Bool) (w : ActiveWorkflow) : w.Continues (wakeIf b w) := by
  refine ⟨?_, wakeIf_entered b w ▸ prefix_rfl, wakeIf_isActive b w ▸ id⟩
  unfold wakeIf ActiveWorkflow.wake
  split_ifs <;> rfl

theorem step_kept {profiles : Profiles} {u s t : RuntimeState} {e : RuntimeEvent}
    (hwf : Everywhere ActiveWorkflow.WellFormed s) (hs : Kept u s)
    (h : step profiles s e = some t) : Kept u t := by
  intro id w hw
  obtain ⟨v, hv, hwv⟩ := hs id w hw
  rcases step_cases h with ⟨-, -, -, -, -, -, -, rfl⟩ | ⟨k, -, -, -, x, -, hnone, -, rfl⟩ |
    ⟨k, event, x, r, -, hx, hr, rfl⟩
  · exact ⟨v, hv, hwv⟩
  · have hne : id ≠ k := by
      rintro rfl
      rw [hnone] at hv
      cases hv
    rw [get?_store, if_neg hne, hv]
    exact ⟨_, rfl, hwv.trans (wakeIf_continues _ v)⟩
  · rw [get?_store]
    split
    · next heq =>
      subst heq
      rw [hx] at hv
      cases hv
      have hadvance := ActiveWorkflow.advance_continues (hwf _ _ hx) hr
      exact ⟨_, rfl, (hwv.trans hadvance).trans (wakeIf_continues _ _)⟩
    · rw [hv]
      exact ⟨_, rfl, hwv.trans (wakeIf_continues _ v)⟩

end BeauPi.Workflow
