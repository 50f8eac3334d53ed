import BeauPi.Workflow.Runtime

/-!
# Well-formed workflows

What holds of every workflow in every reachable state, whatever the order of the
events: its definition is valid, its snapshots are those of its nodes, and every
suspended call of `runNode` belongs to one of its nodes and was logged.

* `CoreInvariant` — the invariant, as a predicate on the parts of a workflow it reads.
* `CoreInvariant.mapNodes`, `.mapCalls`, `.delegate`, `.enter`, `.settle` — it is kept by
  each way of changing these parts.
* `WellFormed.endRunNode` — it is kept when a call of `runNode` ends.
-/

namespace BeauPi.Workflow

open Machine List
open Option (map_eq_some_iff)

/-! ## Nodes by id -/

variable {g : WorkflowNodeSnapshot → WorkflowNodeSnapshot}

theorem nodeById_map (hg : ∀ n, (g n).id = n.id) (nodes : List WorkflowNodeSnapshot) (id : String) :
    nodeById (nodes.map g) id = (nodeById nodes id).map g := by
  induction nodes with
  | nil => rfl
  | cons n nodes ih =>
    unfold nodeById at ih ⊢
    rw [map_cons, find?_cons, find?_cons, hg n]
    cases n.id == id with
    | true => rfl
    | false => exact ih

variable {nodes : List WorkflowNodeSnapshot} {id : String} {n : WorkflowNodeSnapshot}

theorem nodeById_some (h : nodeById nodes id = some n) : n ∈ nodes ∧ n.id = id := by
  unfold nodeById at h
  exact ⟨mem_of_find?_eq_some h, by simpa using find?_some h⟩

theorem nodeById_of_mem (hnd : (nodes.map (·.id)).Nodup) (h : n ∈ nodes) :
    nodeById nodes n.id = some n := by
  induction nodes with
  | nil => exact absurd h not_mem_nil
  | cons a nodes ih =>
    rw [map_cons, nodup_cons] at hnd
    unfold nodeById at ih ⊢
    rw [find?_cons]
    rcases List.mem_cons.1 h with rfl | h
    · simp
    · have hne : a.id ≠ n.id := by
        intro heq
        exact hnd.1 (List.mem_map.2 ⟨n, h, heq.symm⟩)
      rw [beq_eq_false_iff_ne.2 hne]
      exact ih hnd.2 h

variable {f : WorkflowNodeSnapshot → WorkflowNodeSnapshot}

theorem nodeById_updateNode (hf : ∀ n, (f n).id = n.id) (id : String)
    (nodes : List WorkflowNodeSnapshot) (x : String) :
    nodeById (updateNode id f nodes) x =
      if x = id then (nodeById nodes x).map f else nodeById nodes x := by
  unfold updateNode
  rw [nodeById_map (fun n => by split; exacts [hf n, rfl])]
  cases hx : nodeById nodes x with
  | none => simp
  | some n =>
    have hid := (nodeById_some hx).2
    by_cases h : x = id
    · simp [h, hid.trans h]
    · have hne : n.id ≠ id := hid ▸ h
      simp [h, hne]

@[simp] theorem finishNode_id (status output error) (n : WorkflowNodeSnapshot) :
    (finishNode status output error n).id = n.id := by
  unfold finishNode; split <;> rfl

@[simp] theorem finishNode_writePolicy (status output error) (n : WorkflowNodeSnapshot) :
    (finishNode status output error n).writePolicy = n.writePolicy := by
  unfold finishNode; split <;> rfl

theorem finishNode_terminal {status output error} (h : isWorkflowNodeTerminal n.status = true) :
    finishNode status output error n = n := by
  rw [finishNode, if_pos h]

theorem finishNode_status {status output error} (h : isWorkflowNodeTerminal n.status = false) :
    (finishNode status output error n).status = status := by
  rw [finishNode, h]; rfl

/-- A change of a snapshot that keeps what identifies it. -/
structure KeepsIdentity (g : WorkflowNodeSnapshot → WorkflowNodeSnapshot) : Prop where
  id : ∀ n, (g n).id = n.id
  writePolicy : ∀ n, (g n).writePolicy = n.writePolicy

theorem keepsIdentity_at (hf : KeepsIdentity f) (id : String) :
    KeepsIdentity fun n => if n.id = id then f n else n := by
  constructor
  · intro n; split; exacts [hf.id n, rfl]
  · intro n; split; exacts [hf.writePolicy n, rfl]

theorem keepsIdentity_finishNode (status output error) :
    KeepsIdentity (finishNode status output error) :=
  ⟨finishNode_id status output error, finishNode_writePolicy status output error⟩

theorem keepsIdentity_finishPending (select : String → Bool) (status error) :
    KeepsIdentity (finishIfPending select status error) := by
  constructor
  · intro n; unfold finishIfPending; split; exacts [finishNode_id .., rfl]
  · intro n; unfold finishIfPending; split; exacts [finishNode_writePolicy .., rfl]

/-- A change of a snapshot that leaves its status alone or ends the node. -/
def OnlyEnds (g : WorkflowNodeSnapshot → WorkflowNodeSnapshot) : Prop :=
  ∀ n, (g n).status = n.status ∨
    isWorkflowNodeTerminal n.status = false ∧ isWorkflowNodeTerminal (g n).status = true

theorem onlyEnds_at (hf : OnlyEnds f) (id : String) :
    OnlyEnds fun n => if n.id = id then f n else n := by
  intro n
  dsimp only
  split
  · exact hf n
  · exact Or.inl rfl

variable {status : WorkflowNodeStatus}

theorem onlyEnds_finishNode (h : isWorkflowNodeTerminal status = true) (output error) :
    OnlyEnds (finishNode status output error) := by
  intro n
  cases hn : isWorkflowNodeTerminal n.status with
  | true => rw [finishNode_terminal hn]; exact Or.inl rfl
  | false => rw [finishNode_status hn]; exact Or.inr ⟨rfl, h⟩

theorem onlyEnds_finishPending (h : isWorkflowNodeTerminal status = true) (select : String → Bool)
    (error) :
    OnlyEnds (finishIfPending select status error) := by
  intro n
  unfold finishIfPending
  split
  · exact onlyEnds_finishNode h none (some error) n
  · exact Or.inl rfl

theorem keepsIdentity_noteDiagnostics (diagnostics : List WorkflowDiagnostic) :
    KeepsIdentity (noteDiagnostics diagnostics) :=
  ⟨fun _ => rfl, fun _ => rfl⟩

theorem onlyEnds_noteDiagnostics (diagnostics : List WorkflowDiagnostic) :
    OnlyEnds (noteDiagnostics diagnostics) :=
  fun _ => Or.inl rfl

/-! ## The invariant -/

/-- The part of a workflow the invariant is about: the definition, the snapshots, the
suspended calls and the log of calls. -/
structure CoreInvariant (definition : NormalizedWorkflowDefinition)
    (nodes : List WorkflowNodeSnapshot) (calls : List RunNodeCall) (entered : List String) :
    Prop where
  valid : ValidDefinition definition
  shape : nodes.map (fun n => (n.id, n.writePolicy)) =
    definition.nodes.map fun d => (d.id, d.writePolicy)
  known : ∀ c ∈ calls, c.node ∈ definition.nodes
  logged : ∀ c ∈ calls, entered[c.token]? = some c.node.id
  tokens : (calls.map (·.token)).Nodup
  /-- A pending node that was entered is waiting for its worktree. -/
  pending : ∀ id ∈ entered, ∀ n, nodeById nodes id = some n → n.status = .pending →
    ∃ c ∈ calls, c.node.id = id ∧ c.point = .creatingWorktree
  /-- A running node waits for its agent. -/
  running : ∀ id n, nodeById nodes id = some n → n.status = .running →
    ∃ c ∈ calls, c.node.id = id ∧ ∃ prompt, c.point = .delegating prompt

/-- Only isolated nodes wait for a worktree. -/
def OnlyIsolatedCreate (calls : List RunNodeCall) : Prop :=
  ∀ c ∈ calls, c.point = .creatingWorktree → c.node.writePolicy = .isolated

/-- What holds of a workflow in every reachable state. -/
structure ActiveWorkflow.WellFormed (w : ActiveWorkflow) : Prop where
  core : CoreInvariant w.definition w.nodes w.calls w.entered
  isolated : OnlyIsolatedCreate w.calls

namespace CoreInvariant

variable {definition : NormalizedWorkflowDefinition} {nodes : List WorkflowNodeSnapshot}
  {calls : List RunNodeCall} {entered : List String}

variable (h : CoreInvariant definition nodes calls entered)

include h in
theorem ids :
    nodes.map (·.id) = nodeIds definition.nodes := by
  have := congrArg (List.map Prod.fst) h.shape
  rw [map_map, map_map] at this
  exact this

include h in
theorem nodup : (nodes.map (·.id)).Nodup :=
  h.ids ▸ h.valid.nodup

variable {d : NormalizedWorkflowNodeDefinition}

include h in
/-- Every node of the definition has a snapshot, with its write policy. -/
theorem snapshot (hd : d ∈ definition.nodes) :
    ∃ n, nodeById nodes d.id = some n ∧ n.writePolicy = d.writePolicy := by
  have hmem : (d.id, d.writePolicy) ∈ nodes.map fun n => (n.id, n.writePolicy) :=
    h.shape ▸ List.mem_map.2 ⟨d, hd, rfl⟩
  obtain ⟨n, hn, heq⟩ := List.mem_map.1 hmem
  injection heq with hid hpolicy
  exact ⟨n, hid ▸ nodeById_of_mem h.nodup hn, hpolicy⟩

include h in
theorem exists_snapshot
    (hid : id ∈ nodeIds definition.nodes) : ∃ n, nodeById nodes id = some n := by
  obtain ⟨d, hd, rfl⟩ := List.mem_map.1 hid
  obtain ⟨n, hn, -⟩ := h.snapshot hd
  exact ⟨n, hn⟩

include h in
/-- Ending nodes keeps the invariant. -/
theorem mapNodes (hg : KeepsIdentity g)
    (hs : OnlyEnds g) :
    CoreInvariant definition (nodes.map g) calls entered := by
  refine ⟨h.valid, ?_, h.known, h.logged, h.tokens, ?_, ?_⟩
  · rw [map_map, ← h.shape]
    refine map_congr_left fun n _ => ?_
    show ((g n).id, (g n).writePolicy) = (n.id, n.writePolicy)
    rw [hg.id, hg.writePolicy]
  · intro id hid n hn hp
    rw [nodeById_map hg.id] at hn
    obtain ⟨m, hm, rfl⟩ := map_eq_some_iff.1 hn
    rcases hs m with heq | ⟨-, hterm⟩
    · exact h.pending id hid m hm (heq ▸ hp)
    · rw [hp] at hterm; cases hterm
  · intro id n hn hp
    rw [nodeById_map hg.id] at hn
    obtain ⟨m, hm, rfl⟩ := map_eq_some_iff.1 hn
    rcases hs m with heq | ⟨-, hterm⟩
    · exact h.running id m hm (heq ▸ hp)
    · rw [hp] at hterm; cases hterm

include h in
/-- Changing calls keeps the invariant, as long as a call that leaves its point
leaves a node that is no longer waiting for it. -/
theorem mapCalls {f : RunNodeCall → RunNodeCall}
    (htoken : ∀ c, (f c).token = c.token) (hnode : ∀ c, (f c).node = c.node)
    (hpoint : ∀ c ∈ calls, (f c).point = c.point ∨
      ∀ n, nodeById nodes c.node.id = some n →
        (c.point = .creatingWorktree → n.status ≠ .pending) ∧
        ∀ prompt, c.point = .delegating prompt → n.status ≠ .running) :
    CoreInvariant definition nodes (calls.map f) entered := by
  refine ⟨h.valid, h.shape, ?_, ?_, ?_, ?_, ?_⟩
  · intro c hc
    obtain ⟨b, hb, rfl⟩ := List.mem_map.1 hc
    exact hnode b ▸ h.known b hb
  · intro c hc
    obtain ⟨b, hb, rfl⟩ := List.mem_map.1 hc
    rw [htoken, hnode]
    exact h.logged b hb
  · have : (·.token) ∘ f = (·.token) := funext htoken
    rw [map_map, this]
    exact h.tokens
  · intro id hid n hn hp
    obtain ⟨b, hb, rfl, hbp⟩ := h.pending id hid n hn hp
    refine ⟨f b, List.mem_map.2 ⟨b, hb, rfl⟩, by rw [hnode], ?_⟩
    rcases hpoint b hb with heq | hleft
    · rw [heq, hbp]
    · exact absurd hp ((hleft n hn).1 hbp)
  · intro id n hn hp
    obtain ⟨b, hb, rfl, prompt, hbp⟩ := h.running id n hn hp
    refine ⟨f b, List.mem_map.2 ⟨b, hb, rfl⟩, by rw [hnode], prompt, ?_⟩
    rcases hpoint b hb with heq | hleft
    · rw [heq, hbp]
    · exact absurd hp ((hleft n hn).2 prompt hbp)

include h in
/-- Starting the agent of a node keeps the invariant. -/
theorem delegate {token : Nat} (prompt : String)
    (hcall : ∃ c ∈ calls, c.token = token ∧ c.node = d) :
    CoreInvariant definition
      (updateNode d.id (fun n => { n with status := .running }) nodes)
      (calls.map fun c => if c.token = token then { c with point := .delegating prompt } else c)
      entered := by
  obtain ⟨c₀, hc₀, htok, rfl⟩ := hcall
  -- tokens are unique, so exactly the call `c₀` moves
  have huniq : ∀ c ∈ calls, c.token = token → c = c₀ := by
    intro c hc hct
    exact inj_on_of_nodup_map h.tokens hc hc₀ (hct.trans htok.symm)
  have hother : ∀ c ∈ calls, c.node.id ≠ c₀.node.id → c.token ≠ token := by
    intro c hc hne hct
    exact hne (by rw [huniq c hc hct])
  have hlookup : ∀ id, nodeById (updateNode c₀.node.id (fun n => { n with status := .running })
      nodes) id = (nodeById nodes id).map fun n =>
        if n.id = c₀.node.id then { n with status := .running } else n := by
    intro id
    exact nodeById_map (fun n => by split <;> rfl) nodes id
  have hnodes : ∀ id n, nodeById (updateNode c₀.node.id (fun n => { n with status := .running })
      nodes) id = some n → id ≠ c₀.node.id → nodeById nodes id = some n := by
    intro id n hn hne
    rw [hlookup] at hn
    obtain ⟨m, hm, rfl⟩ := map_eq_some_iff.1 hn
    rw [hm, if_neg ((nodeById_some hm).2 ▸ hne)]
  refine ⟨h.valid, ?_, ?_, ?_, ?_, ?_, ?_⟩
  · unfold updateNode
    rw [map_map, ← h.shape]
    refine map_congr_left fun n _ => ?_
    show ((if _ then _ else _ : WorkflowNodeSnapshot).id,
      (if _ then _ else _ : WorkflowNodeSnapshot).writePolicy) = _
    split <;> rfl
  · intro c hc
    obtain ⟨b, hb, rfl⟩ := List.mem_map.1 hc
    split
    · exact h.known b hb
    · exact h.known b hb
  · intro c hc
    obtain ⟨b, hb, rfl⟩ := List.mem_map.1 hc
    split
    · exact h.logged b hb
    · exact h.logged b hb
  · have : (·.token) ∘ (fun c : RunNodeCall =>
        if c.token = token then { c with point := .delegating prompt } else c) = (·.token) := by
      funext c
      show (if _ then _ else _ : RunNodeCall).token = c.token
      split <;> rfl
    rw [map_map, this]
    exact h.tokens
  · intro id hid n hn hp
    have hne : id ≠ c₀.node.id := by
      rintro rfl
      rw [hlookup] at hn
      obtain ⟨m, hm, rfl⟩ := map_eq_some_iff.1 hn
      rw [if_pos (nodeById_some hm).2] at hp
      cases hp
    obtain ⟨c, hc, hcid, hcp⟩ := h.pending id hid n (hnodes id n hn hne) hp
    refine ⟨c, List.mem_map.2 ⟨c, hc, ?_⟩, hcid, hcp⟩
    exact if_neg (hother c hc (hcid ▸ hne))
  · intro id n hn hp
    by_cases hid : id = c₀.node.id
    · subst hid
      refine ⟨{ c₀ with point := .delegating prompt },
        List.mem_map.2 ⟨c₀, hc₀, if_pos htok⟩, rfl, prompt, rfl⟩
    · obtain ⟨c, hc, hcid, q, hcp⟩ := h.running id n (hnodes id n hn hid) hp
      refine ⟨c, List.mem_map.2 ⟨c, hc, ?_⟩, hcid, q, hcp⟩
      exact if_neg (hother c hc (hcid ▸ hid))

include h in
/-- Calling `runNode` keeps the invariant. -/
theorem enter (hd : d ∈ definition.nodes) :
    CoreInvariant definition nodes
      (calls ++ [⟨entered.length, d, .creatingWorktree, false⟩]) (entered ++ [d.id]) := by
  have hlt : ∀ c ∈ calls, c.token < entered.length := by
    intro c hc
    exact (List.getElem?_eq_some_iff.1 (h.logged c hc)).1
  refine ⟨h.valid, h.shape, ?_, ?_, ?_, ?_, ?_⟩
  · intro c hc
    rcases List.mem_append.1 hc with hc | hc
    · exact h.known c hc
    · rw [List.mem_singleton.1 hc]; exact hd
  · intro c hc
    rcases List.mem_append.1 hc with hc | hc
    · rw [getElem?_append_left (hlt c hc)]
      exact h.logged c hc
    · rw [List.mem_singleton.1 hc]; simp
  · rw [map_append, nodup_append]
    refine ⟨h.tokens, by simp, ?_⟩
    rintro a ha b hb rfl
    obtain ⟨c, hc, rfl⟩ := List.mem_map.1 ha
    have hb : c.token = entered.length := by simpa using hb
    have := hlt c hc
    omega
  · intro id hid n hn hp
    rcases List.mem_append.1 hid with hid | hid
    · obtain ⟨c, hc, hcid, hcp⟩ := h.pending id hid n hn hp
      exact ⟨c, mem_append_left _ hc, hcid, hcp⟩
    · rw [List.mem_singleton.1 hid]
      exact ⟨_, mem_append_right _ (mem_singleton_self _), rfl, rfl⟩
  · intro id n hn hp
    obtain ⟨c, hc, hcid, hcp⟩ := h.running id n hn hp
    exact ⟨c, mem_append_left _ hc, hcid, hcp⟩

include h in
/-- Dropping a call that has returned keeps the invariant. -/
theorem settle {token : Nat}
    (hreturned : ∀ c ∈ calls, c.token = token → c.point = .returned) :
    CoreInvariant definition nodes (calls.filter fun c => decide (c.token ≠ token)) entered := by
  have hkeep : ∀ c ∈ calls, c.point ≠ .returned →
      c ∈ calls.filter fun c => decide (c.token ≠ token) := by
    intro c hc hp
    rw [mem_filter, decide_eq_true_eq]
    exact ⟨hc, fun ht => hp (hreturned c hc ht)⟩
  refine ⟨h.valid, h.shape, fun c hc => h.known c (mem_of_mem_filter hc),
    fun c hc => h.logged c (mem_of_mem_filter hc),
    h.tokens.sublist (List.filter_sublist.map _), ?_, ?_⟩
  · intro id hid n hn hp
    obtain ⟨c, hc, hcid, hcp⟩ := h.pending id hid n hn hp
    exact ⟨c, hkeep c hc (by rw [hcp]; simp), hcid, hcp⟩
  · intro id n hn hp
    obtain ⟨c, hc, hcid, q, hcp⟩ := h.running id n hn hp
    exact ⟨c, hkeep c hc (by rw [hcp]; simp), hcid, q, hcp⟩

end CoreInvariant

namespace ActiveWorkflow

variable {w : ActiveWorkflow}

/-! ## Calls of `runNode` -/

variable {call : RunNodeCall}

theorem waitingCall?_some {token : Nat} {waits : RunNodePoint → Bool}
    (h : w.waitingCall? token waits = some call) :
    call ∈ w.calls ∧ call.token = token ∧ waits call.point = true := by
  unfold waitingCall? at h
  obtain ⟨hc, hp⟩ := Option.filter_eq_some_iff.1 h
  unfold call? at hc
  exact ⟨mem_of_find?_eq_some hc, by simpa using find?_some hc, hp⟩

/-- A node that has ended, or was never part of the workflow. -/
def HasEnded (nodes : List WorkflowNodeSnapshot) (id : String) : Prop :=
  ∀ n, nodeById nodes id = some n → isWorkflowNodeTerminal n.status = true

theorem HasEnded.map (h : HasEnded nodes id) (hg : KeepsIdentity g) (hs : OnlyEnds g) :
    HasEnded (nodes.map g) id := by
  intro n hn
  rw [nodeById_map hg.id] at hn
  obtain ⟨m, hm, rfl⟩ := map_eq_some_iff.1 hn
  rcases hs m with heq | ⟨-, hterm⟩
  · rw [heq]; exact h m hm
  · exact hterm

theorem hasEnded_finishNode (h : isWorkflowNodeTerminal status = true) (output error)
    (nodes : List WorkflowNodeSnapshot) (id : String) :
    HasEnded (updateNode id (finishNode status output error) nodes) id := by
  intro n hn
  unfold updateNode at hn
  rw [nodeById_map (keepsIdentity_at (keepsIdentity_finishNode ..) id).id] at hn
  obtain ⟨m, hm, rfl⟩ := map_eq_some_iff.1 hn
  rw [if_pos (nodeById_some hm).2]
  cases hm' : isWorkflowNodeTerminal m.status with
  | true => rw [finishNode_terminal hm']; exact hm'
  | false => rw [finishNode_status hm']; exact h

/-- Leaving `runNode` drops the controller and moves the call. -/
theorem leaveRunNode_eq (w : ActiveWorkflow) (token : Nat) (id : String) (leased : Bool) :
    ∃ point, (point = .cleaning ∨ point = .returned) ∧
      (w.leaveRunNode token id leased).1 =
        { w.moveCall token point with nodeControllers := w.nodeControllers.delete id } := by
  unfold leaveRunNode
  simp only
  split
  · exact ⟨.cleaning, Or.inl rfl, rfl⟩
  · exact ⟨.returned, Or.inr rfl, rfl⟩

theorem WellFormed.moveCall (h : w.WellFormed) (hcall : call ∈ w.calls) {point : RunNodePoint}
    (hpoint : point ≠ .creatingWorktree)
    (hleft : ∀ n, w.node? call.node.id = some n → (call.point = .creatingWorktree → n.status ≠
      .pending) ∧ ∀ prompt, call.point = .delegating prompt → n.status ≠ .running) :
    (w.moveCall call.token point).WellFormed := by
  constructor
  · refine h.core.mapCalls (fun c => by split <;> rfl) (fun c => by split <;> rfl) ?_
    intro c hc
    by_cases ht : c.token = call.token
    · have : c = call := inj_on_of_nodup_map h.core.tokens hc hcall ht
      subst this
      exact Or.inr hleft
    · rw [if_neg ht]; exact Or.inl rfl
  · intro c hc hp
    obtain ⟨b, hb, rfl⟩ := List.mem_map.1 hc
    split at hp
    · exact absurd hp hpoint
    · next hne => rw [if_neg hne]; exact h.isolated b hb hp

theorem WellFormed.mapNodes (h : w.WellFormed) (hg : KeepsIdentity g) (hs : OnlyEnds g) :
    WellFormed { w with nodes := w.nodes.map g } :=
  ⟨h.core.mapNodes hg hs, h.isolated⟩

theorem WellFormed.abortCalls (h : w.WellFormed) (tokens : List Nat) :
    (w.abortCalls tokens).WellFormed := by
  constructor
  · exact h.core.mapCalls (fun c => by split <;> rfl) (fun c => by split <;> rfl)
      (fun c _ => Or.inl (by split <;> rfl))
  · intro c hc hp
    obtain ⟨b, hb, rfl⟩ := List.mem_map.1 hc
    split at hp <;> split <;> exact h.isolated b hb hp

theorem WellFormed.applyFailurePolicy (h : w.WellFormed) (d : NormalizedWorkflowNodeDefinition) :
    (w.applyFailurePolicy d).WellFormed := by
  unfold ActiveWorkflow.applyFailurePolicy
  split
  · exact h
  · have habort := h.abortCalls
      ((w.nodeControllers.entries.filter fun p => decide (p.1 ≠ d.id)).map Prod.snd)
    have hnodes := habort.mapNodes (keepsIdentity_finishPending (fun _ => true) .cancelled
      ⟨"upstream_failure", "Workflow stopped after node " ++ d.id ++ " failed"⟩)
      (onlyEnds_finishPending rfl _ _)
    exact ⟨hnodes.core, hnodes.isolated⟩
  · exact h.mapNodes (keepsIdentity_finishPending ..) (onlyEnds_finishPending rfl _ _)

theorem HasEnded.applyFailurePolicy (h : HasEnded w.nodes id)
    (d : NormalizedWorkflowNodeDefinition) : HasEnded (w.applyFailurePolicy d).nodes id := by
  unfold ActiveWorkflow.applyFailurePolicy
  split
  · exact h
  · exact h.map (keepsIdentity_finishPending ..) (onlyEnds_finishPending rfl _ _)
  · exact h.map (keepsIdentity_finishPending ..) (onlyEnds_finishPending rfl _ _)

theorem applyFailurePolicy_calls (w : ActiveWorkflow) (d : NormalizedWorkflowNodeDefinition)
    {c : RunNodeCall} (hc : c ∈ w.calls) :
    ∃ c' ∈ (w.applyFailurePolicy d).calls,
      c'.token = c.token ∧ c'.node = c.node ∧ c'.point = c.point := by
  unfold ActiveWorkflow.applyFailurePolicy
  split
  · exact ⟨c, hc, rfl, rfl, rfl⟩
  · refine ⟨_, List.mem_map.2 ⟨c, hc, rfl⟩, ?_⟩
    split <;> exact ⟨rfl, rfl, rfl⟩
  · exact ⟨c, hc, rfl, rfl, rfl⟩

theorem WellFormed.endRunNode (h : w.WellFormed) (hcall : call ∈ w.calls)
    (hstatus : isWorkflowNodeTerminal status = true) (output error) (failed leased : Bool) :
    (w.endRunNode call status output error failed leased).1.WellFormed := by
  have hfin : (w.changeNode call.node.id (finishNode status output error)).WellFormed :=
    h.mapNodes (keepsIdentity_at (keepsIdentity_finishNode ..) _)
      (onlyEnds_at (onlyEnds_finishNode hstatus _ _) _)
  have hend : HasEnded (w.changeNode call.node.id (finishNode status output error)).nodes
      call.node.id := hasEnded_finishNode hstatus output error w.nodes call.node.id
  -- the state in which the call leaves, whether or not the failure policy was applied
  have hleave : ∀ v : ActiveWorkflow, v.WellFormed → HasEnded v.nodes call.node.id →
      (∃ c ∈ v.calls, c.token = call.token ∧ c.node = call.node ∧ c.point = call.point) →
      (v.leaveRunNode call.token call.node.id leased).1.WellFormed := by
    rintro v hv hended ⟨c, hc, htoken, hnode, -⟩
    obtain ⟨point, hpoint, heq⟩ := leaveRunNode_eq v call.token call.node.id leased
    have hmoved := hv.moveCall hc (by rcases hpoint with rfl | rfl <;> simp : point ≠
      .creatingWorktree) (by
      intro n hn
      rw [hnode] at hn
      have hterm := hended n hn
      constructor
      · rintro - hp; rw [hp] at hterm; cases hterm
      · rintro - - hp; rw [hp] at hterm; cases hterm)
    rw [htoken] at hmoved
    rw [heq]
    exact ⟨hmoved.core, hmoved.isolated⟩
  unfold ActiveWorkflow.endRunNode
  simp only
  split
  · exact hleave _ (hfin.applyFailurePolicy _) (hend.applyFailurePolicy _)
      (applyFailurePolicy_calls _ _ hcall)
  · exact hleave _ hfin hend ⟨call, hcall, rfl, rfl, rfl⟩

end ActiveWorkflow

end BeauPi.Workflow
