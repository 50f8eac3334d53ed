import BeauPi.Tasks.Dependencies
import BeauPi.Workflow.Schema

/-!
# One verdict on two kinds of graphs

Workflows and Dynamic Tasks validate their dependencies separately.  On the same ids and
dependencies both find the same first defect.

* `graphOf` — ids and dependencies of a definition.
* `Verdict` — what the two validators say of one graph; `Verdict.bind` composes their steps.
* `assertUniqueIds_verdict`, `assertDependencies_verdict`, `assertAcyclic_verdict` — the loops of
  the workflow validator find what those for tasks find.
* `validators_accept_dags` — **tasks are accepted exactly if they form a finite graph without a
  cycle, and the workflow validator says the same of the graph of a definition.**
-/

namespace BeauPi.Workflow

open Machine List

/-- The ids and dependencies of the nodes. -/
def graphOf (nodes : List WorkflowNodeDefinition) : List (String × List String) :=
  nodes.map fun node => (node.id, node.dependsOn.getD [])

/-- The code that the workflow validator has for a defect of a graph. -/
def graphCode (code : String) : String :=
  if code = "duplicate_task_id" then "duplicate_node_id" else code

/-- What the validators say of one graph: both accept it, both find the same defect, or the workflow
validator finds one of another kind. -/
inductive Verdict {α : Type} (accepts : α → Prop) (other : WorkflowValidationError → Prop) :
    Except WorkflowValidationError α → Except Tasks.DynamicTaskValidationError Unit → Prop
  | accepted (a : α) (h : accepts a) : Verdict accepts other (.ok a) (.ok ())
  | defect (error : WorkflowValidationError) (e : Tasks.DynamicTaskValidationError)
      (code : error.code = graphCode e.code) (id : error.nodeId = e.taskId) :
      Verdict accepts other (.error error) (.error e)
  | other (error : WorkflowValidationError)
      (tasks : Except Tasks.DynamicTaskValidationError Unit) (h : other error) :
      Verdict accepts other (.error error) tasks

namespace Verdict

variable {α β : Type} {accepts : α → Prop} {accepts' : β → Prop}
  {other : WorkflowValidationError → Prop} {x : Except WorkflowValidationError α}
  {f : α → Except WorkflowValidationError β}
  {tasks tasks' : Except Tasks.DynamicTaskValidationError Unit}

/-- Steps that agree are composed. -/
theorem bind (h : Verdict accepts other x tasks)
    (hf : ∀ a, accepts a → Verdict accepts' other (f a) tasks') :
    Verdict accepts' other (x >>= f) (tasks >>= fun _ => tasks') := by
  cases h with
  | accepted a h => exact hf a h
  | defect error e code id => exact .defect error e code id
  | other error tasks h => exact .other error _ h

/-- A step that agrees is followed by one that only the workflow validator makes. -/
theorem bind_own (h : Verdict accepts other x tasks)
    (hf : ∀ a, accepts a → Verdict accepts' other (f a) (.ok ())) :
    Verdict accepts' other (x >>= f) tasks := by
  cases h with
  | accepted a h => exact hf a h
  | defect error e code id => exact .defect error e code id
  | other error tasks h => exact .other error _ h

/-- A step that only the workflow validator makes. -/
theorem own (h : ∀ error, x = .error error → other error)
    (hf : ∀ a, x = .ok a → Verdict accepts' other (f a) tasks) :
    Verdict accepts' other (x >>= f) tasks := by
  cases x with
  | error error => exact .other error _ (h error rfl)
  | ok a => exact hf a rfl

theorem mono {accepts'' : α → Prop} {other' : WorkflowValidationError → Prop}
    (h : Verdict accepts other x tasks) (haccepts : ∀ a, accepts a → accepts'' a)
    (hother : ∀ error, other error → other' error) : Verdict accepts'' other' x tasks := by
  cases h with
  | accepted a h => exact .accepted a (haccepts a h)
  | defect error e code id => exact .defect error e code id
  | other error tasks h => exact .other error tasks (hother error h)

end Verdict

/-- A node has a profile that exists, and a condition that is well formed. -/
def IsFine (profileExists : String → Bool) (options : WorkflowProfileResolutionOptions)
    (node : WorkflowNodeDefinition) : Prop :=
  (∃ profile, resolveProfile profileExists options node = .ok profile) ∧
    assertCondition node.id node.condition (node.dependsOn.getD []) = .ok ()

/-- An error that names a node whose profile or condition is at fault. -/
def IsOwnDefect (profileExists : String → Bool) (options : WorkflowProfileResolutionOptions)
    (nodes : List WorkflowNodeDefinition) (error : WorkflowValidationError) : Prop :=
  error.code ∈ ["profile_required", "profile_conflict", "profile_not_found", "invalid_condition"] ∧
    ∃ node ∈ nodes, error.nodeId = some node.id ∧ ¬ IsFine profileExists options node

/-- An error that is not about the graph of the definition. -/
def IsOtherDefect (profileExists : String → Bool) (options : WorkflowProfileResolutionOptions)
    (definition : WorkflowDefinition) (error : WorkflowValidationError) : Prop :=
  error.code = "invalid_schema" ∧ checkDefinition definition = false ∨
    IsOwnDefect profileExists options definition.nodes error

variable {profileExists : String → Bool} {options : WorkflowProfileResolutionOptions}
  {ids : List String} {node : WorkflowNodeDefinition} {nodes : List WorkflowNodeDefinition}
  {other : WorkflowValidationError → Prop}

/-! ## The ids -/

/-- One turn of `assertUniqueIds`. -/
def collectNodeId (ids : List String) (node : WorkflowNodeDefinition) :
    Except WorkflowValidationError (List String) :=
  if node.id ∈ ids then
    .error ⟨"duplicate_node_id", "Duplicate Workflow node id " ++ Json.quote node.id, some node.id⟩
  else .ok (ids ++ [node.id])

/-- Both loops over the ids stop at the same one. -/
theorem collectNodeId_verdict : ∀ (nodes : List WorkflowNodeDefinition) (seen seen' : List String),
    (∀ id, id ∈ seen ↔ id ∈ seen') →
    Verdict (fun out => out = seen ++ nodes.map (·.id)) other (nodes.foldlM collectNodeId seen)
      ((nodes.map (·.id)).foldlM Tasks.collectTaskId seen' >>= fun _ => .ok ()) := by
  intro nodes
  induction nodes with
  | nil => intro seen seen' _; exact .accepted seen (by simp)
  | cons node nodes ih =>
    intro seen seen' hsame
    rw [foldlM_cons, map_cons, foldlM_cons, Tasks.collectTaskId, collectNodeId]
    by_cases hmem : node.id ∈ seen
    · rw [if_pos hmem, if_pos ((hsame node.id).1 hmem)]
      exact .defect _ _ rfl rfl
    · rw [if_neg hmem, if_neg (fun h => hmem ((hsame node.id).2 h))]
      refine (ih (seen ++ [node.id]) (node.id :: seen') ?_).mono (by simp) fun _ h => h
      intro id
      rw [mem_append, mem_singleton, mem_cons, hsame id, or_comm]

theorem assertUniqueIds_verdict (nodes : List WorkflowNodeDefinition) :
    Verdict (fun ids => ids = nodes.map (·.id)) other (assertUniqueIds nodes)
      (Tasks.assertUniqueTaskIds ((graphOf nodes).map Prod.fst)) := by
  have hids : (graphOf nodes).map Prod.fst = nodes.map (·.id) := by
    rw [graphOf, map_map]
    rfl
  rw [hids]
  exact collectNodeId_verdict nodes [] [] fun _ => Iff.rfl

/-! ## The dependencies of a node -/

/-- Both loops over the dependencies of a node stop at the same one, for the same reason. -/
theorem assertDependencies_verdict {id : String} (hid : id ∈ ids) {dependsOn : List String}
    (hunique : dependsOn.Nodup) :
    Verdict (fun _ => True) other (assertDependencies ids id dependsOn)
      (Tasks.assertTaskDependencies ids id dependsOn) := by
  unfold Tasks.assertTaskDependencies assertDependencies
  rw [Tasks.assertUnique_ok_iff.2 hunique]
  clear hunique
  induction dependsOn with
  | nil => exact .accepted () trivial
  | cons dependency dependsOn ih =>
    rw [forM_eq_forM, forM_eq_forM, forM_cons, forM_cons]
    by_cases hknown : dependency ∈ ids
    · by_cases hself : dependency = id
      · rw [if_neg (not_not.2 hknown), if_pos hself, if_pos hself]
        exact .defect _ _ rfl rfl
      · rw [if_neg (not_not.2 hknown), if_neg hself, if_neg hself, if_neg (not_not.2 hknown)]
        exact ih
    · have hself : dependency ≠ id := fun h => hknown (h ▸ hid)
      rw [if_pos hknown, if_neg hself, if_pos hknown]
      exact .defect _ _ rfl rfl

variable {error : WorkflowValidationError}

theorem resolveProfile_error (h : resolveProfile profileExists options node = .error error) :
    IsOwnDefect profileExists options [node] error := by
  have hfine : ¬ IsFine profileExists options node := by
    rintro ⟨⟨profile, hprofile⟩, -⟩
    rw [h] at hprofile
    cases hprofile
  unfold resolveProfile at h
  split at h
  next => cases h; exact ⟨by simp, node, by simp, rfl, hfine⟩
  next =>
    dsimp only at h
    split at h
    next => cases h; exact ⟨by simp, node, by simp, rfl, hfine⟩
    next =>
      split at h
      next => cases h; exact ⟨by simp, node, by simp, rfl, hfine⟩
      next => cases h

theorem assertCondition_error
    (h : assertCondition node.id node.condition (node.dependsOn.getD []) = .error error) :
    IsOwnDefect profileExists options [node] error := by
  have hfine : ¬ IsFine profileExists options node := by
    rintro ⟨-, hcondition⟩
    rw [h] at hcondition
    cases hcondition
  unfold assertCondition at h
  split at h
  next => cases h
  next =>
    split at h
    next => cases h
    next =>
      split at h
      next => cases h
      next => cases h; exact ⟨by simp, node, by simp, rfl, hfine⟩

/-- A node is normalized, or its own rules or those of the graph are broken. -/
theorem normalizeNode_verdict (hid : node.id ∈ ids) (hunique : (node.dependsOn.getD []).Nodup) :
    Verdict (fun result => (result.id, result.dependsOn) = (node.id, node.dependsOn.getD []))
      (IsOwnDefect profileExists options [node]) (normalizeNode profileExists options ids node)
      (Tasks.assertTaskDependencies ids node.id (node.dependsOn.getD [])) := by
  unfold normalizeNode
  refine .own (fun _ h => resolveProfile_error h) fun profile _ => ?_
  refine (assertDependencies_verdict hid hunique).bind_own fun _ _ => ?_
  refine .own (fun _ h => assertCondition_error h) fun _ _ => ?_
  exact .accepted _ rfl

theorem IsOwnDefect.mono {nodes' : List WorkflowNodeDefinition}
    (h : IsOwnDefect profileExists options nodes error) (hsub : nodes ⊆ nodes') :
    IsOwnDefect profileExists options nodes' error := by
  obtain ⟨hcode, node, hnode, hid, hfine⟩ := h
  exact ⟨hcode, node, hsub hnode, hid, hfine⟩

/-- The nodes are normalized, or the first defect is found. -/
theorem normalizeNodes_verdict : ∀ (nodes : List WorkflowNodeDefinition),
    (∀ node ∈ nodes, node.id ∈ ids) → (∀ node ∈ nodes, (node.dependsOn.getD []).Nodup) →
    Verdict (fun results => results.map (fun node => (node.id, node.dependsOn)) = graphOf nodes)
      (IsOwnDefect profileExists options nodes)
      (nodes.mapM (normalizeNode profileExists options ids))
      ((graphOf nodes).forM fun task => Tasks.assertTaskDependencies ids task.1 task.2) := by
  intro nodes
  induction nodes with
  | nil => intro _ _; exact .accepted [] rfl
  | cons node nodes ih =>
    intro hids hunique
    have hfirst := @normalizeNode_verdict profileExists options ids node
      (hids node (by simp)) (hunique node (by simp))
    have hrest := ih (fun n hn => hids n (by simp [hn])) (fun n hn => hunique n (by simp [hn]))
    rw [mapM_cons]
    show Verdict _ _ _ (((node.id, node.dependsOn.getD []) :: graphOf nodes).forM _)
    rw [forM_eq_forM, forM_cons]
    refine (hfirst.mono (fun _ h => h) fun _ h => h.mono (by simp)).bind fun result hresult => ?_
    refine (hrest.mono (fun _ h => h) fun _ h => h.mono (by simp)).bind_own fun results hresults => ?_
    refine .accepted _ ?_
    show (result.id, result.dependsOn) :: results.map _ = _ :: graphOf nodes
    rw [hresult, hresults]

/-! ## The search -/

theorem dependenciesOf_graph (nodes : List NormalizedWorkflowNodeDefinition) :
    Tasks.dependenciesOf (nodes.map fun node => (node.id, node.dependsOn)) =
      dependenciesOf nodes := by
  funext id
  unfold Tasks.dependenciesOf dependenciesOf
  induction nodes with
  | nil => rfl
  | cons node nodes ih =>
    simp only [map_cons, find?_cons]
    cases node.id == id with
    | true => rfl
    | false => exact ih

/-- Both searches meet the same cycle, or none. -/
theorem assertAcyclic_verdict (nodes : List NormalizedWorkflowNodeDefinition) :
    Verdict (fun _ => True) other (assertAcyclic nodes)
      (Tasks.assertNoCycle (nodes.map fun node => (node.id, node.dependsOn))) := by
  unfold assertAcyclic Tasks.assertNoCycle
  have hids : (nodes.map fun node => (node.id, node.dependsOn)).map Prod.fst = nodes.map (·.id) := by
    rw [map_map]
    rfl
  rw [dependenciesOf_graph, hids]
  cases visitAll (dependenciesOf nodes) (nodes.map (·.id)) with
  | ok _ => exact .accepted () trivial
  | error e => cases e <;> exact .defect _ _ rfl rfl

/-! ## The verdict -/

theorem dependsOn_unique {definition : WorkflowDefinition} (h : checkDefinition definition = true)
    (hnode : node ∈ definition.nodes) : (node.dependsOn.getD []).Nodup := by
  simp only [checkDefinition, Bool.and_eq_true, all_eq_true] at h
  have hcheck := h.2 node hnode
  cases hdeps : node.dependsOn with
  | none => exact nodup_nil
  | some dependsOn =>
    simp only [checkNode, hdeps, optional, Bool.and_eq_true, decide_eq_true_eq] at hcheck
    exact hcheck.1.1.1.2.2

/-- **Both validators find the same first defect of a graph.** -/
theorem validateWorkflowDefinition_verdict (profileExists : String → Bool)
    (options : WorkflowProfileResolutionOptions) (definition : WorkflowDefinition) :
    Verdict (fun _ => True) (IsOtherDefect profileExists options definition)
      (validateWorkflowDefinition definition profileExists options)
      (Tasks.validateDependencies (graphOf definition.nodes)) := by
  unfold validateWorkflowDefinition Tasks.validateDependencies
  cases hcheck : checkDefinition definition with
  | false =>
    refine .own (fun error h => ?_) fun _ h => ?_
    · rw [assertSchema, hcheck] at h
      cases h
      exact .inl ⟨rfl, hcheck⟩
    · rw [assertSchema, hcheck] at h
      cases h
  | true =>
    have hschema : assertSchema definition = .ok () := by rw [assertSchema, hcheck]; rfl
    refine .own (fun error h => ?_) fun _ _ => ?_
    · rw [hschema] at h
      cases h
    · refine (assertUniqueIds_verdict definition.nodes).bind fun ids hids => ?_
      subst hids
      have hgraph : (graphOf definition.nodes).map Prod.fst = definition.nodes.map (·.id) := by
        rw [graphOf, map_map]
        rfl
      rw [hgraph]
      have hnodes := @normalizeNodes_verdict profileExists options (definition.nodes.map (·.id))
        definition.nodes (fun node h => mem_map_of_mem h) fun _ h => dependsOn_unique hcheck h
      refine (hnodes.mono (fun _ h => h) fun _ h => .inr h).bind fun results hresults => ?_
      rw [← hresults]
      refine (assertAcyclic_verdict results).bind_own fun _ _ => ?_
      exact .accepted _ trivial

/-- **Tasks are accepted exactly if they form a finite graph without a cycle, and the workflow
validator says the same of the graph of a definition.** -/
theorem validators_accept_dags :
    (∀ tasks : List (String × List String),
      Tasks.validateDependencies tasks = .ok () ↔ Tasks.IsDag tasks) ∧
    ∀ (profileExists : String → Bool) (options : WorkflowProfileResolutionOptions)
      (definition : WorkflowDefinition),
      Verdict (fun _ => True) (IsOtherDefect profileExists options definition)
        (validateWorkflowDefinition definition profileExists options)
        (Tasks.validateDependencies (graphOf definition.nodes)) :=
  ⟨fun _ => Tasks.validateDependencies_ok_iff, validateWorkflowDefinition_verdict⟩

end BeauPi.Workflow
