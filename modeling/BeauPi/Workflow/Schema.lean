import BeauPi.Machine.DepthFirst
import BeauPi.Workflow.Condition

/-!
# Accepting a workflow definition

`validateWorkflowDefinition` of `core/workflow/schema.ts`: the limits of the
schema, unique ids, known profiles, known dependencies, well-formed conditions
and no dependency cycle.  `ValidDefinition` collects what the scheduler relies on,
and `validateWorkflowDefinition_valid` says that every accepted definition has it.

Strings are measured as JSON Schema measures them, in characters.
-/

namespace BeauPi.Workflow

open Machine

/-- `WORKFLOW_LIMITS`. -/
structure WorkflowLimits where
  maxNodes : Nat := 64
  maxConcurrency : Nat := 16
  maxTaskLength : Nat := 20000
  maxDescriptionLength : Nat := 1000
  maxTimeoutMs : Nat := 86400000
  maxTokens : Nat := 2000000
  maxTurns : Nat := 1024

def workflowLimits : WorkflowLimits := {}

/-- An error that rejects a definition. -/
structure WorkflowValidationError where
  code : String
  message : String
  nodeId : Option String
  deriving DecidableEq, Repr

/-! ## The schema -/

/-- A length between `lo` and `hi`. -/
def lengthWithin (lo hi : Nat) (s : String) : Bool := lo ≤ s.length && s.length ≤ hi

/-- A number between `lo` and `hi`. -/
def within (lo hi n : Nat) : Bool := lo ≤ n && n ≤ hi

/-- An optional property is absent or passes its check. -/
def optional {α : Type} (check : α → Bool) : Option α → Bool
  | none => true
  | some a => check a

/-- `WORKFLOW_NODE_SCHEMA`. -/
def checkNode (node : WorkflowNodeDefinition) : Bool :=
  lengthWithin 1 64 node.id && Js.isIdentifier node.id &&
  optional (lengthWithin 1 64) node.agent &&
  optional (lengthWithin 1 64) node.profile &&
  lengthWithin 1 workflowLimits.maxTaskLength node.task &&
  optional (fun ds => ds.all (lengthWithin 1 64) && ds.length ≤ workflowLimits.maxNodes &&
    decide ds.Nodup) node.dependsOn &&
  optional (lengthWithin 1 512) node.condition &&
  optional (within 1 workflowLimits.maxTimeoutMs) node.timeoutMs &&
  optional (fun b => optional (within 1 workflowLimits.maxTokens) b.maxTokens &&
    optional (within 1 workflowLimits.maxTurns) b.maxTurns) node.budget

/-- `WORKFLOW_DEFINITION_SCHEMA`. -/
def checkDefinition (definition : WorkflowDefinition) : Bool :=
  definition.version == 1 &&
  lengthWithin 1 64 definition.id && Js.isIdentifier definition.id &&
  optional (lengthWithin 0 workflowLimits.maxDescriptionLength) definition.description &&
  optional (within 1 workflowLimits.maxConcurrency) definition.maxConcurrency &&
  within 1 workflowLimits.maxNodes definition.nodes.length &&
  definition.nodes.all checkNode

/-! ## Cycles -/

/-- The dependencies of the node with a given id. -/
def dependenciesOf (nodes : List NormalizedWorkflowNodeDefinition) (id : String) : List String :=
  match nodes.find? (fun node => node.id == id) with
  | some node => node.dependsOn
  | none => []

/-- `a -> b -> c`. -/
def arrowPath (path : List String) : String := " -> ".intercalate path

/-- Reject a definition whose dependencies run in a circle. -/
def assertAcyclic (nodes : List NormalizedWorkflowNodeDefinition) :
    Except WorkflowValidationError Unit :=
  match visitAll (dependenciesOf nodes) (nodes.map (·.id)) with
  | .ok _ => .ok ()
  | .error (.cycle path node) =>
    .error ⟨"dependency_cycle", "Workflow dependency cycle: " ++ arrowPath path, some node⟩
  | .error .outOfFuel => .error ⟨"dependency_cycle", "", none⟩

/-! ## Normalization -/

/-- The profiles that nodes may name. -/
structure WorkflowProfileResolutionOptions where
  defaultProfile : Option String
  availableProfiles : List String

/-- The hint appended to profile errors. -/
def profileResolutionHint (options : WorkflowProfileResolutionOptions) : String :=
  let available :=
    if options.availableProfiles.isEmpty then ""
    else " Available profiles: " ++ ", ".intercalate options.availableProfiles ++ "."
  let fallback :=
    match options.defaultProfile with
    | none => ""
    | some profile =>
      if profile.isEmpty then "" else " Omit agent/profile to use " ++ Json.quote profile ++ "."
  available ++ fallback

/-- Reject the first node whose id occurred before. -/
def assertUniqueIds (nodes : List WorkflowNodeDefinition) :
    Except WorkflowValidationError (List String) :=
  nodes.foldlM (fun ids node =>
    if node.id ∈ ids then
      .error ⟨"duplicate_node_id", "Duplicate Workflow node id " ++ Json.quote node.id,
        some node.id⟩
    else .ok (ids ++ [node.id])) []

/-- Reject an unknown dependency and a dependency on the node itself. -/
def assertDependencies (ids : List String) (nodeId : String) (dependsOn : List String) :
    Except WorkflowValidationError Unit :=
  dependsOn.forM fun dependency =>
    if dependency ∉ ids then
      .error ⟨"unknown_dependency", "Workflow node " ++ Json.quote nodeId ++
        " depends on unknown node " ++ Json.quote dependency, some nodeId⟩
    else if dependency = nodeId then
      .error ⟨"dependency_cycle", "Workflow node " ++ Json.quote nodeId ++ " depends on itself",
        some nodeId⟩
    else .ok ()

/-- Reject a malformed condition. -/
def assertCondition (nodeId : String) (condition : Option String) (dependsOn : List String) :
    Except WorkflowValidationError Unit :=
  match condition with
  | none => .ok ()
  | some text =>
    if text.isEmpty then .ok ()
    else
      match validateWorkflowCondition text dependsOn with
      | .ok () => .ok ()
      | .error e =>
        .error ⟨"invalid_condition", "Workflow node " ++ Json.quote nodeId ++
          " has an invalid condition: " ++ e, some nodeId⟩

/-- The profile of a node: its own, its agent, or the default. -/
def resolveProfile (profileExists : String → Bool) (options : WorkflowProfileResolutionOptions)
    (node : WorkflowNodeDefinition) : Except WorkflowValidationError String :=
  match (node.profile <|> node.agent <|> options.defaultProfile).filter (fun p => !p.isEmpty) with
  | none =>
    .error ⟨"profile_required", "Workflow node " ++ Json.quote node.id ++
      " needs agent or profile." ++ profileResolutionHint options, some node.id⟩
  | some profile =>
    let own := node.profile.getD ""
    let agent := node.agent.getD ""
    if !own.isEmpty && !agent.isEmpty && own != agent then
      .error ⟨"profile_conflict", "Workflow node " ++ Json.quote node.id ++
        " has conflicting agent and profile values", some node.id⟩
    else if !profileExists profile then
      .error ⟨"profile_not_found", "Unknown Agent Profile " ++ Json.quote profile ++ "." ++
        profileResolutionHint options, some node.id⟩
    else .ok profile

/-- Fill in the defaults of one node, checking what the schema cannot. -/
def normalizeNode (profileExists : String → Bool) (options : WorkflowProfileResolutionOptions)
    (ids : List String) (node : WorkflowNodeDefinition) :
    Except WorkflowValidationError NormalizedWorkflowNodeDefinition := do
  let dependsOn := node.dependsOn.getD []
  let profile ← resolveProfile profileExists options node
  assertDependencies ids node.id dependsOn
  assertCondition node.id node.condition dependsOn
  return {
    id := node.id
    profile := profile
    task := node.task
    dependsOn := dependsOn
    condition := node.condition
    writePolicy := node.writePolicy.getD .none
    timeoutMs := node.timeoutMs
    failurePolicy := node.failurePolicy.getD .failWorkflow
    budget := node.budget
    cancelStrategy := node.cancelStrategy }

/-- Reject a definition that does not match the schema. -/
def assertSchema (definition : WorkflowDefinition) : Except WorkflowValidationError Unit :=
  if checkDefinition definition then .ok ()
  else .error ⟨"invalid_schema", "Invalid Workflow definition: schema mismatch", none⟩

/-- Accept or reject a definition. -/
def validateWorkflowDefinition (definition : WorkflowDefinition) (profileExists : String → Bool)
    (options : WorkflowProfileResolutionOptions) :
    Except WorkflowValidationError NormalizedWorkflowDefinition := do
  assertSchema definition
  let ids ← assertUniqueIds definition.nodes
  let nodes ← definition.nodes.mapM (normalizeNode profileExists options ids)
  assertAcyclic nodes
  return {
    version := 1
    id := definition.id
    description := definition.description
    maxConcurrency := definition.maxConcurrency.getD 4
    nodes := nodes }

/-- Put the task of the run into the task of a node that asks for it. -/
def materializeNode (definitionId : String) (task : Option String)
    (node : NormalizedWorkflowNodeDefinition) :
    Except WorkflowValidationError NormalizedWorkflowNodeDefinition :=
  if !Js.includes node.task "\x7b\x7btask\x7d\x7d" then .ok node
  else
    let text := Js.trim (task.getD "")
    if text.isEmpty then
      .error ⟨"task_required", "Workflow " ++ Json.quote definitionId ++
        " requires the workflow_run task parameter", some node.id⟩
    else .ok { node with task := Js.replaceAll node.task "\x7b\x7btask\x7d\x7d" text }

/-- Put the task of the run into the node tasks that ask for it. -/
def materializeWorkflowTask (definition : NormalizedWorkflowDefinition) (task : Option String) :
    Except WorkflowValidationError NormalizedWorkflowDefinition := do
  let nodes ← definition.nodes.mapM (materializeNode definition.id task)
  return { definition with nodes := nodes }

/-! ## What acceptance means -/

/-- The ids of a list of nodes. -/
def nodeIds (nodes : List NormalizedWorkflowNodeDefinition) : List String := nodes.map (·.id)

/-- What the scheduler relies on. -/
structure ValidDefinition (definition : NormalizedWorkflowDefinition) : Prop where
  nodup : (nodeIds definition.nodes).Nodup
  known : ∀ node ∈ definition.nodes, ∀ dependency ∈ node.dependsOn,
    dependency ∈ nodeIds definition.nodes
  acyclic : ∀ id ∈ nodeIds definition.nodes,
    Acc (fun dependency id => dependency ∈ dependenciesOf definition.nodes id) id
  concurrency : 1 ≤ definition.maxConcurrency
  conditions : ∀ node ∈ definition.nodes, ∀ text, node.condition = some text → text ≠ "" →
    validateWorkflowCondition text node.dependsOn = .ok ()

variable {ids : List String}

theorem assertUniqueIds_nodup {nodes : List WorkflowNodeDefinition}
    (h : assertUniqueIds nodes = .ok ids) : ids.Nodup ∧ ids = nodes.map (·.id) := by
  have hfold : ∀ (nodes : List WorkflowNodeDefinition) (seen ids : List String), seen.Nodup →
      nodes.foldlM (fun ids node =>
        if node.id ∈ ids then
          .error ⟨"duplicate_node_id", "Duplicate Workflow node id " ++ Json.quote node.id,
            some node.id⟩
        else .ok (ids ++ [node.id])) seen = (.ok ids : Except WorkflowValidationError _) →
      ids.Nodup ∧ ids = seen ++ nodes.map (·.id) := by
    intro nodes
    induction nodes with
    | nil => intro seen ids hseen h; cases h; exact ⟨hseen, by simp⟩
    | cons node nodes ih =>
      intro seen ids hseen h
      rw [List.foldlM_cons] at h
      by_cases hmem : node.id ∈ seen
      · rw [if_pos hmem] at h; cases h
      · rw [if_neg hmem] at h
        have hseen' : (seen ++ [node.id]).Nodup := by
          rw [List.nodup_append]
          refine ⟨hseen, by simp, ?_⟩
          rintro a ha b hb rfl
          exact hmem (List.mem_singleton.1 hb ▸ ha)
        obtain ⟨hnd, hids⟩ := ih _ _ hseen' h
        exact ⟨hnd, by rw [hids]; simp⟩
  simpa using hfold nodes [] ids List.nodup_nil h

variable {u : Unit}

theorem assertDependencies_known {nodeId : String} {dependsOn : List String}
    (h : assertDependencies ids nodeId dependsOn = .ok u) :
    ∀ dependency ∈ dependsOn, dependency ∈ ids := by
  intro dependency hmem
  have hd := forM_eq_ok h dependency hmem
  by_contra hnot
  rw [if_pos hnot] at hd
  cases hd

theorem assertCondition_valid {nodeId text : String} {condition : Option String}
    {dependsOn : List String} (h : assertCondition nodeId condition dependsOn = .ok u)
    (hc : condition = some text) (hne : text ≠ "") :
    validateWorkflowCondition text dependsOn = .ok () := by
  subst hc
  rw [assertCondition] at h
  simp only [String.isEmpty_iff, hne, if_false] at h
  cases hv : validateWorkflowCondition text dependsOn with
  | ok v => rfl
  | error e => rw [hv] at h; cases h

/-- A normalized node keeps the id, and its dependencies and condition have been
checked. -/
theorem normalizeNode_checked {profileExists : String → Bool}
    {options : WorkflowProfileResolutionOptions} {node : WorkflowNodeDefinition}
    {result : NormalizedWorkflowNodeDefinition}
    (h : normalizeNode profileExists options ids node = .ok result) :
    result.id = node.id ∧ (∀ dependency ∈ result.dependsOn, dependency ∈ ids) ∧
      ∀ text, result.condition = some text → text ≠ "" →
        validateWorkflowCondition text result.dependsOn = .ok () := by
  unfold normalizeNode at h
  obtain ⟨profile, -, h⟩ := bind_eq_ok.1 h
  obtain ⟨_, hdeps, h⟩ := bind_eq_ok.1 h
  obtain ⟨_, hcond, h⟩ := bind_eq_ok.1 h
  cases h
  refine ⟨rfl, assertDependencies_known hdeps, ?_⟩
  intro text hc hne
  exact assertCondition_valid hcond hc hne

theorem assertAcyclic_acc {nodes : List NormalizedWorkflowNodeDefinition}
    (h : assertAcyclic nodes = .ok u) :
    ∀ id ∈ nodeIds nodes, Acc (fun dependency id => dependency ∈ dependenciesOf nodes id) id := by
  rw [assertAcyclic] at h
  split at h
  next after hafter => exact visitAll_acc _ hafter
  next => cases h
  next => cases h

theorem assertSchema_concurrency {definition : WorkflowDefinition}
    (h : assertSchema definition = .ok u) : 1 ≤ definition.maxConcurrency.getD 4 := by
  unfold assertSchema at h
  split at h
  next hcheck =>
    cases hm : definition.maxConcurrency with
    | none => decide
    | some n =>
      simp only [checkDefinition, hm, optional, within, Bool.and_eq_true, decide_eq_true_eq]
        at hcheck
      exact hcheck.1.1.2.1
  next => cases h

/-- **Every accepted definition is valid.** -/
theorem validateWorkflowDefinition_valid {definition : WorkflowDefinition}
    {profileExists : String → Bool} {options : WorkflowProfileResolutionOptions}
    {result : NormalizedWorkflowDefinition}
    (h : validateWorkflowDefinition definition profileExists options = .ok result) :
    ValidDefinition result := by
  unfold validateWorkflowDefinition at h
  obtain ⟨_, hschema, h⟩ := bind_eq_ok.1 h
  obtain ⟨ids, hids, h⟩ := bind_eq_ok.1 h
  obtain ⟨nodes, hnodes, h⟩ := bind_eq_ok.1 h
  obtain ⟨_, hacyclic, h⟩ := bind_eq_ok.1 h
  cases h
  obtain ⟨hnd, rfl⟩ := assertUniqueIds_nodup hids
  have hall := mapM_eq_ok hnodes
  have hchecked : ∀ node ∈ nodes,
      (∀ dependency ∈ node.dependsOn, dependency ∈ definition.nodes.map (·.id)) ∧
      ∀ text, node.condition = some text → text ≠ "" →
        validateWorkflowCondition text node.dependsOn = .ok () := by
    intro node hnode
    obtain ⟨source, -, hsource⟩ := exists_of_forall₂_right hall hnode
    exact (normalizeNode_checked hsource).2
  have heq : nodeIds nodes = definition.nodes.map (·.id) :=
    map_eq_of_forall₂ (hall.imp fun _ _ hsource => (normalizeNode_checked hsource).1.symm)
  exact ⟨heq ▸ hnd, fun node hnode => heq ▸ (hchecked node hnode).1, assertAcyclic_acc hacyclic,
    assertSchema_concurrency hschema, fun node hnode => (hchecked node hnode).2⟩

variable {task : Option String}

/-- Only the task of a node changes when the task of the run is put in. -/
theorem materializeNode_spec {definitionId : String}
    {node result : NormalizedWorkflowNodeDefinition}
    (h : materializeNode definitionId task node = .ok result) :
    ∃ text, result = { node with task := text } := by
  unfold materializeNode at h
  split at h
  next => cases h; exact ⟨node.task, rfl⟩
  next =>
    simp only at h
    split at h
    next => cases h
    next => cases h; exact ⟨_, rfl⟩

theorem materialized_deps {definitionId : String}
    {nodes results : List NormalizedWorkflowNodeDefinition}
    (h : List.Forall₂ (fun node result => materializeNode definitionId task node = .ok result) nodes
      results) :
    dependenciesOf results = dependenciesOf nodes := by
  funext id
  unfold dependenciesOf
  induction h with
  | nil => rfl
  | @cons a b _ _ hr _ ih =>
    obtain ⟨text, rfl⟩ := materializeNode_spec hr
    simp only [List.find?_cons]
    cases a.id == id with
    | true => rfl
    | false => exact ih

/-- Putting in the task of the run keeps a definition valid. -/
theorem materializeWorkflowTask_valid {definition result : NormalizedWorkflowDefinition}
    (hvalid : ValidDefinition definition)
    (h : materializeWorkflowTask definition task = .ok result) : ValidDefinition result := by
  unfold materializeWorkflowTask at h
  obtain ⟨nodes, hnodes, h⟩ := bind_eq_ok.1 h
  cases h
  have hall := mapM_eq_ok hnodes
  have hids : nodeIds nodes = nodeIds definition.nodes := by
    refine map_eq_of_forall₂ (hall.imp ?_)
    intro node result hr
    obtain ⟨text, rfl⟩ := materializeNode_spec hr
    rfl
  have hsource : ∀ node ∈ nodes, ∃ source ∈ definition.nodes,
      node.dependsOn = source.dependsOn ∧ node.condition = source.condition := by
    intro node hnode
    obtain ⟨source, hmem, hr⟩ := exists_of_forall₂_right hall hnode
    obtain ⟨text, rfl⟩ := materializeNode_spec hr
    exact ⟨source, hmem, rfl, rfl⟩
  have hdeps : dependenciesOf nodes = dependenciesOf definition.nodes := materialized_deps hall
  refine ⟨hids ▸ hvalid.nodup, ?_, ?_, hvalid.concurrency, ?_⟩
  · intro node hnode dependency hdep
    obtain ⟨source, hmem, hd, -⟩ := hsource node hnode
    show dependency ∈ nodeIds nodes
    rw [hids]
    exact hvalid.known source hmem dependency (hd ▸ hdep)
  · show ∀ id ∈ nodeIds nodes, Acc (fun dependency id => dependency ∈ dependenciesOf nodes id) id
    rw [hids, hdeps]
    exact hvalid.acyclic
  · intro node hnode text hc hne
    obtain ⟨source, hmem, hd, hcond⟩ := hsource node hnode
    rw [hd]
    exact hvalid.conditions source hmem text (hcond ▸ hc) hne

end BeauPi.Workflow
