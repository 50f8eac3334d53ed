import BeauPi.Js.JsonParse
import BeauPi.Workflow.Types
import Mathlib.Algebra.GroupWithZero.Nat

/-!
# Conditions on dependencies

The condition language of `core/workflow/condition.ts`: the three named
conditions, and `||` of `&&` of comparisons between a field of a dependency and a
JSON scalar.  A condition is checked against the dependencies of its node when
the workflow is validated (`validateWorkflowCondition`) and parsed again each time
it is evaluated (`evaluateWorkflowCondition`); the two parse the same text, so a
condition that was accepted never throws when it is evaluated
(`evaluateWorkflowCondition_ok`).
-/

namespace BeauPi.Workflow

/-- Where a clause reads. -/
inductive ConditionSource
  | status
  | output
  deriving DecidableEq, Repr

/-- `==` or `!=`. -/
inductive ConditionOperator
  | eq
  | ne
  deriving DecidableEq, Repr

/-- The scalar a clause compares with. -/
inductive ConditionValue
  | str (s : String)
  | num (n : ℚ)
  | bool (b : Bool)
  | null
  deriving DecidableEq, Repr

/-- One comparison. -/
structure WorkflowConditionClause where
  nodeId : String
  source : ConditionSource
  path : List String
  operator : ConditionOperator
  value : ConditionValue
  deriving DecidableEq, Repr

/-- A parsed condition. -/
inductive WorkflowCondition
  | always
  | allSucceeded
  | anyFailed
  | expression (groups : List (List WorkflowConditionClause))
  deriving DecidableEq, Repr

def maxConditionLength : Nat := 512
def maxConditionClauses : Nat := 16

/-! ## Parsing -/

/-- Cut a text at every operator (a doubled character) outside string literals.
`current` is the piece being read, in reverse. -/
def splitOutsideStringsFrom (operator : Char) (quote escaped : Bool) (current : List Char) :
    List Char → List (List Char) × Bool
  | [] => ([current.reverse], quote)
  | c :: rest =>
    if escaped then splitOutsideStringsFrom operator quote false (c :: current) rest
    else if c = '\\' ∧ quote then splitOutsideStringsFrom operator quote true (c :: current) rest
    else if c = '"' then splitOutsideStringsFrom operator (!quote) false (c :: current) rest
    else
      match rest with
      | [] => splitOutsideStringsFrom operator quote false (c :: current) []
      | d :: rest' =>
        if !quote ∧ c = operator ∧ d = operator then
          let (parts, open?) := splitOutsideStringsFrom operator quote false [] rest'
          (current.reverse :: parts, open?)
        else splitOutsideStringsFrom operator quote false (c :: current) (d :: rest')

/-- The trimmed pieces of a text between operators. -/
def splitOutsideStrings (input : List Char) (operator : Char) : Except String (List (List Char)) :=
  let (parts, open?) := splitOutsideStringsFrom operator false false [] input
  let parts := parts.map Js.trimChars
  if open? then .error "Workflow condition contains an unterminated string literal"
  else if parts.any List.isEmpty then .error "Workflow condition contains an empty expression"
  else .ok parts

/-- A JSON scalar. -/
def parseLiteral (value : List Char) : Except String ConditionValue :=
  match Json.parse (String.ofList value) with
  | none =>
    .error "Workflow condition values must be JSON string, number, boolean, or null literals"
  | some .null => .ok .null
  | some (.str s) => .ok (.str s)
  | some (.num n) => .ok (.num n)
  | some (.bool b) => .ok (.bool b)
  | some _ => .error "Workflow condition values must be scalar JSON literals"

/-- The operator at the front of a text, and what follows it. -/
def operatorAt? : List Char → Option (ConditionOperator × List Char)
  | '=' :: '=' :: rest => some (.eq, rest)
  | '!' :: '=' :: rest => some (.ne, rest)
  | _ => none

/-- `/^(.+?)\s*(==|!=)\s*(.+)$/`: the shortest reference that is followed by an
operator and a value on the same line.  `reference` is in reverse. -/
def matchClause (reference : List Char) :
    List Char → Option (List Char × ConditionOperator × List Char)
  | [] => none
  | c :: rest =>
    if Js.isLineTerminator c then none
    else
      let found := (operatorAt? (rest.dropWhile Js.isSpace)).bind fun (op, value) =>
        let value := value.dropWhile Js.isSpace
        if value.isEmpty ∨ value.any Js.isLineTerminator then none
        else some ((c :: reference).reverse, op, value)
      match found with
      | some m => some m
      | none => matchClause (c :: reference) rest

/-- `[A-Za-z][A-Za-z0-9_-]{0,63}`. -/
def isReferenceName (s : String) : Bool := Js.isIdentifier s && s.length ≤ 64

/-- The reference pattern `deps.<id>.status` or `deps.<id>.output.<path>`. -/
def parseReference (text : List Char) : Option (String × ConditionSource × List String) :=
  match (text.splitOn '.').map String.ofList with
  | ["deps", nodeId, "status"] => if isReferenceName nodeId then some (nodeId, .status, []) else none
  | "deps" :: nodeId :: "output" :: path =>
    if isReferenceName nodeId ∧ path ≠ [] ∧ path.all isReferenceName then
      some (nodeId, .output, path)
    else none
  | _ => none

/-- One clause. -/
def parseClause (input : List Char) : Except String WorkflowConditionClause :=
  match matchClause [] input with
  | none =>
    .error ("Invalid Workflow condition clause " ++ Json.quote (String.ofList input))
  | some (reference, operator, value) =>
    match parseReference (Js.trimChars reference) with
    | none =>
      .error ("Invalid Workflow condition reference " ++
        Json.quote (String.ofList (Js.trimChars reference)))
    | some (nodeId, source, path) =>
      match parseLiteral (Js.trimChars value) with
      | .error e => .error e
      | .ok value => .ok { nodeId, source, path, operator, value }

/-- Parse a condition. -/
def parseWorkflowCondition (input : String) : Except String WorkflowCondition :=
  let normalized := Js.trim input
  if normalized.isEmpty then .error "Workflow condition must not be empty"
  else if maxConditionLength < Js.utf16Length normalized then
    .error ("Workflow condition exceeds " ++ toString maxConditionLength ++ " characters")
  else if normalized = "always" then .ok .always
  else if normalized = "all_succeeded" then .ok .allSucceeded
  else if normalized = "any_failed" then .ok .anyFailed
  else do
    let parts ← splitOutsideStrings normalized.toList '|'
    let groups ← parts.mapM fun part => do
      let clauses ← splitOutsideStrings part '&'
      clauses.mapM parseClause
    if maxConditionClauses < (groups.map List.length).sum then
      .error ("Workflow condition exceeds " ++ toString maxConditionClauses ++ " clauses")
    else .ok (.expression groups)

/-! ## Validation -/

def workflowNodeStatuses : List String :=
  ["pending", "running", "completed", "failed", "skipped", "cancelled", "timed_out", "lost"]

/-- Check one clause against the dependencies of its node. -/
def validateClause (dependencies : List String) (clause : WorkflowConditionClause) :
    Except String Unit :=
  if clause.nodeId ∉ dependencies then
    .error ("Workflow condition references " ++ Json.quote clause.nodeId ++
      ", which is not listed in dependsOn")
  else
    match clause.source, clause.value with
    | .output, _ => .ok ()
    | .status, .str s =>
      if s ∈ workflowNodeStatuses then .ok ()
      else .error ("Unknown Workflow node status " ++ Json.quote s)
    | .status, _ =>
      .error "Workflow status conditions must compare against a JSON string literal"

/-- Check a condition against the dependencies of its node. -/
def validateWorkflowCondition (condition : String) (dependencies : List String) :
    Except String Unit :=
  match parseWorkflowCondition condition with
  | .error e => .error e
  | .ok (.expression groups) => groups.flatten.forM (validateClause dependencies)
  | .ok _ => .ok ()

/-! ## Evaluation -/

/-- Follow a path of property names; `none` is `undefined`. -/
def outputValueFrom : Option Json → List String → Option Json
  | value, [] => value
  | some (.obj fields), segment :: path => outputValueFrom (Json.field? segment fields) path
  | _, _ :: _ => none

/-- The part of a dependency's output that a clause reads. -/
def outputValue (node : WorkflowNodeSnapshot) (path : List String) : Option Json :=
  outputValueFrom (node.output.map AgentTaskResult.toJson) path

/-- `===` between a value and the scalar of a clause. -/
def strictEquals : Option Json → ConditionValue → Bool
  | some (.str a), .str b => a == b
  | some (.num a), .num b => a == b
  | some (.bool a), .bool b => a == b
  | some .null, .null => true
  | _, _ => false

/-- Evaluate one clause on the dependencies of a node. -/
def evaluateClause (clause : WorkflowConditionClause) (dependencies : List WorkflowNodeSnapshot) :
    Bool :=
  match dependencies.find? (fun node => node.id == clause.nodeId) with
  | none => false
  | some node =>
    let actual := match clause.source with
      | .status => some (.str node.status.text)
      | .output => outputValue node clause.path
    let equal := strictEquals actual clause.value
    match clause.operator with
    | .eq => equal
    | .ne => !equal

/-- Evaluate a parsed condition. -/
def evaluateParsed : WorkflowCondition → List WorkflowNodeSnapshot → Bool
  | .always, _ => true
  | .allSucceeded, dependencies =>
    dependencies.all fun node => decide (node.status = .completed)
  | .anyFailed, dependencies => dependencies.any fun node => nodeFailureStatus node.status
  | .expression groups, dependencies =>
    groups.any fun group => group.all fun clause => evaluateClause clause dependencies

/-- Evaluate the condition of a node; `.error` where the source throws. -/
def evaluateWorkflowCondition (condition : Option String)
    (dependencies : List WorkflowNodeSnapshot) : Except String Bool :=
  match condition with
  | none => .ok true
  | some text =>
    if text.isEmpty then .ok true
    else (parseWorkflowCondition text).map fun parsed => evaluateParsed parsed dependencies

/-- An accepted condition is evaluated without an error, whatever the state of the
dependencies. -/
theorem evaluateWorkflowCondition_ok {condition : Option String} {ids : List String}
    (h : ∀ text, condition = some text → text ≠ "" →
      validateWorkflowCondition text ids = .ok ()) (dependencies : List WorkflowNodeSnapshot) :
    ∃ b, evaluateWorkflowCondition condition dependencies = .ok b := by
  cases condition with
  | none => exact ⟨true, rfl⟩
  | some text =>
    by_cases he : text = ""
    · exact ⟨true, by simp [evaluateWorkflowCondition, he]⟩
    · have hv := h text rfl he
      rw [validateWorkflowCondition] at hv
      cases hp : parseWorkflowCondition text with
      | error e => rw [hp] at hv; cases hv
      | ok parsed =>
        exact ⟨evaluateParsed parsed dependencies, by
          simp [evaluateWorkflowCondition, he, hp, Except.map]⟩

end BeauPi.Workflow
