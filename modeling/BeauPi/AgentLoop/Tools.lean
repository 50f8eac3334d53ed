import BeauPi.Sessions.Messages

/-!
# Tool calls of the agent loop

* `createErrorToolResult` — the result of a failed call.
* `prepareToolCall` — a call is executed or answered at once.
* `executedOutcome`, `finalizeExecutedToolCall` — the result of a tool, and what a hook makes of it.
* `createToolResultMessage` — the message for the model.
-/

namespace BeauPi.AgentLoop

open Llm Sessions

/-! ## Types -/

/-- `AgentToolResult`; an untyped tool may leave out the content. -/
structure ToolResult where
  content : Option (List ContentBlock)
  details : Option Json
  usage : Option Usage
  addedToolNames : Option (List String)
  terminate : Option Bool
  error : Option ToolResultError
  resultMeta : Option ToolResultMeta
  deriving DecidableEq, Repr

/-- What the loop reads of an `AgentTool`. -/
structure Tool where
  name : String
  /-- `executionMode === "sequential"` -/
  sequential : Bool
  deriving DecidableEq, Repr

/-- What a tool or a hook throws: a `ToolError`, or anything else with its message. -/
inductive Thrown
  | toolError (type message : String) (recoverable : Bool) (errorMeta : Option ToolResultMeta)
  | other (message : String)
  deriving DecidableEq, Repr

/-- `BeforeToolCallResult` -/
structure BeforeToolCallResult where
  block : Bool
  reason : Option String
  deriving DecidableEq, Repr

/-- `AfterToolCallResult` -/
structure AfterToolCallResult where
  content : Option (List ContentBlock)
  details : Option Json
  isError : Option Bool
  usage : Option Usage
  terminate : Option Bool
  deriving DecidableEq, Repr

/-- The answer of a hook that may be missing and may throw or return nothing. -/
abbrev HookAnswer (α : Type) := Option (Except Thrown (Option α))

/-- `ExecutedToolCallOutcome` -/
structure Executed where
  result : ToolResult
  isError : Bool
  deriving DecidableEq, Repr

/-- `FinalizedToolCallOutcome` -/
structure Finalized where
  toolCall : ToolCall
  result : ToolResult
  isError : Bool
  deriving DecidableEq, Repr

/-! ## Error results -/

/-- A pattern of a regular expression with the flag `i`, found anywhere in a text. -/
def matches? (text pattern : String) : Bool :=
  Js.includes (String.ofList (text.toList.map Char.toLower)) pattern

/-- `-?\d+` at the start of a text. -/
def leadingInt (cs : List Char) : Option Int :=
  let (negative, digits) := match cs with
    | '-' :: rest => (true, rest.takeWhile Js.isDigit)
    | rest => (false, rest.takeWhile Js.isDigit)
  if digits = [] then none
  else
    let value : Nat := digits.foldl (fun n d => 10 * n + (d.toNat - '0'.toNat)) 0
    some (if negative then -value else value)

/-- The number of the first match of `/exited with code (-?\d+)/i`. -/
def exitCodeOf (message : String) : Option Int :=
  let pattern := "exited with code ".toList
  message.toList.tails.findSome? fun rest =>
    if Js.startsWith pattern ((rest.take pattern.length).map Char.toLower) then
      leadingInt (rest.drop pattern.length)
    else none

/-- The type, recoverability and meta of an error. -/
def classify : Thrown → String × Bool × Option ToolResultMeta
  | .toolError type _ recoverable errorMeta => (type, recoverable, errorMeta)
  | .other message =>
    if matches? message "exited with code" then
      ("command_failed", true, (exitCodeOf message).map fun code => ⟨none, none, none, some code⟩)
    else if matches? message "timeout" || matches? message "timed out" then ("timeout", true, none)
    else if matches? message "permission" || matches? message "denied" ||
        matches? message "eacces" then ("permission_denied", false, none)
    else if matches? message "not found" || matches? message "enoent" then
      ("not_found", false, none)
    else if matches? message "aborted" then ("aborted", false, none)
    else ("tool_error", false, none)

/-- The message of what is thrown. -/
def Thrown.message : Thrown → String
  | .toolError _ message _ _ => message
  | .other message => message

/-- `createErrorToolResult` -/
def createErrorToolResult (error : Thrown) : ToolResult :=
  let (type, recoverable, errorMeta) := classify error
  let exitCode := match errorMeta.bind (·.exitCode) with
    | some code => " exitCode=" ++ toString code
    | none => ""
  let text := "[tool-error type=" ++ type ++ " recoverable=" ++ toString recoverable ++ exitCode ++
    "] " ++ error.message
  { content := some [.text text]
    details := some (.obj [])
    usage := none
    addedToolNames := none
    terminate := none
    error := some ⟨type, error.message, recoverable⟩
    resultMeta := errorMeta }

/-! ## The life of a call -/

-- Of what is caught below only the message is passed on, so that a `ToolError` loses its type.

/-- `prepareToolCall`: `none` for a call that is to be executed, or its result.  `args` is what
`prepareArguments` and `validateToolArguments` make of the arguments, and `aborted` is the signal
after the hook has answered. -/
def prepareToolCall (tools : List Tool) (toolCall : ToolCall) (args : Except Thrown Unit)
    (before : HookAnswer BeforeToolCallResult) (aborted : Bool) : Option ToolResult :=
  if tools.any (·.name = toolCall.name) then
    match args with
    | .error e => some (createErrorToolResult (.other e.message))
    | .ok () =>
      match before with
      | some (.error e) => some (createErrorToolResult (.other e.message))
      | some (.ok answer) =>
        if aborted then some (createErrorToolResult (.other "Operation aborted"))
        else match answer with
          | some ⟨true, reason⟩ =>
            let reason := reason.getD ""
            some (createErrorToolResult
              (.other (if reason = "" then "Tool execution was blocked" else reason)))
          | _ => none
      | none =>
        if aborted then some (createErrorToolResult (.other "Operation aborted")) else none
  else some (createErrorToolResult (.other ("Tool " ++ toolCall.name ++ " not found")))

/-- `withDuration` -/
def withDuration (result : ToolResult) (durationMs : ℚ) : ToolResult :=
  let resultMeta := result.resultMeta.getD ⟨none, none, none, none⟩
  { result with resultMeta := some { resultMeta with durationMs := some durationMs } }

/-- The result of `executePreparedToolCall`. -/
def executedOutcome (returned : Except Thrown ToolResult) (durationMs : ℚ) : Executed :=
  match returned with
  | .ok result => ⟨withDuration result durationMs, false⟩
  | .error e => ⟨withDuration (createErrorToolResult (.other e.message)) durationMs, true⟩

/-- `finalizeExecutedToolCall` -/
def finalizeExecutedToolCall (toolCall : ToolCall) (executed : Executed)
    (after : HookAnswer AfterToolCallResult) : Finalized :=
  match after with
  | some (.error e) => ⟨toolCall, createErrorToolResult (.other e.message), true⟩
  | some (.ok (some answer)) =>
    { toolCall := toolCall
      result := { executed.result with
        content := answer.content.or executed.result.content
        details := answer.details.or executed.result.details
        usage := answer.usage.or executed.result.usage
        terminate := answer.terminate.or executed.result.terminate }
      isError := answer.isError.getD executed.isError }
  | _ => ⟨toolCall, executed.result, executed.isError⟩

/-- The outcome of a call of a message that was cut off by the token limit. -/
def truncatedOutcome (toolCall : ToolCall) : Finalized where
  toolCall := toolCall
  result := createErrorToolResult (.other ("Tool call \"" ++ toolCall.name ++
    "\" was not executed: the response hit the output token limit, so its arguments may be " ++
    "truncated. Re-issue the tool call with complete arguments."))
  isError := true

/-- `createToolResultMessage` -/
def createToolResultMessage (finalized : Finalized) (now : ℚ) : ToolResultMessage where
  toolCallId := finalized.toolCall.id
  toolName := finalized.toolCall.name
  content := some (finalized.result.content.getD [])
  details := finalized.result.details
  usage := finalized.result.usage
  addedToolNames := finalized.result.addedToolNames.filter (· ≠ [])
  isError := finalized.isError
  error := finalized.result.error
  resultMeta := finalized.result.resultMeta
  timestamp := now

/-- `shouldTerminateToolBatch` -/
def shouldTerminateToolBatch (finalizedCalls : List Finalized) : Bool :=
  !finalizedCalls.isEmpty && finalizedCalls.all fun f => f.result.terminate = some true

end BeauPi.AgentLoop
