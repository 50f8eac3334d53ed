import BeauPi.Js.Json
import BeauPi.Js.Text

/-!
# The remote agent protocol: limits and errors

The limits the frames of both sides keep and what an error of the protocol carries.

* `maxFrameBytes`, `maxHeaderBytes` — the limits.
* `AgentDiagnostic` — what an error carries, with the state of the command it is about.
-/

namespace BeauPi.RemoteAgent

/-! ## Limits -/

/-- `REMOTE_AGENT_MAX_FRAME_BYTES` -/
def maxFrameBytes : Nat := 1024 * 1024

/-- `REMOTE_AGENT_MAX_HEADER_BYTES` -/
def maxHeaderBytes : Nat := 8 * 1024

/-! ## Diagnostics -/

/-- `RemoteExecutionState` -/
inductive ExecutionState
  | notStarted
  | running
  | completed
  | unknown
  deriving DecidableEq, Repr

/-- `AgentDiagnosticV1` -/
structure AgentDiagnostic where
  code : String
  message : String
  retryable : Bool
  executionState : Option ExecutionState
  requestId : Option String
  operationId : Option String
  deriving DecidableEq, Repr

/-- `replace(/[\r\n\t]+/g, " ")` on characters; `inBreak` says that the last character read
was one of the three. -/
def flattenBreaks (inBreak : Bool) : List Char → List Char
  | [] => []
  | c :: cs =>
    if c = '\r' ∨ c = '\n' ∨ c = '\t' then
      if inBreak then flattenBreaks true cs else ' ' :: flattenBreaks true cs
    else c :: flattenBreaks false cs

/-- The diagnostic of `new AgentProtocolError(code, message, options)`. -/
def AgentProtocolError (code message : String) (retryable : Bool)
    (requestId operationId : Option String) : AgentDiagnostic where
  code := code
  message := Js.sliceTo 500 (Js.trim (String.ofList (flattenBreaks false message.toList)))
  retryable := retryable
  executionState := none
  requestId := requestId
  operationId := operationId

/-- The outcome of a check: a value, or the diagnostic of the `AgentProtocolError` it throws. -/
abbrev Checked (α : Type) := Except AgentDiagnostic α

/-- `throw new AgentProtocolError("agent_protocol", message)` -/
def protocolError (message : String) : AgentDiagnostic :=
  AgentProtocolError "agent_protocol" message false none none

end BeauPi.RemoteAgent
