import Mathlib.Data.Rat.Defs
import BeauPi.Js.Text

/-!
# Privileged commands: the data

The records of `core/privilege/types.ts`, as far as `PrivilegeRuntime` decides anything by
them: requests, what users and terminals answer, results, and audit records.  The output of
a command, where it is logged and how it is reviewed are left out.
-/

namespace BeauPi.Privilege

/-- `PrivilegeExecutionV1`. -/
inductive PrivilegeExecution
  | localHost
  | terminal
  deriving DecidableEq, Repr

/-- `PrivilegeRouteV1`. -/
inductive PrivilegeRoute
  | explicitTool
  | localBash
  | terminalBash
  deriving DecidableEq, Repr

/-- `PrivilegeTargetV1`. -/
structure PrivilegeTarget where
  execution : PrivilegeExecution
  targetId : Option String
  terminalId : Option String
  deriving DecidableEq, Repr

/-- `PrivilegeExecuteInputV1`. -/
structure PrivilegeExecuteInput where
  toolCallId : String
  sourceTool : String
  route : PrivilegeRoute
  command : String
  target : PrivilegeTarget
  deriving DecidableEq, Repr

/-- `PrivilegeRequestStateV1`. -/
inductive PrivilegeRequestState
  | waitingForUser
  | starting
  | running
  | completed
  | failed
  | cancelled
  | blocked
  | interactionRequired
  deriving DecidableEq, Repr

/-- `PrivilegeResultStatusV1`, of a result that is returned. -/
inductive PrivilegeResultStatus
  | succeeded
  | failed
  | cancelled
  | blocked
  | interactionRequired
  | interactionError
  deriving DecidableEq, Repr

/-- `PrivilegeDiagnosticCodeV1`. -/
inductive PrivilegeDiagnosticCode
  | interactionRequired
  | interactionError
  | invalidCommand
  | unsupportedPrivilege
  | sudoStdinForbidden
  | redundantPrivilege
  | terminalRequired
  | terminalBusy
  | terminalLost
  | tmuxUnavailable
  | auditFailed
  | cancelled
  | timeout
  | commandFailed
  | terminalRecoveryFailed
  deriving DecidableEq, Repr

/-- `PrivilegeDiagnosticV1`. -/
structure PrivilegeDiagnostic where
  code : PrivilegeDiagnosticCode
  message : String
  deriving DecidableEq, Repr

/-- `PrivilegeCommandResultV1`. -/
structure PrivilegeCommandResult where
  exitCode : Option ℚ
  startedAt : ℚ
  completedAt : ℚ
  cancelled : Bool
  timedOut : Bool
  diagnostic : Option PrivilegeDiagnostic
  deriving DecidableEq, Repr

/-- `PrivilegeInteractionResponse`. -/
inductive PrivilegeInteractionResponse
  | completed
  | cancelled
  | rejected (diagnostic : Option String)
  | error (diagnostic : String)
  deriving DecidableEq, Repr

/-- `PrivilegeAuditEventTypeV1`. -/
inductive PrivilegeAuditEventType
  | requested
  | confirmed
  | started
  | completed
  | failed
  | cancelled
  | blocked
  deriving DecidableEq, Repr

/-- What `PrivilegeAuditEventV1` says beyond the request it is about. -/
structure PrivilegeAuditEvent where
  event : PrivilegeAuditEventType
  timestamp : ℚ
  confirmed : Option Bool
  exitCode : Option ℚ
  durationMs : Option ℚ
  diagnosticCode : Option PrivilegeDiagnosticCode
  deriving DecidableEq, Repr

/-- `PrivilegeToolDetailsV1`.  `request` stands for the ids drawn for the request. -/
structure PrivilegeToolDetails where
  request : Nat
  toolCallId : String
  status : PrivilegeResultStatus
  confirmedAt : Option ℚ
  startedAt : Option ℚ
  completedAt : ℚ
  exitCode : Option ℚ
  durationMs : ℚ
  diagnostic : Option PrivilegeDiagnostic
  deriving DecidableEq, Repr

/-- The kinds of `ShellPrivilegeInspection`. -/
inductive ShellPrivilegeKind
  | none
  | sudo
  | unsupported
  | opaqueCommand
  deriving DecidableEq, Repr

/-- `ShellPrivilegeInspection`, as far as a request is checked with it. -/
structure ShellPrivilegeInspection where
  kind : ShellPrivilegeKind
  unsupported : List String
  sudoStdin : Bool
  isOpaque : Bool
  deriving DecidableEq, Repr

end BeauPi.Privilege
