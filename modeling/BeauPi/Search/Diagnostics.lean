/-!
# Diagnostics of the web tools

* `SearchDiagnostic` — what a failed search or fetch reports.
* `Thrown`, `classifyNetworkError` — the diagnostic of an error.
-/

namespace BeauPi.Search

/-! ## Diagnostics -/

/-- `SearchDiagnosticCode` -/
inductive SearchDiagnosticCode
  | notConfigured
  | unsupportedProvider
  | authentication
  | rateLimited
  | dns
  | connection
  | tls
  | http
  | invalidResponse
  | timeout
  | cancelled
  | invalidUrl
  | blockedTarget
  | unsupportedContentType
  | bodyTooLarge
  | redirectLimit
  | cacheCorrupt
  | cacheReadFailed
  | cacheWriteFailed
  | budgetExhausted
  deriving DecidableEq, Repr

/-- `SearchDiagnosticSeverity` -/
inductive SearchDiagnosticSeverity
  | info
  | warning
  | error
  deriving DecidableEq, Repr

/-- `SearchDiagnostic` -/
structure SearchDiagnostic where
  code : SearchDiagnosticCode
  severity : SearchDiagnosticSeverity
  message : String
  suggestion : Option String := none
  statusCode : Option Nat := none
  retryAfterMs : Option Nat := none
  deriving DecidableEq, Repr

/-! ## Errors -/

/-- What is thrown: a `SearchRuntimeError`, or another error with the diagnostic that its error
codes lead to. -/
inductive Thrown
  | searchRuntimeError (diagnostic : SearchDiagnostic)
  | other (byCode : SearchDiagnostic)
  deriving DecidableEq, Repr

/-- `classifyNetworkError` -/
def classifyNetworkError (error : Thrown) (cancelled timedOut : Bool) : SearchDiagnostic :=
  match error with
  | .searchRuntimeError diagnostic => diagnostic
  | .other byCode =>
    if cancelled then
      { code := .cancelled, severity := .error, message := "The network operation was cancelled." }
    else if timedOut then
      { code := .timeout
        severity := .error
        message := "The network operation exceeded its configured timeout."
        suggestion := some ("Increase search.budget.timeoutMs only when the target is expected " ++
          "to respond slowly.") }
    else byCode

end BeauPi.Search
