import BeauPi.Privilege.Types
import BeauPi.Machine.OrderedMap
import BeauPi.Js.Json

/-!
# Privileged commands: the runtime

`PrivilegeRuntime` of `core/privilege/runtime.ts`.  A request is an asynchronous function that
suspends at every audit write and whenever it waits for the user or the terminal; the handler
of the user holds a control object whose methods suspend too and outlive the request.

* `PrivilegeRequest` — a request: its state, where its main flow is suspended (`Stage`), and
  which methods of its control object are suspended (`ControlStep`).
* `PrivilegeRequest.advance` — the main flow of `executeRequest` up to its next suspension.
* `PrivilegeRequest.control`, `PrivilegeRequest.answer` — the methods of the control object.
* `PrivilegeSystem`, `step` — the runtime with its calls of `execute`.
-/

namespace BeauPi.Privilege

open Machine

/-- What the runtime takes from outside: the inspection of shell commands, which login
identities are root, and the normalization NFKC of texts. -/
structure Host where
  inspectShellPrivilege : String → ShellPrivilegeInspection
  isRootTarget : Option String → Bool
  normalize : String → String

/-- `diagnostic`. -/
def diagnostic (host : Host) (code : PrivilegeDiagnosticCode) (message : String) :
    PrivilegeDiagnostic :=
  ⟨code, String.ofList ((host.normalize message).toList.take 2000)⟩

/-- `hasUnsafeTerminalControl`. -/
def hasUnsafeTerminalControl (command : String) : Bool :=
  command.toList.any fun c =>
    c.toNat ≤ 0x08 || (0x0b ≤ c.toNat && c.toNat ≤ 0x1f) || (0x7f ≤ c.toNat && c.toNat ≤ 0x9f)

/-- The check of a request. -/
def validationIssue (host : Host) (input : PrivilegeExecuteInput) : Option PrivilegeDiagnostic :=
  let inspection := host.inspectShellPrivilege input.command
  if (Js.trim input.command).isEmpty || hasUnsafeTerminalControl input.command ||
      inspection.kind == .none || inspection.isOpaque then
    some (diagnostic host .invalidCommand
      "privileged_exec requires a deterministic, non-empty sudo command")
  else if inspection.kind = .unsupported then
    some (diagnostic host .unsupportedPrivilege
      ("Unsupported privilege-changing executable: " ++
        ", ".intercalate inspection.unsupported))
  else if inspection.sudoStdin then
    some (diagnostic host .sudoStdinForbidden
      "sudo -S/--stdin is forbidden; sudo must read from its controlling TTY")
  else if input.target.execution = .terminal ∧ host.isRootTarget input.target.targetId = true then
    some (diagnostic host .redundantPrivilege
      "The configured SSH login identity is root; remove sudo and use terminal_bash")
  else none

/-! ## Requests -/

/-- How a request ends: with a result, or with an error that is thrown. -/
inductive Outcome
  | returned (result : PrivilegeToolDetails)
  | thrown
  deriving DecidableEq, Repr

/-- The promise of `session.wait`. -/
inductive WaitPromise
  | pending
  | fulfilled (result : PrivilegeCommandResult)
  | rejected
  deriving DecidableEq, Repr

/-- Where `executeRequest` is suspended. -/
inductive Stage
  /-- in the audit write "requested" -/
  | requesting
  /-- in a last audit write whose failure is ignored -/
  | refusing (event : PrivilegeAuditEventType) (status : PrivilegeResultStatus)
      (issue : PrivilegeDiagnostic) (result : Option PrivilegeCommandResult)
  /-- in the race of the handler and the abort; what won it -/
  | racing (response : Option PrivilegeInteractionResponse)
  /-- in `session.cancel` -/
  | cancelling
  /-- in the promise of `session.wait`, after a cancellation -/
  | collecting
  /-- in the audit write of a rejection -/
  | rejecting (issue : PrivilegeDiagnostic)
  /-- in the promise of `session.wait` -/
  | waiting
  /-- in the audit write of the result -/
  | concluding (result : PrivilegeCommandResult)
  /-- in the review of the output -/
  | reviewing (result : PrivilegeCommandResult)
  /-- in `session.dispose`, in the `finally` block -/
  | releasing (outcome : Outcome)
  | done (outcome : Outcome)
  deriving DecidableEq, Repr

/-- A method of the control object that is suspended. -/
inductive ControlStep
  /-- `start` in `terminalAdapter.create` -/
  | creating
  /-- `start` in `session.start` -/
  | staging
  /-- `execute` in the audit write "confirmed" -/
  | confirming
  /-- `execute` in `session.execute` -/
  | executing
  /-- `execute` in the audit write "started" -/
  | recording
  deriving DecidableEq, Repr

/-- `ActivePrivilegeRequest`, with the data of its `executeRequest`.  `sessions` has all
sessions that were created for the request, with whether `dispose` was called; `appended`,
`written` and `executions` are histories: the audit records given to the writer, those that
were written, and the number of calls of `session.execute`. -/
structure PrivilegeRequest where
  id : Nat
  input : PrivilegeExecuteInput
  validation : Option PrivilegeDiagnostic
  state : PrivilegeRequestState
  aborted : Bool
  session : Option Nat
  result : Option PrivilegeCommandResult
  confirmedAt : Option ℚ
  startedAt : Option ℚ
  waitPromise : Option WaitPromise
  stage : Stage
  /-- the handler has the control object -/
  offered : Bool
  controls : List ControlStep
  sessions : List Bool
  appended : List PrivilegeAuditEvent
  written : List PrivilegeAuditEventType
  executions : Nat
  deriving DecidableEq, Repr

namespace PrivilegeRequest

variable (host : Host) (now : ℚ)

/-- `finish`. -/
def finish (q : PrivilegeRequest) (status : PrivilegeResultStatus)
    (issue : Option PrivilegeDiagnostic) (commandResult : Option PrivilegeCommandResult) :
    PrivilegeToolDetails where
  request := q.id
  toolCallId := q.input.toolCallId
  status := status
  confirmedAt := q.confirmedAt
  startedAt := q.startedAt
  completedAt := now
  exitCode := commandResult.bind (·.exitCode)
  durationMs := match commandResult with
    | some result => max 0 (result.completedAt - result.startedAt)
    | none => (q.startedAt.map fun startedAt => max 0 (now - startedAt)).getD 0
  diagnostic := issue.or (commandResult.bind (·.diagnostic))

/-- The call of `audit`: a record is given to the writer. -/
def audit (q : PrivilegeRequest) (event : PrivilegeAuditEventType) (confirmed : Option Bool)
    (result : Option PrivilegeCommandResult) (diagnosticCode : Option PrivilegeDiagnosticCode) :
    PrivilegeRequest :=
  { q with appended := q.appended ++ [{
      event, timestamp := now, confirmed, exitCode := result.bind (·.exitCode)
      durationMs := result.map fun result => max 0 (result.completedAt - result.startedAt)
      diagnosticCode }] }

/-- The writer has written a record. -/
def note (q : PrivilegeRequest) (event : PrivilegeAuditEventType) (ok : Bool) : PrivilegeRequest :=
  if ok then { q with written := q.written ++ [event] } else q

/-- The `finally` block is entered: the session is disposed of. -/
def release (q : PrivilegeRequest) (outcome : Outcome) : PrivilegeRequest :=
  { q with
    stage := .releasing outcome
    sessions := match q.session with
      | some session => q.sessions.set session true
      | none => q.sessions }

/-- `return finish(..)` in the `try` block. -/
def conclude (q : PrivilegeRequest) (status : PrivilegeResultStatus)
    (issue : Option PrivilegeDiagnostic) (commandResult : Option PrivilegeCommandResult) :
    PrivilegeRequest :=
  q.release (.returned (q.finish now status issue commandResult))

/-- `active.controller.abort()`. -/
def abort (q : PrivilegeRequest) : PrivilegeRequest :=
  { q with
    aborted := true
    stage := match q.stage with
      | .racing none => .racing (some .cancelled)
      | stage => stage }

/-- A last audit write whose failure is ignored. -/
def refuse (q : PrivilegeRequest) (state : PrivilegeRequestState) (event : PrivilegeAuditEventType)
    (confirmed : Option Bool) (status : PrivilegeResultStatus) (issue : PrivilegeDiagnostic) :
    PrivilegeRequest :=
  { ({ q with state } : PrivilegeRequest).audit now event confirmed none (some issue.code) with
    stage := .refusing event status issue none }

/-- The request once "requested" is written. -/
def afterRequested (q : PrivilegeRequest) (handler pending : Bool) : PrivilegeRequest :=
  match q.validation with
  | some issue => q.refuse now .blocked .blocked none .blocked issue
  | none =>
    if q.aborted then
      q.refuse now .cancelled .cancelled (some false) .cancelled
        (diagnostic host .cancelled "Privilege request cancelled")
    else if handler = false then
      q.refuse now .interactionRequired .blocked none .interactionRequired
        (diagnostic host .interactionRequired "No privilege interaction handler is configured")
    else if pending = false then
      q.conclude now .interactionError
        (some (diagnostic host .interactionError "Privilege request state was lost")) none
    else { q with stage := .racing none, offered := true }

/-- The command was executed and has not failed. -/
def succeeded (result : PrivilegeCommandResult) : Bool :=
  !result.cancelled && !result.timedOut && result.exitCode == some 0

/-- `finalEvent`. -/
def finalEvent (result : PrivilegeCommandResult) : PrivilegeAuditEventType :=
  if succeeded result then .completed else if result.cancelled then .cancelled else .failed

/-- The status of the result of a command. -/
def finalStatus (result : PrivilegeCommandResult) : PrivilegeResultStatus :=
  if succeeded result then .succeeded else if result.cancelled then .cancelled else .failed

/-- `finalIssue`. -/
def finalIssue (result : PrivilegeCommandResult) : Option PrivilegeDiagnostic :=
  if succeeded result then none
  else result.diagnostic.or <|
    if result.timedOut then some (diagnostic host .timeout "Privileged command timed out")
    else if result.cancelled then some (diagnostic host .cancelled "Privileged command cancelled")
    else some (diagnostic host .commandFailed ("Privileged command exited with code " ++
      (result.exitCode.map fun code => String.ofList (Json.numberText code)).getD "unknown"))

/-- The result of the command is known: the last audit write of a request that ran. -/
def settleResult (q : PrivilegeRequest) (result : PrivilegeCommandResult) : PrivilegeRequest :=
  let state : PrivilegeRequestState :=
    if succeeded result then .completed else if result.cancelled then .cancelled else .failed
  { ({ q with state } : PrivilegeRequest).audit now (finalEvent result) (some true) (some result)
      ((finalIssue host result).map (·.code)) with
    stage := .concluding result }

/-- The last audit write of a request that was cancelled. -/
def settleCancelled (q : PrivilegeRequest) (result : Option PrivilegeCommandResult) :
    PrivilegeRequest :=
  { q.audit now .cancelled (some q.confirmedAt.isSome) result (some .cancelled) with
    stage := .refusing .cancelled .cancelled
      (diagnostic host .cancelled "Privilege request cancelled") result }

/-- The request after the race of the handler and the abort. -/
def respond (q : PrivilegeRequest) (response : PrivilegeInteractionResponse) : PrivilegeRequest :=
  if response = .cancelled ∨ q.aborted = true then
    { q with state := .cancelled, stage := .cancelling }
  else match response with
    | .rejected message =>
      let issue := diagnostic host .cancelled
        (message.getD "Privilege request rejected by user")
      { ({ q with state := .blocked } : PrivilegeRequest).audit now .blocked (some false) none
          (some issue.code) with
        stage := .rejecting issue }
    | .error message =>
      q.refuse now .failed .failed none .interactionError
        (diagnostic host .interactionError message)
    | .completed | .cancelled =>
      if q.session = none ∨ q.startedAt = none then
        q.conclude now .interactionError (some (diagnostic host .interactionError
          "Privilege interaction completed before user execution")) none
      else match q.result with
        | some result => q.settleResult host now result
        | none => { q with stage := .waiting, waitPromise := some (q.waitPromise.getD .pending) }

/-- **The main flow** of `executeRequest`, from one suspension to the next; `ok` says whether
the audit write it waits for succeeded.  `none` if what it waits for has not happened. -/
def advance (q : PrivilegeRequest) (handler pending ok : Bool) : Option PrivilegeRequest :=
  match q.stage with
  | .requesting =>
    if ok = false then
      some (q.conclude now .blocked (some (diagnostic host .auditFailed
        "Privilege audit could not be written before execution")) none)
    else some ((q.note .requested ok).afterRequested host now handler pending)
  | .refusing event status issue result =>
    some ((q.note event ok).conclude now status (some issue) result)
  | .racing none => none
  | .racing (some response) => some (q.respond host now response)
  | .cancelling =>
    match q.result, q.waitPromise with
    | none, some _ => some { q with stage := .collecting }
    | result, _ => some (q.settleCancelled host now result)
  | .collecting =>
    match q.waitPromise with
    | some (.fulfilled result) => some (q.settleCancelled host now (some result))
    | some .rejected => some (q.settleCancelled host now none)
    | _ => none
  | .rejecting issue =>
    if ok then some ((q.note .blocked ok).conclude now .blocked (some issue) none)
    else some (q.release .thrown)
  | .waiting =>
    match q.waitPromise with
    | some (.fulfilled result) => some (q.settleResult host now result)
    | some .rejected => some (q.release .thrown)
    | _ => none
  | .concluding result =>
    if ok then some { q.note (finalEvent result) ok with stage := .reviewing result }
    else some (q.conclude now .failed (some (diagnostic host .auditFailed
      "Final privilege audit could not be written")) (some result))
  | .reviewing result =>
    some (q.conclude now (finalStatus result) (finalIssue host result) (some result))
  | .releasing outcome => some { q with stage := .done outcome }
  | .done _ => none

/-! ## The control object -/

/-- The methods of `PrivilegeTerminalControl` that change a request. -/
inductive ControlCall
  | start
  | execute
  | cancel
  | wait
  deriving DecidableEq, Repr

/-- A method is called; where it throws, nothing changes. -/
def control (q : PrivilegeRequest) : ControlCall → PrivilegeRequest
  | .start =>
    if q.session ≠ none ∨ q.state ≠ .waitingForUser ∨ q.aborted = true then q
    else { q with controls := q.controls ++ [.creating] }
  | .execute =>
    if q.session = none ∨ q.state ≠ .waitingForUser ∨ q.confirmedAt ≠ none ∨ q.aborted = true then q
    else
      { ({ q with confirmedAt := some now } : PrivilegeRequest).audit now .confirmed (some true)
          none none with
        controls := q.controls ++ [.confirming] }
  | .cancel => q.abort
  | .wait =>
    if q.session = none ∨ q.startedAt = none then q
    else { q with waitPromise := some (q.waitPromise.getD .pending) }

/-- A suspended method goes on, because what it waits for succeeded or not. -/
def answer (q : PrivilegeRequest) (index : Nat) (ok : Bool) : Option PrivilegeRequest :=
  (q.controls[index]?).map fun suspended =>
    let thrown : PrivilegeRequest := { q with controls := q.controls.eraseIdx index }
    match suspended with
    | .creating =>
      if ok then { q with
        sessions := q.sessions ++ [false]
        session := some q.sessions.length
        controls := q.controls.set index .staging }
      else thrown
    | .staging => thrown
    | .confirming =>
      if ok then { q.note .confirmed ok with
        state := .starting
        executions := q.executions + 1
        controls := q.controls.set index .executing }
      else thrown
    | .executing =>
      if ok then
        { ({ q with startedAt := some now, state := .running } : PrivilegeRequest).audit now .started
            (some true) none none with
          controls := q.controls.set index .recording }
      else thrown
    | .recording => thrown.note .started ok

/-- The promise of `session.wait` settles. -/
def sessionEnds (q : PrivilegeRequest) (result : Option PrivilegeCommandResult) :
    Option PrivilegeRequest :=
  match q.waitPromise, result with
  | some .pending, some result =>
    some { q with waitPromise := some (.fulfilled result), result := some result }
  | some .pending, none => some { q with waitPromise := some .rejected }
  | _, _ => none

/-- The promise of the handler settles; an error that it throws is a response here. -/
def handlerSettles (q : PrivilegeRequest) (response : PrivilegeInteractionResponse) :
    PrivilegeRequest :=
  match q.stage with
  | .racing none => { q with stage := .racing (some response) }
  | _ => q

/-- What can happen to a request. -/
inductive Happening
  /-- the main flow goes on -/
  | advance (ok : Bool)
  | control (call : ControlCall)
  /-- a suspended method of the control object goes on -/
  | answer (index : Nat) (ok : Bool)
  | sessionEnds (result : Option PrivilegeCommandResult)
  | handlerSettles (response : PrivilegeInteractionResponse)
  | abort
  deriving DecidableEq, Repr

/-- One step of a request. -/
def step (handler pending : Bool) (q : PrivilegeRequest) : Happening → Option PrivilegeRequest
  | .advance ok => q.advance host now handler pending ok
  | .control call => if q.offered then some (q.control now call) else none
  | .answer index ok => q.answer now index ok
  | .sessionEnds result => q.sessionEnds result
  | .handlerSettles response => if q.offered then some (q.handlerSettles response) else none
  | .abort => some q.abort

end PrivilegeRequest

/-! ## The runtime -/

/-- What a call of `execute` gives its caller. -/
inductive Call
  /-- the call made the request -/
  | ran (request : Nat)
  /-- the call waits for a request that was in flight -/
  | joined (request : Nat)
  /-- the call returned a result that was kept -/
  | repeated (result : PrivilegeToolDetails)
  deriving DecidableEq, Repr

/-- `PrivilegeRuntime`.  `requests`, `calls` and `settled` are histories: all requests, all
calls of `execute`, and the requests whose call of `execute` has gone on, in this order. -/
structure PrivilegeSystem where
  handler : Bool
  active : Option Nat
  inFlightByToolCallId : OrderedMap String Nat
  completedByToolCallId : OrderedMap String PrivilegeToolDetails
  requests : List PrivilegeRequest
  calls : List Call
  settled : List Nat

namespace PrivilegeSystem

/-- A runtime that was just made. -/
def initial (handler : Bool) : PrivilegeSystem :=
  ⟨handler, none, .empty, .empty, [], [], []⟩

/-- The request that `executeRequest` makes, before it decides anything. -/
def newRequest (s : PrivilegeSystem) (host : Host) (input : PrivilegeExecuteInput) :
    PrivilegeRequest where
  id := s.requests.length
  input := input
  validation := validationIssue host input
  state := .waitingForUser
  aborted := false
  session := none
  result := none
  confirmedAt := none
  startedAt := none
  waitPromise := none
  stage := .requesting
  offered := false
  controls := []
  sessions := []
  appended := []
  written := []
  executions := 0

/-- The request up to the first suspension, if no other request is active. -/
def opened (s : PrivilegeSystem) (host : Host) (now : ℚ) (input : PrivilegeExecuteInput)
    (aborted : Bool) : PrivilegeRequest :=
  ({ s.newRequest host input with aborted } : PrivilegeRequest).audit now .requested none none none

/-- The request if another one is active. -/
def turnedAway (s : PrivilegeSystem) (host : Host) (now : ℚ) (input : PrivilegeExecuteInput)
    (active : Nat) : PrivilegeRequest :=
  { s.newRequest host input with
    stage := .done (.returned ((s.newRequest host input).finish now .interactionError
      (some (diagnostic host .interactionError
        ("Privilege request " ++ toString active ++ " is already active"))) none)) }

/-- `execute`, up to its suspension. -/
def execute (s : PrivilegeSystem) (host : Host) (now : ℚ) (input : PrivilegeExecuteInput)
    (aborted : Bool) : PrivilegeSystem :=
  match s.completedByToolCallId.get? input.toolCallId with
  | some result => { s with calls := s.calls ++ [.repeated result] }
  | none =>
    match s.inFlightByToolCallId.get? input.toolCallId with
    | some request => { s with calls := s.calls ++ [.joined request] }
    | none =>
      { s with
        requests := s.requests ++ [match s.active with
          | some active => s.turnedAway host now input active
          | none => s.opened host now input aborted]
        active := some (s.active.getD s.requests.length)
        inFlightByToolCallId :=
          s.inFlightByToolCallId.set input.toolCallId s.requests.length
        calls := s.calls ++ [.ran s.requests.length] }

/-- The number of results that are kept. -/
def completedLimit : Nat := 100

/-- The oldest results beyond the limit are dropped. -/
def dropOldest (m : OrderedMap String PrivilegeToolDetails) :
    OrderedMap String PrivilegeToolDetails :=
  ⟨m.entries.drop (m.entries.length - completedLimit),
    m.nodup.sublist (List.Sublist.map _ (List.drop_sublist _ _))⟩

/-- `execute` goes on after its request. -/
def settle (s : PrivilegeSystem) (request : Nat) : Option PrivilegeSystem :=
  if request ∈ s.settled then none
  else (s.requests[request]?).bind fun q =>
    match q.stage with
    | .done outcome =>
      some { s with
        inFlightByToolCallId := s.inFlightByToolCallId.delete q.input.toolCallId
        completedByToolCallId := match outcome with
          | .returned result =>
            dropOldest (s.completedByToolCallId.set q.input.toolCallId result)
          | .thrown => s.completedByToolCallId
        settled := s.settled ++ [request] }
    | _ => none

/-- `this.active` once the `finally` block of a request is over. -/
def activeAfter (s : PrivilegeSystem) (request : Nat) (q : PrivilegeRequest) : Option Nat :=
  match q.stage with
  | .done _ => if s.active = some request then none else s.active
  | _ => s.active

/-- One step of a request of the runtime. -/
def stepRequest (s : PrivilegeSystem) (host : Host) (now : ℚ) (request : Nat)
    (happening : PrivilegeRequest.Happening) : Option PrivilegeSystem :=
  (s.requests[request]?).bind fun q =>
    (q.step host now s.handler s.active.isSome happening).map fun q' =>
      { s with
        requests := s.requests.set request q'
        active := s.activeAfter request q' }

end PrivilegeSystem

/-- What can happen next. -/
inductive Event
  /-- `execute` is called, with a signal that has fired already or not -/
  | execute (input : PrivilegeExecuteInput) (aborted : Bool)
  /-- the call of `execute` that made the request goes on -/
  | settle (request : Nat)
  | setHandler (handler : Bool)
  /-- the signal of the caller of a request fires -/
  | signal (request : Nat)
  | cancelPending
  /-- something happens to a request; an abort comes from the two events above or from the
  control object -/
  | happen (request : Nat) (happening : PrivilegeRequest.Happening)
  deriving DecidableEq, Repr

/-- The signal of the caller is still listened to. -/
def Stage.listens : Stage → Bool
  | .releasing _ | .done _ => false
  | _ => true

/-- One step, at a time; `none` if the event cannot happen. -/
def step (host : Host) (s : PrivilegeSystem) : ℚ × Event → Option PrivilegeSystem
  | (now, .execute input aborted) => some (s.execute host now input aborted)
  | (_, .settle request) => s.settle request
  | (_, .setHandler handler) => some { s with handler }
  | (now, .signal request) =>
    if (s.requests[request]?).any (·.stage.listens) then
      s.stepRequest host now request .abort
    else none
  | (now, .cancelPending) => s.active.bind fun request => s.stepRequest host now request .abort
  | (now, .happen request happening) =>
    if happening = .abort then none else s.stepRequest host now request happening

end BeauPi.Privilege
