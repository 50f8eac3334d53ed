import Mathlib.Data.List.Basic

/-!
# The document runtime

The runtime holds the execution contract of the current task, and checks from time to time whether
the documents of the contract are still the ones that it was made of.  A validation reads one
document after the other, and **other calls run between two reads**.

* `ExecutionContract` — the contract, with the hashes of its documents.
* `resolveTask`, `restoreContract` — a contract becomes the current one.
* `validateCurrentContract`, `noteFilesModified` — a validation begins.
* `readFinished` — a validation has read a document.
* `step`, `run` — the calls of a run.
-/

namespace BeauPi.Documents

/-! ## Contracts -/

/-- What the host provides: the paths and hashes. -/
structure Host where
  resolve : String → String
  hashDocumentContent : String → String
  stableDocumentId : String → List String → String
  normalizeText : String → String

/-- `ExecutionContract["status"]` -/
inductive ContractStatus
  | active
  | stale
  deriving DecidableEq, Repr

/-- `DocumentReference` -/
structure DocumentReference where
  id : String
  path : String
  displayPath : String
  hash : String
  critical : Bool
  deriving DecidableEq, Repr

/-- `{ ...document.reference, critical: true }` -/
def DocumentReference.markCritical (document : DocumentReference) : DocumentReference :=
  { document with critical := true }

/-- `ExecutionContract` -/
structure ExecutionContract where
  id : String
  task : String
  taskSignature : String
  documents : List DocumentReference
  documentHashes : List (String × String)
  createdAt : String
  updatedAt : String
  status : ContractStatus
  staleReasons : List String
  deriving DecidableEq, Repr

namespace ExecutionContract

/-- `documentHashes[id]`: of two entries the later one counts. -/
def documentHash (contract : ExecutionContract) (id : String) : Option String :=
  contract.documentHashes.reverse.lookup id

end ExecutionContract

/-! ## The state -/

/-- The current contract: was it resolved or restored, and how many validations had begun then? -/
structure Current where
  contract : ExecutionContract
  resolved : Bool
  since : Nat
  deriving DecidableEq, Repr

/-- A document that a validation has read, its content unless it was unavailable, and the contract
that was current then. -/
structure Read where
  document : DocumentReference
  content : Option String
  current : Option ExecutionContract
  deriving DecidableEq, Repr

/-- A suspended validation: the contract whose documents it reads, those that it has not read, and
what it has read and found. -/
structure Validation where
  number : Nat
  contract : ExecutionContract
  remaining : List DocumentReference
  reads : List Read
  reasons : List String
  deriving DecidableEq, Repr

/-- A validation that has finished, with the contract that it has left. -/
structure Finished where
  validation : Validation
  current : Current
  deriving DecidableEq, Repr

/-- `DocumentRuntime` -/
structure DocumentRuntime where
  currentContract : Option Current := none
  begun : Nat := 0
  validations : List Validation := []
  finished : List Finished := []
  deriving DecidableEq, Repr

/-! ## What a validation finds -/

/-- The first twelve characters of a hash. -/
def shortHash (hash : String) : String :=
  String.ofList (hash.toList.take 12)

/-- `uniqueStrings` -/
def uniqueStrings (values : List String) : List String :=
  (values.reverse.dedup).reverse

/-- The reason that a document gives, by the contract that is current when it has been read. -/
def reason (host : Host) (read : Read) : Option String :=
  match read.content with
  | none => some (read.document.displayPath ++ " is unavailable")
  | some content =>
    let currentHash := host.hashDocumentContent content
    if some currentHash = read.current.bind (·.documentHash read.document.id) then none
    else some (read.document.displayPath ++ " changed (expected " ++ shortHash read.document.hash ++
      ", found " ++ shortHash currentHash ++ ")")

/-- The contract that a validation leaves, made from the one that is current at its end. -/
def validated (validation : Validation) (timestamp : String) (contract : ExecutionContract) :
    ExecutionContract :=
  { contract with
    status := if validation.reasons ≠ [] then .stale else .active
    staleReasons := uniqueStrings validation.reasons
    updatedAt :=
      if validation.reasons ≠ [] ∧ contract.status ≠ .stale then timestamp else contract.updatedAt }

/-- What a validation has found when its next document is read. -/
def Validation.next (validation : Validation) (host : Host) (document : DocumentReference)
    (rest : List DocumentReference) (content : Option String)
    (current : Option ExecutionContract) : Validation :=
  let read : Read := ⟨document, content, current⟩
  { validation with
    remaining := rest
    reads := validation.reads ++ [read]
    reasons := validation.reasons ++ (reason host read).toList }

namespace DocumentRuntime

variable (host : Host) (runtime : DocumentRuntime)

/-! ## Contracts of the runtime -/

/-- `restoreContract` -/
def restoreContract (contract : Option ExecutionContract) : DocumentRuntime :=
  { runtime with currentContract := contract.map fun contract => ⟨contract, false, runtime.begun⟩ }

/-- `resolveTask`, from when the documents are discovered and selected. -/
def resolveTask (task : String) (selected : List DocumentReference) (refresh : Bool)
    (timestamp : String) : DocumentRuntime :=
  let criticalDocuments := selected.map DocumentReference.markCritical
  let taskSignature := host.stableDocumentId "task" [host.normalizeText task]
  let contractId := host.stableDocumentId "contract"
    ("2" :: taskSignature :: criticalDocuments.flatMap fun document => [document.id, document.hash])
  let existing := (runtime.currentContract.map (·.contract)).filter (·.id = contractId)
  let contract : ExecutionContract :=
    { id := contractId
      task := task
      taskSignature := taskSignature
      documents := criticalDocuments
      documentHashes := criticalDocuments.map fun document => (document.id, document.hash)
      createdAt := existing.elim timestamp (·.createdAt)
      updatedAt := if refresh then timestamp else existing.elim timestamp (·.updatedAt)
      status := .active
      staleReasons := [] }
  { runtime with currentContract := some ⟨contract, true, runtime.begun⟩ }

/-! ## Validations -/

/-- A validation waits for its next document, or finishes: without a current contract it throws. -/
def proceed (validation : Validation) (timestamp : String) : DocumentRuntime :=
  if validation.remaining ≠ [] then
    { runtime with validations := runtime.validations ++ [validation] }
  else
    match runtime.currentContract with
    | none => runtime
    | some current =>
      let current := { current with contract := validated validation timestamp current.contract }
      { runtime with
        currentContract := some current
        finished := runtime.finished ++ [⟨validation, current⟩] }

/-- `validateCurrentContract`, to its first document. -/
def validateCurrentContract (timestamp : String) : DocumentRuntime :=
  match runtime.currentContract with
  | none => runtime
  | some current =>
    let validation : Validation :=
      ⟨runtime.begun, current.contract, current.contract.documents, [], []⟩
    { runtime with begun := runtime.begun + 1 }.proceed validation timestamp

/-- `noteFilesModified` -/
def noteFilesModified (paths : List String) (timestamp : String) : DocumentRuntime :=
  match runtime.currentContract with
  | none => runtime
  | some current =>
    if paths = [] then runtime
    else if current.contract.documents.any fun document =>
        (paths.map host.resolve).contains (host.resolve document.path) then
      runtime.validateCurrentContract timestamp
    else runtime

/-- The next document of a validation has been read. -/
def readFinished (number : Nat) (content : Option String) (timestamp : String) : DocumentRuntime :=
  match runtime.validations.find? (·.number = number) with
  | none => runtime
  | some validation =>
    match validation.remaining with
    | [] => runtime
    | document :: rest =>
      let validation := validation.next host document rest content
        (runtime.currentContract.map (·.contract))
      { runtime with validations := runtime.validations.filter (·.number ≠ number) }.proceed
        validation timestamp

/-! ## Runs -/

/-- What happens: a call to its first suspension, or the end of a read. -/
inductive Event
  | resolveTask (task : String) (selected : List DocumentReference) (refresh : Bool)
  | restoreContract (contract : Option ExecutionContract)
  | validateCurrentContract
  | noteFilesModified (paths : List String)
  | readFinished (number : Nat) (content : Option String)

/-- What an event at some time leads to. -/
def step (event : Event) (timestamp : String) : DocumentRuntime :=
  match event with
  | .resolveTask task selected refresh => runtime.resolveTask host task selected refresh timestamp
  | .restoreContract contract => runtime.restoreContract contract
  | .validateCurrentContract => runtime.validateCurrentContract timestamp
  | .noteFilesModified paths => runtime.noteFilesModified host paths timestamp
  | .readFinished number content => runtime.readFinished host number content timestamp

/-- A run of the runtime. -/
def run (events : List (Event × String)) : DocumentRuntime :=
  events.foldl (fun runtime (event, timestamp) => runtime.step host event timestamp) runtime

end DocumentRuntime
end BeauPi.Documents
