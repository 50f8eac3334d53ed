import BeauPi.Machine.OrderedMap
import BeauPi.Machine.Runs

/-!
# The file mutation queue

Tools that change a file run inside `withFileMutationQueue`, which chains the callbacks of one
file behind each other.  The function suspends several times, and the calls meet in a table of
promises.

* `getMutationQueueKey` — the name under which a file is queued.
* `QueueSystem` — the table, the calls made so far and the file system.
* `register`, `finish` — the synchronous pieces of `withFileMutationQueue`.
* `Event`, `step` — everything that can happen between two suspensions.
-/

namespace BeauPi.Tools

open Machine

/-! ## Keys -/

/-- What `realpath` answers; `missing` is a failure with the code ENOENT or ENOTDIR. -/
inductive Realpath
  | found (path : String)
  | missing
  | failed (message : String)
  deriving DecidableEq, Repr

/-- `getMutationQueueKey`, once `realpath` has answered. -/
def getMutationQueueKey (resolvedPath : String) : Realpath → Except String String
  | .found path => .ok path
  | .missing => .ok resolvedPath
  | .failed message => .error message

/-! ## Calls -/

/-- What the registration of a call returns.  The chained promise of a call is named by the
number of the call; `currentQueue` is `none` when the table had no promise. -/
structure Registration where
  key : String
  currentQueue : Option Nat
  deriving DecidableEq, Repr

/-- How far a call of `withFileMutationQueue` has come. -/
inductive CallState
  /-- its registration waits in the registration queue -/
  | queued
  /-- its registration awaits `realpath` -/
  | resolving
  /-- its registration has failed -/
  | rejected (message : String)
  /-- it awaits `currentQueue` -/
  | waiting (registration : Registration)
  /-- its callback runs -/
  | running (registration : Registration)
  /-- its callback has settled, and `releaseNext` was called -/
  | finished (registration : Registration) (threw : Bool)
  deriving DecidableEq, Repr

/-- What the registration returned, if it has. -/
def CallState.registration? : CallState → Option Registration
  | .waiting r | .running r | .finished r _ => some r
  | .queued | .resolving | .rejected _ => none

/-- The registration has settled. -/
def CallState.isRegistered : CallState → Bool
  | .queued | .resolving => false
  | .rejected _ | .waiting _ | .running _ | .finished _ _ => true

/-- The callback was called. -/
def CallState.isStarted : CallState → Bool
  | .running _ | .finished _ _ => true
  | .queued | .resolving | .rejected _ | .waiting _ => false

/-- The promise of the call has settled. -/
def CallState.isSettled : CallState → Bool
  | .rejected _ | .finished _ _ => true
  | .queued | .resolving | .waiting _ | .running _ => false

/-- A call of `withFileMutationQueue`; `chained` tells that its `chainedQueue` has resolved. -/
structure Call where
  filePath : String
  optionsKey : Option String
  state : CallState
  chained : Bool
  deriving DecidableEq, Repr

/-! ## The system -/

/-- The table, the calls in the order in which they were made, and the file system. -/
structure QueueSystem (FS : Type) where
  fileMutationQueues : OrderedMap String Nat
  calls : List Call
  fileSystem : FS

namespace QueueSystem

variable {FS : Type}

/-- Nothing has been called yet. -/
def initial (fileSystem : FS) : QueueSystem FS := ⟨.empty, [], fileSystem⟩

def state? (s : QueueSystem FS) (call : Nat) : Option CallState := (s.calls[call]?).map (·.state)

/-- What the registration of a call returned. -/
def registration? (s : QueueSystem FS) (call : Nat) : Option Registration :=
  (s.state? call).bind CallState.registration?

/-- The key of a registered call. -/
def key? (s : QueueSystem FS) (call : Nat) : Option String := (s.registration? call).map (·.key)

def isStarted (s : QueueSystem FS) (call : Nat) : Bool := (s.state? call).any CallState.isStarted

def isRegistered (s : QueueSystem FS) (call : Nat) : Bool :=
  (s.state? call).any CallState.isRegistered

def isSettled (s : QueueSystem FS) (call : Nat) : Bool := (s.state? call).any CallState.isSettled

/-- The callback of the call runs. -/
def isRunning (s : QueueSystem FS) (call : Nat) : Bool := s.isStarted call && !s.isSettled call

/-- The call has a key and has not settled. -/
def isOutstanding (s : QueueSystem FS) (call : Nat) : Bool :=
  (s.key? call).isSome && !s.isSettled call

/-- The promise `chainedQueue` of the call has resolved. -/
def isChained (s : QueueSystem FS) (call : Nat) : Bool := (s.calls[call]?).any (·.chained)

/-- `currentQueue` has resolved; `Promise.resolve()` always has. -/
def isFree (s : QueueSystem FS) (currentQueue : Option Nat) : Bool := currentQueue.all s.isChained

/-- The call goes over to another state. -/
def setState (s : QueueSystem FS) (call : Nat) (state : CallState) : QueueSystem FS :=
  { s with calls := s.calls.modify call fun c => { c with state := state } }

/-- The registration once the key is known: the call takes its place behind the promise that the
table has for the key, and the table gets its own. -/
def register (s : QueueSystem FS) (call : Nat) (key : String) : QueueSystem FS :=
  let currentQueue := s.fileMutationQueues.get? key
  { s.setState call (.waiting ⟨key, currentQueue⟩) with
    fileMutationQueues := s.fileMutationQueues.set key call }

/-- The `finally` block: the next call is released, and the promise is taken from the table unless
a later call has replaced it. -/
def finish (s : QueueSystem FS) (call : Nat) (r : Registration) (threw : Bool) : QueueSystem FS :=
  { s.setState call (.finished r threw) with
    fileMutationQueues :=
      if s.fileMutationQueues.get? r.key = some call then s.fileMutationQueues.delete r.key
      else s.fileMutationQueues }

end QueueSystem

/-! ## Steps -/

/-- What can happen next. -/
inductive Event (FS : Type)
  /-- `withFileMutationQueue` is called -/
  | call (filePath : String) (optionsKey : Option String)
  /-- the registration of the call begins, the one before it having settled -/
  | begin (call : Nat)
  /-- `realpath` answers the call -/
  | resolved (call : Nat) (answer : Realpath)
  /-- the call goes on after `await currentQueue` and calls its callback -/
  | start (call : Nat)
  /-- the promise of the callback settles -/
  | settle (call : Nat) (threw : Bool)
  /-- the promise `chainedQueue` of the call resolves -/
  | chain (call : Nat)
  /-- the file system changes -/
  | change (fileSystem : FS)

/-- The steps that the function takes by itself; the others wait for the callers, the callbacks or
the file system. -/
def Event.isInternal {FS : Type} : Event FS → Bool
  | .begin _ | .start _ | .chain _ => true
  | .call _ _ | .resolved _ _ | .settle _ _ | .change _ => false

variable {FS : Type}

/-- One step, where `resolve` is the function that makes a path absolute. -/
def step (resolve : String → String) (s : QueueSystem FS) : Event FS → Option (QueueSystem FS)
  | .call filePath optionsKey =>
    some { s with calls := s.calls ++ [⟨filePath, optionsKey, .queued, false⟩] }
  | .begin i =>
    match s.calls[i]? with
    | some ⟨_, optionsKey, .queued, _⟩ =>
      if i = 0 ∨ s.isRegistered (i - 1) then
        match optionsKey with
        | some key => some (s.register i key)
        | none => some (s.setState i .resolving)
      else none
    | _ => none
  | .resolved i answer =>
    match s.calls[i]? with
    | some ⟨filePath, _, .resolving, _⟩ =>
      match getMutationQueueKey (resolve filePath) answer with
      | .ok key => some (s.register i key)
      | .error message => some (s.setState i (.rejected message))
    | _ => none
  | .start i =>
    match s.state? i with
    | some (.waiting r) =>
      if s.isFree r.currentQueue then some (s.setState i (.running r)) else none
    | _ => none
  | .settle i threw =>
    match s.state? i with
    | some (.running r) => some (s.finish i r threw)
    | _ => none
  | .chain i =>
    match s.calls[i]? with
    | some ⟨_, _, .finished r _, false⟩ =>
      if s.isFree r.currentQueue then
        some { s with calls := s.calls.modify i fun c => { c with chained := true } }
      else none
    | _ => none
  | .change fileSystem => some { s with fileSystem := fileSystem }

end BeauPi.Tools
