import Mathlib.Data.Rat.Floor
import Mathlib.Data.List.Basic

/-!
# The agent pool: slots and waiters

Sub-agents run in the slots of a pool.  `acquire` claims a slot, or queues a waiter whose
promise a later `release` resolves; the continuation of `acquire` runs some time after
that and looks at the pool and at its abort signal once more.

* `AgentPool.create` — the part of the constructor that fixes the number of slots.
* `SlotSystem` — the pool, the `released` flag of every slot callback, the calls of
  `acquire` so far and the abort signals that have fired.
* `claimSlot`, `acquire`, `release`, `dispose` — the methods of the pool, cut where the
  source suspends.
* `Event`, `step` — everything that can happen between two suspensions.
-/

namespace BeauPi.Agents

/-! ## The pool -/

/-- `AgentPool`, as far as slots are concerned.  A waiter is the number of the call of
`acquire` that waits; the oldest waiter is first. -/
structure AgentPool where
  maxConcurrency : Nat
  waiters : List Nat
  activeCount : Nat
  maxObservedConcurrency : Nat
  disposed : Bool
  deriving DecidableEq, Repr

/-- `calculateAgentConcurrencyLimit`; `none` is a count that is not finite. -/
def calculateAgentConcurrencyLimit (cpuCount : Option ℚ) : Int :=
  let normalizedCpuCount : Int := match cpuCount with
    | some count => max 1 ⌊count⌋
    | none => 1
  max 1 (normalizedCpuCount / 3)

/-- The check of `maxConcurrency` in `validateAgentPoolConfig`. -/
def validateMaxConcurrency (maxConcurrency : Option ℚ) : Except String Unit :=
  match maxConcurrency with
  | some count =>
    if count.isInt = false ∨ count ≤ 0 then
      .error "Agent pool maxConcurrency must be a positive integer"
    else .ok ()
  | none => .ok ()

/-- The constructor: the limit is what the configuration asks for, but at most what the
processors allow. -/
def AgentPool.create (maxConcurrency cpuCount : Option ℚ) : Except String AgentPool := do
  let cpuConcurrencyLimit := calculateAgentConcurrencyLimit cpuCount
  let limit := match maxConcurrency with
    | some count => min ⌊count⌋ cpuConcurrencyLimit
    | none => cpuConcurrencyLimit
  validateMaxConcurrency maxConcurrency
  return {
    maxConcurrency := limit.toNat
    waiters := []
    activeCount := 0
    maxObservedConcurrency := 0
    disposed := false }

/-- A pool starts empty, with at least one slot. -/
theorem AgentPool.create_spec {maxConcurrency cpuCount : Option ℚ} {pool : AgentPool}
    (h : AgentPool.create maxConcurrency cpuCount = .ok pool) :
    0 < pool.maxConcurrency ∧ pool.waiters = [] ∧ pool.activeCount = 0 := by
  have hcpu : 1 ≤ calculateAgentConcurrencyLimit cpuCount := le_max_left _ _
  cases maxConcurrency with
  | none =>
    cases h
    refine ⟨?_, rfl, rfl⟩
    show 0 < (calculateAgentConcurrencyLimit cpuCount).toNat
    omega
  | some count =>
    by_cases hbad : count.isInt = false ∨ count ≤ 0
    · simp only [create, validateMaxConcurrency, if_pos hbad] at h
      cases h
    · simp only [create, validateMaxConcurrency, if_neg hbad] at h
      cases h
      refine ⟨?_, rfl, rfl⟩
      show 0 < (min ⌊count⌋ (calculateAgentConcurrencyLimit cpuCount)).toNat
      -- a positive integer is at least one, so is its floor
      have hint : count.isInt = true := by simpa using fun hno => hbad (.inl hno)
      have hpos : 0 < count := by simpa using fun hle => hbad (.inr hle)
      have hnum : (count.num : ℚ) = count := Rat.eq_num_of_isInt hint ▸ rfl
      have hfloor : ⌊count⌋ = count.num := by rw [← hnum]; simp
      have hone : 0 < count.num := Rat.num_pos.2 hpos
      omega

/-! ## Calls of `acquire` -/

/-- The errors `acquire` rejects with. -/
inductive AcquireError
  | aborted
  | disposed
  deriving DecidableEq, Repr

/-- How far a call of `acquire` has come.  A waiter's promise is resolved in `granted`,
before the continuation of `acquire` has run. -/
inductive CallState
  | waiting
  | granted (slot : Nat)
  | holding (slot : Nat)
  | rejected (error : AcquireError)
  deriving DecidableEq, Repr

/-- The slot whose callback the call has been given. -/
def CallState.slot? : CallState → Option Nat
  | .granted slot | .holding slot => some slot
  | .waiting | .rejected _ => none

/-- A call of `acquire`, with its abort signal if it has one. -/
structure Call where
  signal : Option Nat
  state : CallState
  deriving DecidableEq, Repr

/-- The pool and everything around it that decides what it does: the `released` flag of
each callback made by `claimSlot`, the calls of `acquire` in the order they were made,
and the signals that have fired. -/
structure SlotSystem where
  pool : AgentPool
  slots : List Bool
  calls : List Call
  aborted : List Nat
  deriving DecidableEq, Repr

namespace SlotSystem

/-- A pool nobody has used yet. -/
def initial (pool : AgentPool) : SlotSystem := ⟨pool, [], [], []⟩

/-- `signal?.aborted` -/
def signalAborted (s : SlotSystem) : Option Nat → Bool
  | some signal => s.aborted.contains signal
  | none => false

def state? (s : SlotSystem) (call : Nat) : Option CallState := (s.calls[call]?).map (·.state)

/-- The signal of a call has fired. -/
def isAborted (s : SlotSystem) (call : Nat) : Bool :=
  match s.calls[call]? with
  | some c => s.signalAborted c.signal
  | none => false

/-- The call goes over to another state. -/
def settle (s : SlotSystem) (call : Nat) (state : CallState) : SlotSystem :=
  { s with calls := s.calls.modify call fun c => { c with state := state } }

/-! ## The methods -/

/-- `claimSlot`: the callback is the position of its flag. -/
def claimSlot (s : SlotSystem) : SlotSystem × Nat :=
  let activeCount := s.pool.activeCount + 1
  ({ s with
      pool := { s.pool with
        activeCount := activeCount
        maxObservedConcurrency := max s.pool.maxObservedConcurrency activeCount }
      slots := s.slots ++ [false] }, s.slots.length)

/-- The loop of `release`, over the waiters that are left. -/
def serve (s : SlotSystem) : List Nat → SlotSystem
  | [] => { s with pool := { s.pool with waiters := [] } }
  | waiter :: waiters =>
    if s.pool.activeCount < s.pool.maxConcurrency then
      if s.isAborted waiter then
        serve (s.settle waiter (.rejected .aborted)) waiters
      else
        let (claimed, slot) :=
          claimSlot { s with pool := { s.pool with waiters := waiters } }
        claimed.settle waiter (.granted slot)
    else { s with pool := { s.pool with waiters := waiter :: waiters } }

/-- `release` -/
def release (s : SlotSystem) : SlotSystem :=
  serve { s with pool := { s.pool with activeCount := s.pool.activeCount - 1 } } s.pool.waiters

/-- A call of the callback that `claimSlot` returned. -/
def releaseCallback (s : SlotSystem) (slot : Nat) : SlotSystem :=
  if s.slots[slot]? = some false then release { s with slots := s.slots.set slot true }
  else s

/-- `acquire` up to its first suspension. -/
def acquire (s : SlotSystem) (signal : Option Nat) : SlotSystem :=
  if s.pool.disposed then { s with calls := s.calls ++ [⟨signal, .rejected .disposed⟩] }
  else if s.signalAborted signal then
    { s with calls := s.calls ++ [⟨signal, .rejected .aborted⟩] }
  else if s.pool.activeCount < s.pool.maxConcurrency then
    let (claimed, slot) := s.claimSlot
    { claimed with calls := claimed.calls ++ [⟨signal, .holding slot⟩] }
  else
    { s with
      pool := { s.pool with waiters := s.pool.waiters ++ [s.calls.length] }
      calls := s.calls ++ [⟨signal, .waiting⟩] }

/-- `acquire` after its promise was resolved with the callback of `slot`. -/
def resume (s : SlotSystem) (call slot : Nat) : SlotSystem :=
  if s.pool.disposed then (s.releaseCallback slot).settle call (.rejected .disposed)
  else if s.isAborted call then (s.releaseCallback slot).settle call (.rejected .aborted)
  else s.settle call (.holding slot)

/-- `onAbort`, the listener of a waiter. -/
def onAbort (s : SlotSystem) (call : Nat) : SlotSystem :=
  settle { s with pool := { s.pool with waiters := s.pool.waiters.erase call } } call
    (.rejected .aborted)

/-- `dispose` -/
def dispose (s : SlotSystem) : SlotSystem :=
  if s.pool.disposed then s
  else
    s.pool.waiters.foldl (fun t waiter => t.settle waiter (.rejected .disposed))
      { s with pool := { s.pool with disposed := true, waiters := [] } }

end SlotSystem

/-! ## The system -/

/-- What can happen next.  An abort signal first sets its flag and then calls its
listeners one by one, and a listener may release slots before the next one runs. -/
inductive Event
  /-- `acquire(signal)` is called -/
  | acquire (signal : Option Nat)
  /-- the abort flag of a signal is set -/
  | abort (signal : Nat)
  /-- the abort listener of a waiter runs -/
  | onAbort (call : Nat)
  /-- `acquire` continues after its promise was resolved -/
  | resume (call : Nat)
  /-- the holder calls its release callback, for the first time or again -/
  | release (call : Nat)
  /-- `dispose()` is called -/
  | dispose
  deriving DecidableEq, Repr

/-- One step; `none` if the event cannot happen.  The listener of a waiter is registered
as long as the waiter is queued. -/
def step (s : SlotSystem) : Event → Option SlotSystem
  | .acquire signal => some (s.acquire signal)
  | .abort signal => some { s with aborted := signal :: s.aborted }
  | .onAbort call =>
    if call ∈ s.pool.waiters ∧ s.isAborted call = true then some (s.onAbort call) else none
  | .resume call =>
    match s.state? call with
    | some (.granted slot) => some (s.resume call slot)
    | _ => none
  | .release call =>
    match s.state? call with
    | some (.holding slot) => some (s.releaseCallback slot)
    | _ => none
  | .dispose => some s.dispose

end BeauPi.Agents
