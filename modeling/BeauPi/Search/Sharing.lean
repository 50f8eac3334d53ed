import BeauPi.Machine.OrderedMap
import BeauPi.Search.Runtime

/-!
# Sharing a request

A call that finds a request for its key in the table waits for it instead of starting another one.
The calls stay apart as long as no request fails that another call waits for.

* `Calls.Shared` — what holds of the calls of one kind and their table.
* `Calls.Shared.begin`, `Calls.Shared.leave` — a request starts and ends.
* `Calls.Isolated` — every call has a result of its own, and the table has what is in flight.
* `run_isolated` — **it holds in every run without a shared failure**.
-/

namespace BeauPi.Search

open Machine SearchRuntime
open Option (bind_eq_some_iff map_eq_some_iff some.inj)

/-- No diagnostic says that something was cancelled. -/
def NoneCancelled (diagnostics : List SearchDiagnostic) : Prop :=
  ∀ d ∈ diagnostics, d.code ≠ .cancelled

theorem noneCancelled_nil : NoneCancelled [] := by simp [NoneCancelled]

variable {d : SearchDiagnostic}

theorem noneCancelled_singleton (h : d.code ≠ .cancelled) :
    NoneCancelled [d] := by
  intro d' hd
  rw [List.mem_singleton.1 hd]
  exact h

theorem noneCancelled_append {ds es : List SearchDiagnostic} (hds : NoneCancelled ds)
    (hes : NoneCancelled es) : NoneCancelled (ds ++ es) := by
  intro d hd
  rcases List.mem_append.1 hd with h | h
  · exact hds d h
  · exact hes d h

theorem noneCancelled_budget (kind : BudgetKind) (severity : SearchDiagnosticSeverity) :
    NoneCancelled [budgetDiagnostic kind severity] := noneCancelled_singleton nofun

/-! ## Calls and their table -/

/-- An error that says that something was cancelled comes from an aborted signal. -/
def Thrown.Honest (aborted : Bool) : Thrown → Prop
  | .searchRuntimeError d => d.code = .cancelled → aborted = true
  | .other byCode => byCode.code ≠ .cancelled

/-- Nothing is said to be cancelled without an aborted signal. -/
def Settled.Honest {α : Type} (aborted : Bool) : Settled α → Prop
  | .ok _ diagnostics => NoneCancelled diagnostics
  | .error thrown => thrown.Honest aborted

/-- The diagnostics of what is written and of what is returned. -/
structure Reports (ω ρ : Type) where
  written : ω → List SearchDiagnostic
  returned : ρ → List SearchDiagnostic

/-- A call is not rejected, and says that it was cancelled only when its own signal was aborted. -/
def Phase.Fine {α ω ρ : Type} (reports : Reports ω ρ) (aborted : Bool) : Phase α ω ρ → Prop
  | .readingCache _ => True
  | .removing _ diagnostics => NoneCancelled diagnostics
  | .joined _ _ diagnostics => NoneCancelled diagnostics
  | .owning _ diagnostics => NoneCancelled diagnostics
  | .writing output => NoneCancelled (reports.written output)
  | .returned result => NoneCancelled (reports.returned result) ∨ aborted = true
  | .rejected _ => False

variable {aborted : Bool}

theorem Phase.Fine.of_aborted {α ω ρ : Type} {reports : Reports ω ρ} {phase : Phase α ω ρ}
    (h : phase.Fine reports aborted) : phase.Fine reports true := by
  cases phase with
  | returned result => exact .inr rfl
  | rejected | readingCache | removing | joined | owning | writing => exact h

theorem Settled.Honest.of_aborted {α : Type} {outcome : Settled α} (h : outcome.Honest aborted) :
    outcome.Honest true := by
  cases outcome with
  | ok entry diagnostics => exact h
  | error thrown =>
    cases thrown with
    | searchRuntimeError d => exact fun _ => rfl
    | other byCode => exact h

namespace Calls

variable {ι α ω ρ : Type} {reports : Reports ω ρ} {c : Calls ι α ω ρ} {call : Call ι α ω ρ}
  {i : Nat} {key : String} {phase : Phase α ω ρ} {diagnostics : List SearchDiagnostic}

/-- No request that a call would join has failed. -/
def Shareable (c : Calls ι α ω ρ) (key : String) : Prop :=
  ∀ owner error, c.pending.get? key = some owner → c.outcome owner ≠ some (.error error)

/-- No call waits for the request of this one. -/
def Unshared (c : Calls ι α ω ρ) (owner : Nat) : Prop :=
  ∀ (i : Nat) (call : Call ι α ω ρ) key diagnostics, c.calls[i]? = some call →
    call.phase ≠ .joined key owner diagnostics

/-- The request of a call is in flight or has succeeded. -/
def Alive (c : Calls ι α ω ρ) (owner : Nat) : Prop :=
  ∃ call, c.calls[owner]? = some call ∧
    (call.settled = none → ∃ key diagnostics, call.phase = .owning key diagnostics) ∧
    ∀ error, call.settled ≠ some (.error error)

/-- What holds of the calls of one kind: the table has the requests in flight, by their owners, and
no call waits for a request that has failed. -/
structure Shared (reports : Reports ω ρ) (c : Calls ι α ω ρ) : Prop where
  fine : ∀ (i : Nat) (call : Call ι α ω ρ), c.calls[i]? = some call →
    call.phase.Fine reports call.context.aborted
  settled : ∀ (i : Nat) (call : Call ι α ω ρ) outcome, c.calls[i]? = some call →
    call.settled = some outcome → outcome.Honest call.context.aborted
  table : ∀ key i, c.pending.get? key = some i ↔
    ∃ call diagnostics, c.calls[i]? = some call ∧ call.phase = .owning key diagnostics
  joined : ∀ (i : Nat) (call : Call ι α ω ρ) key owner diagnostics, c.calls[i]? = some call →
    call.phase = .joined key owner diagnostics → c.Alive owner

theorem shared_initial : Shared reports (⟨[], .empty⟩ : Calls ι α ω ρ) := by
  constructor <;> simp

variable (h : c.Shared reports) (hcall : c.calls[i]? = some call)

include h hcall in
/-- A call goes from one phase to another; `pending` is the table after that. -/
theorem Shared.change
    (hfine : phase.Fine reports call.context.aborted) {pending : OrderedMap String Nat}
    (htable : ∀ key j, pending.get? key = some j ↔ (j ≠ i ∧ c.pending.get? key = some j) ∨
      (j = i ∧ ∃ diagnostics, phase = .owning key diagnostics))
    (hleave : (∃ key diagnostics, call.phase = .owning key diagnostics) → call.settled ≠ none)
    (hjoined : ∀ key owner diagnostics, phase = .joined key owner diagnostics → c.Alive owner) :
    Shared reports { c.setPhase i phase with pending := pending } := by
  have halive : ∀ owner, c.Alive owner →
      Alive { c.setPhase i phase with pending := pending } owner := by
    rintro owner ⟨old, hold, hsettled, hnever⟩
    refine ⟨_, getElem?_modify_eq.2 ⟨old, hold, rfl⟩, ?_⟩
    split
    · next heq =>
      subst heq
      obtain rfl := some.inj (hcall.symm.trans hold)
      exact ⟨fun hnone => absurd hnone (hleave (hsettled hnone)), hnever⟩
    · exact ⟨hsettled, hnever⟩
  constructor
  · intro j call' hj
    obtain ⟨old, hold, rfl⟩ := getElem?_modify_eq.1 hj
    split
    · next heq =>
      subst heq
      obtain rfl := some.inj (hcall.symm.trans hold)
      exact hfine
    · exact h.fine j old hold
  · intro j call' settledTo hj hsettled
    obtain ⟨old, hold, rfl⟩ := getElem?_modify_eq.1 hj
    have hsame : ∀ call : Call ι α ω ρ,
        (if i = j then { call with phase := phase } else call).settled = call.settled ∧
          (if i = j then { call with phase := phase } else call).context = call.context := by
      intro call
      split <;> exact ⟨rfl, rfl⟩
    rw [(hsame old).1] at hsettled
    rw [(hsame old).2]
    exact h.settled j old settledTo hold hsettled
  · intro key j
    rw [htable]
    constructor
    · rintro (⟨hne, hget⟩ | ⟨rfl, diagnostics, hphase⟩)
      · obtain ⟨old, diagnostics, hold, hphase⟩ := (h.table key j).1 hget
        exact ⟨old, diagnostics, getElem?_modify_eq.2 ⟨old, hold, by rw [if_neg (Ne.symm hne)]⟩,
          hphase⟩
      · exact ⟨{ call with phase := phase }, diagnostics,
          getElem?_modify_eq.2 ⟨call, hcall, by rw [if_pos rfl]⟩, hphase⟩
    · rintro ⟨call', diagnostics, hj, hphase⟩
      obtain ⟨old, hold, rfl⟩ := getElem?_modify_eq.1 hj
      by_cases heq : i = j
      · rw [if_pos heq] at hphase
        exact .inr ⟨heq.symm, diagnostics, hphase⟩
      · rw [if_neg heq] at hphase
        exact .inl ⟨Ne.symm heq, (h.table key j).2 ⟨old, diagnostics, hold, hphase⟩⟩
  · intro j call' key owner diagnostics hj hphase
    refine halive owner ?_
    obtain ⟨old, hold, rfl⟩ := getElem?_modify_eq.1 hj
    by_cases heq : i = j
    · rw [if_pos heq] at hphase
      exact hjoined key owner diagnostics hphase
    · rw [if_neg heq] at hphase
      exact h.joined j old key owner diagnostics hold hphase

include h hcall in
/-- A call without a request goes on without one. -/
theorem Shared.setPhase
    (hfine : phase.Fine reports call.context.aborted)
    (hbefore : ∀ key diagnostics, call.phase ≠ .owning key diagnostics)
    (hafter : ∀ key diagnostics, phase ≠ .owning key diagnostics)
    (hjoined : ∀ key owner diagnostics, phase = .joined key owner diagnostics → c.Alive owner) :
    Shared reports (c.setPhase i phase) := by
  refine h.change hcall hfine (fun key j => ⟨fun hget => .inl ⟨?_, hget⟩, ?_⟩)
    (fun ⟨key, diagnostics, hphase⟩ => absurd hphase (hbefore key diagnostics)) hjoined
  · rintro rfl
    obtain ⟨old, diagnostics, hold, hphase⟩ := (h.table key j).1 hget
    obtain rfl := some.inj (hcall.symm.trans hold)
    exact hbefore key diagnostics hphase
  · rintro (⟨-, hget⟩ | ⟨-, diagnostics, hphase⟩)
    · exact hget
    · exact absurd hphase (hafter key diagnostics)

include h hcall in
/-- **A request starts** when there is none for its key. -/
theorem Shared.begin
    (hbefore : ∀ key diagnostics, call.phase ≠ .owning key diagnostics)
    (hnone : c.pending.get? key = none) (hdiagnostics : NoneCancelled diagnostics) :
    Shared reports (c.begin i key diagnostics) := by
  have hfine : (Phase.owning key diagnostics : Phase α ω ρ).Fine reports call.context.aborted :=
    hdiagnostics
  refine h.change hcall hfine (fun other j => ?_)
    (fun ⟨key, diagnostics, hphase⟩ => absurd hphase (hbefore key diagnostics)) nofun
  rw [OrderedMap.get?_set]
  constructor
  · intro hget
    split at hget
    · next heq =>
      subst heq
      exact .inr ⟨(some.inj hget).symm, diagnostics, rfl⟩
    · refine .inl ⟨?_, hget⟩
      rintro rfl
      obtain ⟨old, diagnostics, hold, hphase⟩ := (h.table other j).1 hget
      obtain rfl := some.inj (hcall.symm.trans hold)
      exact hbefore other diagnostics hphase
  · rintro (⟨-, hget⟩ | ⟨rfl, ds, hphase⟩)
    · have hne : other ≠ key := by
        rintro rfl
        rw [hnone] at hget
        cases hget
      rw [if_neg hne, hget]
    · cases hphase
      rw [if_pos rfl]

include h hcall in
/-- **A request ends** with its owner. -/
theorem Shared.leave
    (howning : call.phase = .owning key diagnostics) (hsettled : call.settled ≠ none)
    (hfine : phase.Fine reports call.context.aborted)
    (hafter : ∀ key diagnostics, phase ≠ .owning key diagnostics)
    (hjoined : ∀ key owner diagnostics, phase ≠ .joined key owner diagnostics) :
    Shared reports ((c.delete key).setPhase i phase) := by
  refine h.change (c := c) hcall hfine (fun other j => ?_) (fun _ => hsettled)
    (fun key owner ds heq => absurd heq (hjoined key owner ds))
  show (c.pending.delete key).get? other = some j ↔ _
  rw [OrderedMap.get?_delete]
  have howner : c.pending.get? key = some i := (h.table key i).2 ⟨call, diagnostics, hcall, howning⟩
  constructor
  · intro hget
    split at hget
    · cases hget
    · next hne =>
      refine .inl ⟨?_, hget⟩
      rintro rfl
      obtain ⟨old, ds, hold, hphase⟩ := (h.table other j).1 hget
      obtain rfl := some.inj (hcall.symm.trans hold)
      rw [howning] at hphase
      cases hphase
      exact hne rfl
  · rintro (⟨hne, hget⟩ | ⟨-, ds, hphase⟩)
    · have hother : other ≠ key := by
        rintro rfl
        rw [howner] at hget
        exact hne (some.inj hget).symm
      rw [if_neg hother, hget]
    · exact absurd hphase (hafter other ds)

/-- A new call, which has no request yet. -/
theorem Shared.add (h : c.Shared reports) (input : ι) (context : CallContext)
    (hfine : phase.Fine reports context.aborted)
    (howning : ∀ key diagnostics, phase ≠ .owning key diagnostics)
    (hjoined : ∀ key owner diagnostics, phase ≠ .joined key owner diagnostics) :
    Shared reports (c.add input context phase) := by
  constructor
  · intro j call hj
    rcases getElem?_concat_eq.1 hj with hold | ⟨-, rfl⟩
    · exact h.fine j call hold
    · exact hfine
  · intro j call settledTo hj hsettled
    rcases getElem?_concat_eq.1 hj with hold | ⟨-, rfl⟩
    · exact h.settled j call settledTo hold hsettled
    · cases hsettled
  · intro key j
    show c.pending.get? key = some j ↔ _
    rw [h.table]
    constructor
    · rintro ⟨call, diagnostics, hold, hphase⟩
      exact ⟨call, diagnostics, getElem?_concat_eq.2 (.inl hold), hphase⟩
    · rintro ⟨call, diagnostics, hj, hphase⟩
      rcases getElem?_concat_eq.1 hj with hold | ⟨-, rfl⟩
      · exact ⟨call, diagnostics, hold, hphase⟩
      · exact absurd hphase (howning key diagnostics)
  · intro j call key owner diagnostics hj hphase
    rcases getElem?_concat_eq.1 hj with hold | ⟨-, rfl⟩
    · obtain ⟨owned, howned, halive⟩ := h.joined j call key owner diagnostics hold hphase
      exact ⟨owned, getElem?_concat_eq.2 (.inl howned), halive⟩
    · exact absurd hphase (hjoined key owner diagnostics)

/-- The signal of a call is aborted. -/
theorem Shared.abort (h : c.Shared reports) (i : Nat) : Shared reports (c.abort i) := by
  constructor
  · intro j call hj
    obtain ⟨old, hold, rfl⟩ := getElem?_modify_eq.1 hj
    split
    · exact (h.fine j old hold).of_aborted
    · exact h.fine j old hold
  · intro j call settledTo hj hsettled
    obtain ⟨old, hold, rfl⟩ := getElem?_modify_eq.1 hj
    split at hsettled
    · next heq =>
      rw [if_pos heq]
      exact (h.settled j old settledTo hold hsettled).of_aborted
    · next hne =>
      rw [if_neg hne]
      exact h.settled j old settledTo hold hsettled
  · intro key j
    show c.pending.get? key = some j ↔ _
    rw [h.table]
    constructor
    · rintro ⟨call, diagnostics, hold, hphase⟩
      refine ⟨_, diagnostics, getElem?_modify_eq.2 ⟨call, hold, rfl⟩, ?_⟩
      split
      · exact hphase
      · exact hphase
    · rintro ⟨call, diagnostics, hj, hphase⟩
      obtain ⟨old, hold, rfl⟩ := getElem?_modify_eq.1 hj
      refine ⟨old, diagnostics, hold, ?_⟩
      split at hphase
      · exact hphase
      · exact hphase
  · intro j call key owner diagnostics hj hphase
    obtain ⟨old, hold, rfl⟩ := getElem?_modify_eq.1 hj
    have hjoined : old.phase = .joined key owner diagnostics := by
      split at hphase
      · exact hphase
      · exact hphase
    obtain ⟨owned, howned, halive⟩ := h.joined j old key owner diagnostics hold hjoined
    refine ⟨_, getElem?_modify_eq.2 ⟨owned, howned, rfl⟩, ?_⟩
    split
    · exact halive
    · exact halive

include h hcall in
/-- A request is settled, and with an error only when no other call waits for it. -/
theorem Shared.settle
    {outcome : Settled α} (hhonest : outcome.Honest call.context.aborted)
    (hunshared : ∀ error, outcome = .error error → c.Unshared i) :
    Shared reports (c.settle i outcome) := by
  constructor
  · intro j call' hj
    obtain ⟨old, hold, rfl⟩ := getElem?_modify_eq.1 hj
    split
    · exact h.fine j old hold
    · exact h.fine j old hold
  · intro j call' settledTo hj hsettled
    obtain ⟨old, hold, rfl⟩ := getElem?_modify_eq.1 hj
    split at hsettled
    · next heq =>
      subst heq
      rw [if_pos rfl]
      obtain rfl := some.inj (hcall.symm.trans hold)
      obtain rfl := some.inj hsettled
      exact hhonest
    · next hne =>
      rw [if_neg hne]
      exact h.settled j old settledTo hold hsettled
  · intro key j
    show c.pending.get? key = some j ↔ _
    rw [h.table]
    constructor
    · rintro ⟨old, diagnostics, hold, hphase⟩
      refine ⟨_, diagnostics, getElem?_modify_eq.2 ⟨old, hold, rfl⟩, ?_⟩
      split
      · exact hphase
      · exact hphase
    · rintro ⟨call', diagnostics, hj, hphase⟩
      obtain ⟨old, hold, rfl⟩ := getElem?_modify_eq.1 hj
      refine ⟨old, diagnostics, hold, ?_⟩
      split at hphase
      · exact hphase
      · exact hphase
  · intro j call' key owner diagnostics hj hphase
    obtain ⟨old, hold, rfl⟩ := getElem?_modify_eq.1 hj
    have hjoined : old.phase = .joined key owner diagnostics := by
      split at hphase
      · exact hphase
      · exact hphase
    obtain ⟨owned, howned, halive⟩ := h.joined j old key owner diagnostics hold hjoined
    refine ⟨_, getElem?_modify_eq.2 ⟨owned, howned, rfl⟩, ?_⟩
    split
    · next heq =>
      subst heq
      refine ⟨nofun, fun error herror => ?_⟩
      exact hunshared error (some.inj herror) j old key diagnostics hold hjoined
    · exact halive

/-- A new call does not change whether a request can be joined. -/
theorem Shareable.add (h : c.Shareable key) (input : ι) (context : CallContext)
    (phase : Phase α ω ρ) : (c.add input context phase).Shareable key := by
  intro owner error hget heq
  obtain ⟨call, hcall, hsettled⟩ := bind_eq_some_iff.1 heq
  rcases getElem?_concat_eq.1 hcall with hold | ⟨-, rfl⟩
  · exact h owner error hget (bind_eq_some_iff.2 ⟨call, hold, hsettled⟩)
  · cases hsettled

/-- The owner of a request that can be joined is alive. -/
theorem Shared.alive (h : c.Shared reports) (hshareable : c.Shareable key) {owner : Nat}
    (hget : c.pending.get? key = some owner) : c.Alive owner := by
  obtain ⟨call, diagnostics, hcall, hphase⟩ := (h.table key owner).1 hget
  refine ⟨call, hcall, fun _ => ⟨key, diagnostics, hphase⟩, fun error hsettled => ?_⟩
  exact hshareable owner error hget (bind_eq_some_iff.2 ⟨call, hcall, hsettled⟩)

/-- Every call of one kind has a result of its own, and the table has what is in flight: a call that
waits for another one waits for a request that is in flight or has succeeded, no call is rejected, a
call that says that it was cancelled was, and a request is in the table exactly while its owner
waits for it. -/
structure Isolated (reports : Reports ω ρ) (c : Calls ι α ω ρ) : Prop where
  joined : ∀ (i : Nat) (call : Call ι α ω ρ) key owner diagnostics, c.calls[i]? = some call →
    call.phase = .joined key owner diagnostics → c.Alive owner
  answered : ∀ (i : Nat) (call : Call ι α ω ρ) error, c.calls[i]? = some call →
    call.phase ≠ .rejected error
  own : ∀ (i : Nat) (call : Call ι α ω ρ) result, c.calls[i]? = some call →
    call.phase = .returned result → (∃ d ∈ reports.returned result, d.code = .cancelled) →
      call.context.aborted = true
  table : ∀ key i, c.pending.get? key = some i ↔
    ∃ call diagnostics, c.calls[i]? = some call ∧ call.phase = .owning key diagnostics

theorem Shared.isolate (h : c.Shared reports) : c.Isolated reports := by
  refine ⟨h.joined, fun i call error hcall hphase => ?_,
    fun i call result hcall hphase hcancelled => ?_, h.table⟩
  · have hfine := h.fine i call hcall
    rw [hphase] at hfine
    exact hfine
  · have hfine := h.fine i call hcall
    rw [hphase] at hfine
    obtain ⟨d, hd, hcode⟩ := hcancelled
    exact hfine.resolve_left fun hnone => hnone d hd hcode

end Calls

/-! ## The runtime -/

/-- The diagnostics of searches. -/
def searchReports : Reports Empty SearchExecutionResult := ⟨nofun, (·.diagnostics)⟩

/-- The diagnostics of fetches. -/
def fetchReports : Reports FullOutput FetchExecutionResult := ⟨(·.diagnostics), (·.diagnostics)⟩

/-- Does a read leave the call without an entry? -/
def CacheRead.Misses {α : Type} : CacheRead α → Prop
  | .entry _ => False
  | .malformed => False
  | _ => True

/-- **No request fails while another call waits for it**, and no call joins a request that has
failed. -/
def WithoutSharedFailure (host : Host) (s : SearchRuntime) : SearchRuntime.Event → Prop
  | .search input context => context.config.queryTtlMs = 0 →
      s.searches.Shareable (queryCacheKey host input context.config)
  | .searchRead i read => read.Misses → ∀ call, s.searches.calls[i]? = some call →
      s.searches.Shareable (queryCacheKey host call.input call.context.config)
  | .searchRemoved i => ∀ call, s.searches.calls[i]? = some call →
      s.searches.Shareable (queryCacheKey host call.input call.context.config)
  | .searchSettled i (.threw _ _) => s.searches.Unshared i
  | .fetch input context => context.config.fetchTtlMs = 0 →
      ∀ requestedUrl, host.canonicalizeWebUrl input = some requestedUrl →
        s.fetches.Shareable requestedUrl
  | .fetchRead i read => read.Misses → ∀ call requestedUrl, s.fetches.calls[i]? = some call →
      call.phase = .readingCache requestedUrl → s.fetches.Shareable requestedUrl
  | .fetchRemoved i => ∀ call requestedUrl diagnostics, s.fetches.calls[i]? = some call →
      call.phase = .removing requestedUrl diagnostics → s.fetches.Shareable requestedUrl
  | .fetchSettled i (.threw _ _) => s.fetches.Unshared i
  | _ => True

/-- Has the request failed? -/
def Settled.failed {α : Type} : Settled α → Bool
  | .ok .. => false
  | .error _ => true

theorem Settled.failed_iff {α : Type} {outcome : Settled α} :
    outcome.failed = true ↔ ∃ error, outcome = .error error := by
  cases outcome <;> simp [Settled.failed]

/-- The key whose cached entry a call reads. -/
def Phase.reading? {α ω ρ : Type} : Phase α ω ρ → Option String
  | .readingCache key => some key
  | _ => none

/-- The key whose cached entry a call removes. -/
def Phase.removing? {α ω ρ : Type} : Phase α ω ρ → Option String
  | .removing key _ => some key
  | _ => none

/-- The call whose request a call waits for. -/
def Phase.joined? {α ω ρ : Type} : Phase α ω ρ → Option Nat
  | .joined _ owner _ => some owner
  | _ => none

section
variable {ι α ω ρ : Type} {c : Calls ι α ω ρ} {key : String} {owner : Nat}

instance : Decidable (c.Shareable key) :=
  decidable_of_iff (∀ owner ∈ c.pending.get? key, ∀ outcome ∈ c.outcome owner,
      ¬outcome.failed = true)
    ⟨fun h owner error howner houtcome => h owner howner _ houtcome rfl,
      fun h owner howner outcome houtcome hfailed => by
        obtain ⟨error, rfl⟩ := Settled.failed_iff.1 hfailed
        exact h owner error howner houtcome⟩

instance : Decidable (c.Unshared owner) :=
  decidable_of_iff (∀ call ∈ c.calls, call.phase.joined? ≠ some owner)
    ⟨fun h i call key diagnostics hcall hphase =>
        h call (List.mem_of_getElem? hcall) (by rw [hphase]; rfl),
      fun h call hmem hjoined => by
        obtain ⟨i, hcall⟩ := List.mem_iff_getElem?.1 hmem
        cases hphase : call.phase with
        | joined key other diagnostics =>
          rw [hphase] at hjoined
          obtain rfl : other = owner := some.inj hjoined
          exact h i call key diagnostics hcall hphase
        | _ =>
          rw [hphase] at hjoined
          cases hjoined⟩

end

instance {α : Type} : (read : CacheRead α) → Decidable read.Misses
  | .entry _ | .malformed => isFalse id
  | .missing | .expired | .readFailed | .corrupt => isTrue trivial

instance (host : Host) (s : SearchRuntime) :
    (e : SearchRuntime.Event) → Decidable (WithoutSharedFailure host s e)
  | .search input context => inferInstanceAs (Decidable (context.config.queryTtlMs = 0 →
      s.searches.Shareable (queryCacheKey host input context.config)))
  | .searchRead i read => inferInstanceAs (Decidable (read.Misses →
      ∀ call ∈ s.searches.calls[i]?,
        s.searches.Shareable (queryCacheKey host call.input call.context.config)))
  | .searchRemoved i => inferInstanceAs (Decidable (∀ call ∈ s.searches.calls[i]?,
      s.searches.Shareable (queryCacheKey host call.input call.context.config)))
  | .searchSettled i (.threw _ _) => inferInstanceAs (Decidable (s.searches.Unshared i))
  | .fetch input context => inferInstanceAs (Decidable (context.config.fetchTtlMs = 0 →
      ∀ requestedUrl ∈ host.canonicalizeWebUrl input, s.fetches.Shareable requestedUrl))
  | .fetchRead i read => decidable_of_iff (read.Misses →
        ∀ call ∈ s.fetches.calls[i]?, ∀ key ∈ call.phase.reading?, s.fetches.Shareable key)
      ⟨fun h hmisses call key hcall hphase => h hmisses call hcall key (by rw [hphase]; rfl),
        fun h hmisses call hcall key hkey => by
          cases hphase : call.phase with
          | readingCache requestedUrl =>
            rw [hphase] at hkey
            obtain rfl : requestedUrl = key := some.inj hkey
            exact h hmisses call requestedUrl hcall hphase
          | _ =>
            rw [hphase] at hkey
            cases hkey⟩
  | .fetchRemoved i => decidable_of_iff
      (∀ call ∈ s.fetches.calls[i]?, ∀ key ∈ call.phase.removing?, s.fetches.Shareable key)
      ⟨fun h call key diagnostics hcall hphase => h call hcall key (by rw [hphase]; rfl),
        fun h call hcall key hkey => by
          cases hphase : call.phase with
          | removing requestedUrl diagnostics =>
            rw [hphase] at hkey
            obtain rfl : requestedUrl = key := some.inj hkey
            exact h call requestedUrl diagnostics hcall hphase
          | _ =>
            rw [hphase] at hkey
            cases hkey⟩
  | .fetchSettled i (.threw _ _) => inferInstanceAs (Decidable (s.fetches.Unshared i))
  | .searchSettled _ (.ok ..) | .fetchSettled _ (.ok ..) | .append .. | .synchronizeBudget _
  | .searchResumed _ | .searchAborted _ | .fetchResumed _ | .fetchAborted _ | .fetchWritten .. =>
    isTrue trivial

/-- The calls of both kinds are apart. -/
structure Separate (s : SearchRuntime) : Prop where
  searches : s.searches.Shared searchReports
  fetches : s.fetches.Shared fetchReports

variable {host : Host} {s t : SearchRuntime} {i : Nat} {context : CallContext}

/-! ## Errors -/

variable {error : Thrown}

variable {timedOut : Bool}

theorem classified_cancelled (h : error.Honest aborted)
    (hcode : (classifyNetworkError error aborted timedOut).code = .cancelled) : aborted = true := by
  cases error with
  | searchRuntimeError d => exact h hcode
  | other byCode =>
    rw [classifyNetworkError] at hcode
    split at hcode
    · next haborted => exact haborted
    · split at hcode
      · cases hcode
      · exact absurd hcode h

variable {diagnostics : List SearchDiagnostic}

/-- What the classification of an error says was cancelled was. -/
theorem fine_failure (hdiagnostics : NoneCancelled diagnostics) (h : error.Honest aborted) :
    NoneCancelled (diagnostics ++ [classifyNetworkError error aborted false]) ∨ aborted = true := by
  by_cases hcode : (classifyNetworkError error aborted false).code = .cancelled
  · exact .inr (classified_cancelled h hcode)
  · refine .inl (noneCancelled_append hdiagnostics fun d hd => ?_)
    rw [List.mem_singleton.1 hd]
    exact hcode

theorem honest_thrown {α : Type}
    (h : (SearchRuntime.NetworkOutcome.threw error timedOut : SearchRuntime.NetworkOutcome α).honest
      aborted = true) :
    error.Honest aborted := by
  cases error with
  | searchRuntimeError d =>
    intro hcode
    simpa [SearchRuntime.NetworkOutcome.honest, hcode] using h
  | other byCode =>
    have hcode : byCode.code ≠ .cancelled := of_decide_eq_true h
    exact hcode

theorem honest_ok {α : Type} {entry : SearchCacheEntry α}
    (h : (SearchRuntime.NetworkOutcome.ok entry diagnostics).honest aborted = true) :
    NoneCancelled diagnostics := by
  intro d hd
  simpa using List.all_eq_true.1 h d hd

theorem settledSearch_honest {outcome : SearchRuntime.NetworkOutcome CachedSearchValue}
    (h : outcome.honest aborted = true) :
    (settledSearch aborted outcome).Honest aborted := by
  cases outcome with
  | ok entry diagnostics => exact honest_ok h
  | threw error timedOut => exact fun hcode => classified_cancelled (honest_thrown h) hcode

theorem settledFetch_honest {outcome : SearchRuntime.NetworkOutcome CachedFetchValue}
    (h : outcome.honest aborted = true) :
    (settledFetch outcome).Honest aborted := by
  cases outcome with
  | ok entry diagnostics => exact honest_ok h
  | threw error timedOut => exact honest_thrown h

/-! ## Searches -/

variable {search : Call SearchInput CachedSearchValue Empty SearchExecutionResult}
  {fetch : Call String CachedFetchValue FullOutput FetchExecutionResult}
  {diagnostics : List SearchDiagnostic}

/-- The diagnostics of results that were cut. -/
theorem noneCancelled_truncated (hdiagnostics : NoneCancelled diagnostics) (truncated : Prop)
    [Decidable truncated] (severity : SearchDiagnosticSeverity) :
    NoneCancelled (diagnostics ++
      if truncated then [budgetDiagnostic .inputCharacters severity] else []) := by
  refine noneCancelled_append hdiagnostics ?_
  split
  · exact noneCancelled_budget _ _
  · exact noneCancelled_nil

theorem requestSearch_separate (h : Separate s) (hcall : s.searches.calls[i]? = some search)
    (hbefore : ∀ key diagnostics, search.phase ≠ .owning key diagnostics)
    (hdiagnostics : NoneCancelled diagnostics) (input : SearchInput) (context : CallContext)
    (hshareable : s.searches.Shareable (queryCacheKey host input context.config)) :
    Separate (s.requestSearch host i input context diagnostics) := by
  rw [requestSearch]
  dsimp only
  split
  · next owner hget =>
    refine ⟨h.searches.setPhase hcall hdiagnostics hbefore nofun ?_, h.fetches⟩
    rintro key owner' ds ⟨⟩
    exact h.searches.alive hshareable hget
  · next hnone =>
    split
    · refine ⟨h.searches.setPhase hcall (.inl ?_) hbefore nofun nofun, h.fetches⟩
      exact noneCancelled_append hdiagnostics (noneCancelled_budget _ _)
    · exact ⟨h.searches.begin hcall hbefore hnone hdiagnostics, h.fetches⟩

theorem finishSearch_separate (h : Separate s) (hcall : s.searches.calls[i]? = some search)
    (hbefore : ∀ key diagnostics, search.phase ≠ .owning key diagnostics)
    (hdiagnostics : NoneCancelled diagnostics) (input : SearchInput) (context : CallContext)
    (entry : SearchCacheEntry CachedSearchValue) (cacheStatus : SearchCacheStatus) :
    Separate (s.finishSearch host i input context entry cacheStatus diagnostics) := by
  refine ⟨h.searches.setPhase hcall (.inl ?_) hbefore nofun nofun, h.fetches⟩
  exact noneCancelled_truncated hdiagnostics _ _

variable {key : String}

variable {outcome : Settled CachedSearchValue}

theorem searchOwned_separate (h : Separate s) (hcall : s.searches.calls[i]? = some search)
    (howning : search.phase = .owning key diagnostics) (hsettled : search.settled = some outcome) :
    Separate (s.searchOwned host i search.input search.context key diagnostics outcome) := by
  have hdiagnostics : NoneCancelled diagnostics := by
    have hfine := h.searches.fine i search hcall
    rw [howning] at hfine
    exact hfine
  have hhonest := h.searches.settled i search outcome hcall hsettled
  have hsome : search.settled ≠ none := by simp [hsettled]
  cases outcome with
  | ok entry shared =>
    refine ⟨h.searches.leave hcall howning hsome (.inl ?_) nofun nofun, h.fetches⟩
    exact noneCancelled_truncated (noneCancelled_append hdiagnostics hhonest) _ _
  | error error =>
    exact ⟨h.searches.leave hcall howning hsome (fine_failure hdiagnostics hhonest) nofun nofun,
      h.fetches⟩

variable {owner : Nat}

theorem searchJoined_separate (h : Separate s) (hcall : s.searches.calls[i]? = some search)
    (hjoined : search.phase = .joined key owner diagnostics)
    (houtcome : s.searches.outcome owner = some outcome) :
    Separate (s.searchJoined host i search.input search.context diagnostics outcome) := by
  have hdiagnostics : NoneCancelled diagnostics := by
    have hfine := h.searches.fine i search hcall
    rw [hjoined] at hfine
    exact hfine
  obtain ⟨owned, howned, hsettled⟩ := bind_eq_some_iff.1 houtcome
  cases outcome with
  | ok entry shared =>
    have hshared : NoneCancelled shared := h.searches.settled owner owned _ howned hsettled
    exact finishSearch_separate h hcall (by rw [hjoined]; exact nofun)
      (noneCancelled_append hdiagnostics hshared) _ _ _ _
  | error error =>
    obtain ⟨owned', howned', -, hnever⟩ := h.searches.joined i search _ _ _ hcall hjoined
    obtain rfl := some.inj (howned.symm.trans howned')
    exact absurd hsettled (hnever error)

theorem synchronizeContext_separate (h : Separate s) (context : CallContext) :
    Separate (s.synchronizeContext context) := by
  rw [synchronizeContext]
  split
  · exact ⟨h.searches, h.fetches⟩
  · exact h

theorem searchRefused_code {input : SearchInput} {exhausted : Option BudgetKind}
    (h : searchRefused host input context = some (d, exhausted)) :
    NoneCancelled [d] := by
  refine noneCancelled_singleton ?_
  rw [searchRefused] at h
  split_ifs at h
  all_goals
    cases h
    exact nofun

theorem providerMissing_code {config : ResolvedSearchConfig}
    (h : providerMissing host config = some d) : NoneCancelled [d] := by
  refine noneCancelled_singleton ?_
  rw [providerMissing] at h
  split_ifs at h
  all_goals
    cases h
    exact nofun

theorem search_separate (h : Separate s) (input : SearchInput) (context : CallContext)
    (hwithout : WithoutSharedFailure host s (.search input context)) :
    Separate (s.search host input context) := by
  have hwithout' : context.config.queryTtlMs = 0 → (s.synchronizeContext context).searches.Shareable
      (queryCacheKey host input context.config) := by
    intro hzero
    have heq : (s.synchronizeContext context).searches = s.searches := by
      rw [synchronizeContext]
      split <;> rfl
    rw [heq]
    exact hwithout hzero
  have h' := synchronizeContext_separate h context
  rw [search]
  generalize s.synchronizeContext context = s at h' hwithout' ⊢
  dsimp only
  have hreturned : ∀ result : SearchExecutionResult, NoneCancelled result.diagnostics →
      (s.searches.add input context (.returned result)).Shared searchReports :=
    fun result hresult => h'.searches.add input context (.inl hresult) nofun nofun
  split
  · next d exhausted hrefused => exact ⟨hreturned _ (searchRefused_code hrefused), h'.fetches⟩
  · split
    · exact ⟨hreturned _ (noneCancelled_budget _ _), h'.fetches⟩
    · split
      · exact ⟨hreturned _ (noneCancelled_budget _ _), h'.fetches⟩
      · split
        · next d hmissing => exact ⟨hreturned _ (providerMissing_code hmissing), h'.fetches⟩
        · next budget _ _ _ _ =>
          have hadded : Separate { s with
              budget := budget
              ledger := s.ledger ++ [.query context.budgetScopeId]
              searches := s.searches.add input context
                (.readingCache (queryCacheKey host input context.config)) } :=
            ⟨h'.searches.add input context trivial nofun nofun, h'.fetches⟩
          split
          · exact hadded
          · next hzero =>
            refine requestSearch_separate hadded (getElem?_concat_eq.2 (.inr ⟨rfl, rfl⟩)) nofun
              noneCancelled_nil input context ?_
            exact (hwithout' (Nat.eq_zero_of_not_pos hzero)).add _ _ _

theorem searchRead_separate (h : Separate s) (hcall : s.searches.calls[i]? = some search)
    (hphase : search.phase = .readingCache key) {read : CacheRead CachedSearchValue}
    (hwithout : read.Misses → s.searches.Shareable (queryCacheKey host search.input
      search.context.config)) :
    Separate (s.searchRead host i search.input search.context key read) := by
  have hbefore : ∀ key diagnostics, search.phase ≠ .owning key diagnostics := by
    rw [hphase]
    exact nofun
  have hcorrupt : NoneCancelled [corruptCacheDiagnostic] := noneCancelled_singleton nofun
  have hfailed : NoneCancelled [cacheReadFailedDiagnostic] := noneCancelled_singleton nofun
  cases read with
  | entry entry => exact finishSearch_separate h hcall hbefore noneCancelled_nil _ _ _ _
  | malformed => exact ⟨h.searches.setPhase hcall hcorrupt hbefore nofun nofun, h.fetches⟩
  | missing | expired =>
    exact requestSearch_separate h hcall hbefore noneCancelled_nil _ _ (hwithout trivial)
  | readFailed => exact requestSearch_separate h hcall hbefore hfailed _ _ (hwithout trivial)
  | corrupt => exact requestSearch_separate h hcall hbefore hcorrupt _ _ (hwithout trivial)

variable {e : SearchRuntime.Event}

theorem stepSearch_separate (h : Separate s) (hcall : s.searches.calls[i]? = some search)
    (hwithout : WithoutSharedFailure host s e)
    (he : e = .searchAborted i ∨ (∃ read, e = .searchRead i read) ∨ e = .searchRemoved i ∨ (∃
      outcome, e = .searchSettled i outcome) ∨ e = .searchResumed i)
    (hstep : s.stepSearch host i search e = some t) : Separate t := by
  obtain rfl | ⟨read, rfl⟩ | rfl | ⟨outcome, rfl⟩ | rfl := he
  · obtain rfl := some.inj hstep
    exact ⟨h.searches.abort i, h.fetches⟩
  · rw [stepSearch] at hstep
    split at hstep
    · next key hphase =>
      obtain rfl := some.inj hstep
      exact searchRead_separate h hcall hphase fun hmisses => hwithout hmisses search hcall
    · cases hstep
  · rw [stepSearch] at hstep
    split at hstep
    · next key diagnostics hphase =>
      obtain rfl := some.inj hstep
      have hfine := h.searches.fine i search hcall
      rw [hphase] at hfine
      exact requestSearch_separate h hcall (by rw [hphase]; exact nofun) hfine _ _
        (hwithout search hcall)
    · cases hstep
  · rw [stepSearch] at hstep
    split at hstep
    · split at hstep
      · next honest =>
        obtain rfl := some.inj hstep
        refine ⟨h.searches.settle hcall (settledSearch_honest honest) fun error herror => ?_,
          h.fetches⟩
        cases outcome with
        | ok entry diagnostics => cases herror
        | threw error timedOut => exact hwithout
      · cases hstep
    · cases hstep
  · rw [stepSearch] at hstep
    split at hstep
    · next key diagnostics hphase =>
      obtain ⟨outcome, hsettled, rfl⟩ := map_eq_some_iff.1 hstep
      exact searchOwned_separate h hcall hphase hsettled
    · next key owner diagnostics hphase =>
      obtain ⟨outcome, houtcome, rfl⟩ := map_eq_some_iff.1 hstep
      exact searchJoined_separate h hcall hphase houtcome
    · cases hstep

/-! ## Fetches -/

variable {output : FullOutput}

theorem deliverFetch_phase (s : SearchRuntime) (i : Nat) (context : CallContext)
    (path : Option String) (hdiagnostics : NoneCancelled output.diagnostics) :
    ∃ result, (s.deliverFetch i context output path).fetches =
        s.fetches.setPhase i (.returned result) ∧
      (s.deliverFetch i context output path).searches = s.searches ∧
        NoneCancelled (fetchReports.returned result) :=
  ⟨_, rfl, rfl, noneCancelled_truncated hdiagnostics _ _⟩

/-- The end of a fetch is a result, or a file that is written. -/
theorem finishFetch_phase (s : SearchRuntime) (i : Nat) (requestedUrl : String)
    (context : CallContext) (entry : SearchCacheEntry CachedFetchValue)
    (cacheStatus : SearchCacheStatus) (hdiagnostics : NoneCancelled diagnostics) :
    ∃ phase : Phase CachedFetchValue FullOutput FetchExecutionResult,
      (s.finishFetch i requestedUrl context entry cacheStatus diagnostics).fetches =
        s.fetches.setPhase i phase ∧
      (s.finishFetch i requestedUrl context entry cacheStatus diagnostics).searches = s.searches ∧
      (∀ aborted, phase.Fine fetchReports aborted) ∧
      (∀ key diagnostics, phase ≠ .owning key diagnostics) ∧
      ∀ key owner diagnostics, phase ≠ .joined key owner diagnostics := by
  rw [finishFetch]
  dsimp only
  split
  · exact ⟨_, rfl, rfl, fun _ => hdiagnostics, nofun, nofun⟩
  · generalize houtput : FullOutput.mk requestedUrl entry cacheStatus diagnostics _ _ _ = output
    have hnone : NoneCancelled output.diagnostics := by
      rw [← houtput]
      exact hdiagnostics
    obtain ⟨result, hfetches, hsearches, hresult⟩ := deliverFetch_phase s i context none hnone
    exact ⟨.returned result, hfetches, hsearches, fun _ => .inl hresult, nofun, nofun⟩

variable (h : Separate s) (hcall : s.fetches.calls[i]? = some fetch)

include h hcall in
theorem finishFetch_separate
    (hbefore : ∀ key diagnostics, fetch.phase ≠ .owning key diagnostics)
    (hdiagnostics : NoneCancelled diagnostics) (requestedUrl : String) (context : CallContext)
    (entry : SearchCacheEntry CachedFetchValue) (cacheStatus : SearchCacheStatus) :
    Separate (s.finishFetch i requestedUrl context entry cacheStatus diagnostics) := by
  obtain ⟨phase, hfetches, hsearches, hfine, howning, hjoined⟩ :=
    finishFetch_phase s i requestedUrl context entry cacheStatus hdiagnostics
  refine ⟨by rw [hsearches]; exact h.searches, ?_⟩
  rw [hfetches]
  exact h.fetches.setPhase hcall (hfine _) hbefore howning
    fun key owner ds heq => absurd heq (hjoined key owner ds)

variable {requestedUrl : String}

include h hcall in
theorem requestFetch_separate
    (hbefore : ∀ key diagnostics, fetch.phase ≠ .owning key diagnostics)
    (hdiagnostics : NoneCancelled diagnostics) (hshareable : s.fetches.Shareable requestedUrl) :
    Separate (s.requestFetch i requestedUrl diagnostics) := by
  rw [requestFetch]
  split
  · next owner hget =>
    refine ⟨h.searches, h.fetches.setPhase hcall hdiagnostics hbefore nofun ?_⟩
    rintro key owner' ds ⟨⟩
    exact h.fetches.alive hshareable hget
  · next hnone => exact ⟨h.searches, h.fetches.begin hcall hbefore hnone hdiagnostics⟩

include h hcall in
theorem fetchOwned_separate
    (howning : fetch.phase = .owning requestedUrl diagnostics) {outcome : Settled CachedFetchValue}
    (hsettled : fetch.settled = some outcome) :
    Separate (s.fetchOwned i fetch.context requestedUrl diagnostics outcome) := by
  have hdiagnostics : NoneCancelled diagnostics := by
    have hfine := h.fetches.fine i fetch hcall
    rw [howning] at hfine
    exact hfine
  have hhonest := h.fetches.settled i fetch outcome hcall hsettled
  have hsome : fetch.settled ≠ none := by simp [hsettled]
  cases outcome with
  | ok entry shared =>
    obtain ⟨phase, hfetches, hsearches, hfine, hnotOwning, hjoined⟩ := finishFetch_phase
      { s with fetches := s.fetches.delete requestedUrl } i requestedUrl fetch.context entry
      (cacheStatusFor fetch.context.config.fetchTtlMs) (noneCancelled_append hdiagnostics hhonest)
    refine ⟨?_, ?_⟩
    · show (finishFetch _ _ _ _ _ _ _).searches.Shared _
      rw [hsearches]
      exact h.searches
    · show (finishFetch _ _ _ _ _ _ _).fetches.Shared _
      rw [hfetches]
      exact h.fetches.leave hcall howning hsome (hfine _) hnotOwning hjoined
  | error error =>
    exact ⟨h.searches, h.fetches.leave hcall howning hsome (fine_failure hdiagnostics hhonest)
      nofun nofun⟩

include h hcall in
theorem fetchJoined_separate
    (hjoined : fetch.phase = .joined requestedUrl owner diagnostics)
    {outcome : Settled CachedFetchValue} (houtcome : s.fetches.outcome owner = some outcome) :
    Separate (s.fetchJoined i fetch.context requestedUrl diagnostics outcome) := by
  have hdiagnostics : NoneCancelled diagnostics := by
    have hfine := h.fetches.fine i fetch hcall
    rw [hjoined] at hfine
    exact hfine
  obtain ⟨owned, howned, hsettled⟩ := bind_eq_some_iff.1 houtcome
  cases outcome with
  | ok entry shared =>
    have hshared : NoneCancelled shared := h.fetches.settled owner owned _ howned hsettled
    exact finishFetch_separate h hcall (by rw [hjoined]; exact nofun)
      (noneCancelled_append hdiagnostics hshared) _ _ _ _
  | error error =>
    obtain ⟨owned', howned', -, hnever⟩ := h.fetches.joined i fetch _ _ _ hcall hjoined
    obtain rfl := some.inj (howned.symm.trans howned')
    exact absurd hsettled (hnever error)

theorem fetch_separate (h : Separate s) (input : String) (context : CallContext)
    (hwithout : WithoutSharedFailure host s (.fetch input context)) :
    Separate (s.fetch host input context) := by
  have hwithout' : context.config.fetchTtlMs = 0 →
      ∀ requestedUrl, host.canonicalizeWebUrl input = some requestedUrl →
        (s.synchronizeContext context).fetches.Shareable requestedUrl := by
    have heq : (s.synchronizeContext context).fetches = s.fetches := by
      rw [synchronizeContext]
      split <;> rfl
    rw [heq]
    exact hwithout
  have h' := synchronizeContext_separate h context
  rw [SearchRuntime.fetch]
  generalize s.synchronizeContext context = s at h' hwithout' ⊢
  dsimp only
  have hreturned : ∀ result : FetchExecutionResult, NoneCancelled result.diagnostics →
      (s.fetches.add input context (.returned result)).Shared fetchReports :=
    fun result hresult => h'.fetches.add input context (.inl hresult) nofun nofun
  split
  · exact ⟨h'.searches, hreturned _ (noneCancelled_singleton nofun)⟩
  · split
    · exact ⟨h'.searches, hreturned _ (noneCancelled_budget _ _)⟩
    · split
      · exact ⟨h'.searches, hreturned _ (noneCancelled_budget _ _)⟩
      · split
        · exact ⟨h'.searches, hreturned _ (noneCancelled_singleton nofun)⟩
        · next budget _ _ _ requestedUrl hurl =>
          have hadded : Separate { s with
              budget := budget
              ledger := s.ledger ++ [.fetch context.budgetScopeId]
              fetches := s.fetches.add input context (.readingCache requestedUrl) } :=
            ⟨h'.searches, h'.fetches.add input context trivial nofun nofun⟩
          split
          · exact hadded
          · next hzero =>
            refine requestFetch_separate hadded (getElem?_concat_eq.2 (.inr ⟨rfl, rfl⟩)) nofun
              noneCancelled_nil ?_
            exact (hwithout' (Nat.eq_zero_of_not_pos hzero) requestedUrl hurl).add _ _ _

include h hcall in
theorem fetchRead_separate
    (hphase : fetch.phase = .readingCache requestedUrl) {read : CacheRead CachedFetchValue}
    (hwithout : read.Misses → s.fetches.Shareable requestedUrl) :
    Separate (s.fetchRead i fetch.context requestedUrl read) := by
  have hbefore : ∀ key diagnostics, fetch.phase ≠ .owning key diagnostics := by
    rw [hphase]
    exact nofun
  have hcorrupt : NoneCancelled [corruptCacheDiagnostic] := noneCancelled_singleton nofun
  have hfailed : NoneCancelled [cacheReadFailedDiagnostic] := noneCancelled_singleton nofun
  cases read with
  | entry entry => exact finishFetch_separate h hcall hbefore noneCancelled_nil _ _ _ _
  | malformed => exact ⟨h.searches, h.fetches.setPhase hcall hcorrupt hbefore nofun nofun⟩
  | missing | expired => exact requestFetch_separate h hcall hbefore noneCancelled_nil (hwithout trivial)
  | readFailed => exact requestFetch_separate h hcall hbefore hfailed (hwithout trivial)
  | corrupt => exact requestFetch_separate h hcall hbefore hcorrupt (hwithout trivial)

include h hcall in
theorem fetchWritten_separate
    (hphase : fetch.phase = .writing output) (path : String) :
    Separate (s.deliverFetch i fetch.context output (some path)) := by
  have hdiagnostics : NoneCancelled output.diagnostics := by
    have hfine := h.fetches.fine i fetch hcall
    rw [hphase] at hfine
    exact hfine
  obtain ⟨result, hfetches, hsearches, hnone⟩ :=
    deliverFetch_phase s i fetch.context (some path) hdiagnostics
  refine ⟨by rw [hsearches]; exact h.searches, ?_⟩
  rw [hfetches]
  exact h.fetches.setPhase hcall (.inl hnone) (by rw [hphase]; exact nofun) nofun nofun

/-! ## Steps and runs -/

include h hcall in
theorem stepFetch_separate
    (hwithout : WithoutSharedFailure host s e)
    (he : e = .fetchAborted i ∨ (∃ read, e = .fetchRead i read) ∨ e = .fetchRemoved i ∨ (∃ outcome,
      e = .fetchSettled i outcome) ∨ e = .fetchResumed i ∨ ∃ path, e = .fetchWritten i path)
    (hstep : s.stepFetch i fetch e = some t) : Separate t := by
  obtain rfl | ⟨read, rfl⟩ | rfl | ⟨outcome, rfl⟩ | rfl | ⟨path, rfl⟩ := he
  · obtain rfl := some.inj hstep
    exact ⟨h.searches, h.fetches.abort i⟩
  · rw [stepFetch] at hstep
    split at hstep
    · next requestedUrl hphase =>
      obtain rfl := some.inj hstep
      exact fetchRead_separate h hcall hphase
        fun hmisses => hwithout hmisses fetch requestedUrl hcall hphase
    · cases hstep
  · rw [stepFetch] at hstep
    split at hstep
    · next requestedUrl diagnostics hphase =>
      obtain rfl := some.inj hstep
      have hfine := h.fetches.fine i fetch hcall
      rw [hphase] at hfine
      exact requestFetch_separate h hcall (by rw [hphase]; exact nofun) hfine
        (hwithout fetch requestedUrl diagnostics hcall hphase)
    · cases hstep
  · rw [stepFetch] at hstep
    split at hstep
    · split at hstep
      · next honest =>
        obtain rfl := some.inj hstep
        refine ⟨h.searches, h.fetches.settle hcall (settledFetch_honest honest)
          fun error herror => ?_⟩
        cases outcome with
        | ok entry diagnostics => cases herror
        | threw error timedOut => exact hwithout
      · cases hstep
    · cases hstep
  · rw [stepFetch] at hstep
    split at hstep
    · next requestedUrl diagnostics hphase =>
      obtain ⟨outcome, hsettled, rfl⟩ := map_eq_some_iff.1 hstep
      exact fetchOwned_separate h hcall hphase hsettled
    · next requestedUrl owner diagnostics hphase =>
      obtain ⟨outcome, houtcome, rfl⟩ := map_eq_some_iff.1 hstep
      exact fetchJoined_separate h hcall hphase houtcome
    · cases hstep
  · rw [stepFetch] at hstep
    split at hstep
    · next output hphase =>
      obtain rfl := some.inj hstep
      exact fetchWritten_separate h hcall hphase path
    · cases hstep

/-- **A step keeps the calls apart** when no shared request fails in it. -/
theorem step_separate (h : Separate s) (hwithout : WithoutSharedFailure host s e)
    (hstep : SearchRuntime.step host s e = some t) :
    Separate t := by
  have hsearch : ∀ i, (e = .searchAborted i ∨ (∃ read, e = .searchRead i read) ∨
      e = .searchRemoved i ∨ (∃ outcome, e = .searchSettled i outcome) ∨ e = .searchResumed i) →
      ((s.searches.calls[i]?).bind fun call => s.stepSearch host i call e) = some t →
        Separate t := by
    intro i he hbind
    obtain ⟨call, hcall, hstep⟩ := bind_eq_some_iff.1 hbind
    exact stepSearch_separate h hcall hwithout he hstep
  have hfetch : ∀ i, (e = .fetchAborted i ∨ (∃ read, e = .fetchRead i read) ∨
      e = .fetchRemoved i ∨ (∃ outcome, e = .fetchSettled i outcome) ∨ e = .fetchResumed i ∨
        ∃ path, e = .fetchWritten i path) →
      ((s.fetches.calls[i]?).bind fun call => s.stepFetch i call e) = some t → Separate t := by
    intro i he hbind
    obtain ⟨call, hcall, hstep⟩ := bind_eq_some_iff.1 hbind
    exact stepFetch_separate h hcall hwithout he hstep
  cases e with
  | append | synchronizeBudget =>
    obtain rfl := some.inj hstep
    exact ⟨h.searches, h.fetches⟩
  | search input context =>
    obtain rfl := some.inj hstep
    exact search_separate h input context hwithout
  | fetch input context =>
    obtain rfl := some.inj hstep
    exact fetch_separate h input context hwithout
  | searchRead i | searchRemoved i | searchSettled i | searchResumed i | searchAborted i =>
    exact hsearch i (by simp) hstep
  | fetchRead i | fetchRemoved i | fetchSettled i | fetchResumed i | fetchAborted i
  | fetchWritten i => exact hfetch i (by simp) hstep

/-- **Sharing a request isolates its callers** in every run in which no shared request fails. -/
theorem SearchRuntime.run_isolated (host : Host) (branches : String → List SessionEntry)
    (es : List SearchRuntime.Event) (s : SearchRuntime)
    (hrun : runFrom (SearchRuntime.step host) (SearchRuntime.initial branches) es = some s)
    (hwithout : Along (SearchRuntime.step host) (fun s e _ => WithoutSharedFailure host s e)
      (SearchRuntime.initial branches) es) :
    s.searches.Isolated searchReports ∧ s.fetches.Isolated fetchReports := by
  have hseparate : Separate s :=
    runFrom_invariant
      (fun s e t h (hstep : SearchRuntime.step host s e = some t) hwithout =>
        step_separate h hwithout hstep)
      es _ s ⟨Calls.shared_initial, Calls.shared_initial⟩ hwithout hrun
  exact ⟨hseparate.searches.isolate, hseparate.fetches.isolate⟩

/-- Two tasks fetch one page, and the second one waits for the request of the first; a third fetch
fails, and the signal of the second one is aborted. -/
def sharedRequest : List SearchRuntime.Event :=
  [.fetch "https://host/" taskContext,
    .fetch "https://host/" { taskContext with budgetScopeId := "other" },
    .fetch "https://gone/" { taskContext with budgetScopeId := "third" },
    .fetchRead 0 .missing, .fetchRead 1 .missing, .fetchRead 2 .corrupt, .fetchAborted 1,
    .fetchSettled 2 (.threw (.searchRuntimeError
      { code := .connection, severity := .error, message := "gone" }) false),
    .fetchSettled 0 (.ok (page [97]) []), .fetchResumed 1, .fetchResumed 0, .fetchResumed 2]

/-- Is the call answered with a page? -/
def answeredOk (call : Call String CachedFetchValue FullOutput FetchExecutionResult) :
    Option Bool :=
  match call.phase with
  | .returned result => some result.ok
  | _ => none

/-- Both callers of the shared request have the page; only the third call has failed. -/
theorem SearchRuntime.run_isolated_sharedRequest : ∃ s,
    runFrom (SearchRuntime.step plainHost) (SearchRuntime.initial fun _ => []) sharedRequest =
      some s ∧
    s.fetches.calls.map answeredOk = [some true, some true, some false] ∧
    s.searches.Isolated searchReports ∧ s.fetches.Isolated fetchReports := by
  have hanswers : (runFrom (SearchRuntime.step plainHost) (SearchRuntime.initial fun _ => [])
      sharedRequest).map (fun s => s.fetches.calls.map answeredOk) =
        some [some true, some true, some false] := by
    decide +kernel
  obtain ⟨s, hrun, hanswered⟩ := Option.map_eq_some_iff.1 hanswers
  exact ⟨s, hrun, hanswered, run_isolated plainHost _ _ s hrun (by decide +kernel)⟩

/-- The error of an aborted request. -/
def cancelledError : Thrown :=
  .searchRuntimeError
    { code := .cancelled, severity := .error, message := "The network operation was cancelled." }

/-- **A fetch that waits for the request of another fetch is rejected when the signal of that one is
aborted.** -/
theorem abortedOwner_not_isolated :
    ¬∀ (host : Host) (branches : String → List SessionEntry) (es : List SearchRuntime.Event)
      (s : SearchRuntime),
      runFrom (SearchRuntime.step host) (SearchRuntime.initial branches) es = some s →
      s.searches.Isolated searchReports ∧ s.fetches.Isolated fetchReports := by
  intro h
  have hphase : (runFrom (SearchRuntime.step plainHost) (SearchRuntime.initial fun _ => [])
      [.fetch "https://host/" taskContext, .fetch "https://host/" taskContext,
        .fetchRead 0 .missing, .fetchRead 1 .missing, .fetchAborted 0,
        .fetchSettled 0 (.threw cancelledError false), .fetchResumed 0,
        .fetchResumed 1]).map (fun s => (s.fetches.calls[1]?).map (·.phase)) =
      some (some (.rejected cancelledError)) := by decide
  obtain ⟨s, hrun, heq⟩ := Option.map_eq_some_iff.1 hphase
  obtain ⟨call, hcall, hrejected⟩ := Option.map_eq_some_iff.1 heq
  exact (h plainHost _ _ s hrun).2.answered 1 call cancelledError hcall hrejected

end BeauPi.Search
