import BeauPi.Monitor.Runtime
import Mathlib.Logic.Relation

/-!
# Monitoring: what the methods do to records

Every method of the runtime works on record objects in a few ways only: it changes data that
is not about the end of the target, persists, makes a transition, or registers a new record.
The proofs about runs know these moves and unfold no method.

* `Registered` — the record object is the one that the registry has under its id.
* `Move`, `Moves` — one such change, and a sequence of them, of registered record objects.
* `Moves.attach`, `Moves.update`, … — the methods make moves only.
-/

namespace BeauPi.Monitor

open Machine MonitorSystem

variable {host : Host} {s t u : MonitorSystem} {cell : Nat} {now : ℚ}

/-! ## Transitions of a record -/

theorem transition_refused {record : MonitorRecord} {status : MonitorStatus}
    (h : transitionAllowed record.status status = false) (reason : MonitorEventReason)
    (extra : ExitFacts) (timestamp : ℚ) :
    transition record status reason extra timestamp = ⟨record, false, false⟩ := by
  rw [transition, if_pos h]

@[simp] theorem transition_id (record : MonitorRecord) (status : MonitorStatus)
    (reason : MonitorEventReason) (extra : ExitFacts) (timestamp : ℚ) :
    (transition record status reason extra timestamp).record.id = record.id := by
  unfold transition
  split
  · rfl
  · dsimp only
    split_ifs <;> rfl

/-- A record that has ended stays ended. -/
theorem transition_stays {record : MonitorRecord} (h : isMonitorTerminal record.status = true)
    (status : MonitorStatus) (reason : MonitorEventReason) (extra : ExitFacts) (timestamp : ℚ) :
    isMonitorTerminal (transition record status reason extra timestamp).record.status = true := by
  by_cases hallowed : transitionAllowed record.status status = false
  · rw [transition_refused hallowed]
    exact h
  · -- a terminal status allows itself only
    have hsame : record.status = status := by
      by_contra hne
      exact hallowed (by simp [transitionAllowed, hne, h])
    have hstatus : (transition record status reason extra timestamp).record.status = status := by
      unfold transition
      rw [if_neg hallowed]
      dsimp only
      split_ifs <;> rfl
    rw [hstatus, ← hsame]
    exact h

/-! ## Registered records -/

/-- The record object is the one that the registry has under its id. -/
def Registered (s : MonitorSystem) (cell : Nat) : Prop :=
  ∃ c, s.cells[cell]? = some c ∧ s.registry.get? c.record.id = some cell

/-- The registry refers to record objects, under their ids. -/
def RegistryRefers (s : MonitorSystem) : Prop :=
  ∀ id cell, s.registry.get? id = some cell → ∃ c, s.cells[cell]? = some c ∧ c.record.id = id

theorem RegistryRefers.registered (h : RegistryRefers s) {id : String}
    (hid : s.registry.get? id = some cell) : Registered s cell := by
  obtain ⟨c, hc, rfl⟩ := h id cell hid
  exact ⟨c, hc, hid⟩

/-- The record object changed in data that is not about the end of its target. -/
structure SameFacts (before after : MonitorRecord) : Prop where
  id : after.id = before.id
  facts : after.facts = before.facts
  lastEventKey : after.lastEventKey = before.lastEventKey

theorem SameFacts.refl (record : MonitorRecord) : SameFacts record record := ⟨rfl, rfl, rfl⟩

theorem SameFacts.trans {first second third : MonitorRecord} (h : SameFacts first second)
    (h' : SameFacts second third) : SameFacts first third :=
  ⟨h'.id.trans h.id, h'.facts.trans h.facts, h'.lastEventKey.trans h.lastEventKey⟩

/-- A record that was just made. -/
structure NewRecord (record : MonitorRecord) : Prop where
  status : record.status = .starting
  exit : record.exit = .none
  completedAt : record.completedAt = none
  lastEventKey : record.lastEventKey = none

/-- One change, of a registered record object. -/
inductive Move : MonitorSystem → MonitorSystem → Prop
  | touch {s : MonitorSystem} {cell : Nat} {c : Cell} {change : MonitorRecord → MonitorRecord} :
      s.cells[cell]? = some c → Registered s cell → SameFacts c.record (change c.record) →
      Move s (s.modify cell change)
  | persist {s : MonitorSystem} {cell : Nat} (now : ℚ) :
      Registered s cell → Move s (s.persist now cell)
  | transition {s : MonitorSystem} {cell : Nat} (now : ℚ) (status : MonitorStatus)
      (reason : MonitorEventReason) (extra : ExitFacts) (timestamp : ℚ) :
      Registered s cell → Move s (s.transitionAt now cell status reason extra timestamp).1
  | register {s : MonitorSystem} {record : MonitorRecord} :
      s.registry.get? record.id = none → NewRecord record → Move s (s.register ⟨record, none⟩)
  /-- the tools that have not ended change, and adapters are called or answer -/
  | book {s : MonitorSystem} {calls : List AdapterCall}
      (tools : OrderedMap String PendingToolExecution) :
      (∀ call ∈ calls, call ∈ s.adapterCalls ∨ Registered s call.cell) →
      Move s { s with pendingToolExecutions := tools, adapterCalls := calls }

/-- A sequence of moves. -/
abbrev Moves : MonitorSystem → MonitorSystem → Prop := Relation.ReflTransGen Move

/-! ## What the moves leave alone -/

namespace MonitorSystem

@[simp] theorem persist_cells (s : MonitorSystem) (now : ℚ) (cell : Nat) :
    (s.persist now cell).cells = s.cells := by
  unfold persist
  split <;> rfl

@[simp] theorem persist_registry (s : MonitorSystem) (now : ℚ) (cell : Nat) :
    (s.persist now cell).registry = s.registry := by
  unfold persist
  split <;> rfl

@[simp] theorem persist_calls (s : MonitorSystem) (now : ℚ) (cell : Nat) :
    (s.persist now cell).calls = s.calls := by
  unfold persist
  split <;> rfl

@[simp] theorem persist_adapterCalls (s : MonitorSystem) (now : ℚ) (cell : Nat) :
    (s.persist now cell).adapterCalls = s.adapterCalls := by
  unfold persist
  split <;> rfl

theorem persist_eq {c : Cell} (hc : s.cells[cell]? = some c) :
    s.persist now cell = { s with
      branch := s.branch ++ [snapshot now c.record], output := s.output ++ [.persisted cell] } := by
  rw [persist, hc]

/-- The record object after a transition. -/
def moved (c : Cell) (status : MonitorStatus) (reason : MonitorEventReason) (extra : ExitFacts)
    (timestamp : ℚ) : Cell :=
  { record := (transition c.record status reason extra timestamp).record
    supplied := (suppliedFacts c.record (transition c.record status reason extra timestamp).record
      extra timestamp).or c.supplied }

/-- The system after a transition, before it is persisted and emitted. -/
def movedTo (s : MonitorSystem) (cell : Nat) (c : Cell) (status : MonitorStatus)
    (reason : MonitorEventReason) (extra : ExitFacts) (timestamp : ℚ) : MonitorSystem :=
  { s with
    cells := s.cells.set cell (moved c status reason extra timestamp)
    calls := s.calls ++ [⟨c.record, status, extra⟩] }

/-- **A transition**: it is persisted and emitted, or neither. -/
theorem transitionAt_eq {c : Cell} (hc : s.cells[cell]? = some c) (now : ℚ) (status : MonitorStatus)
    (reason : MonitorEventReason) (extra : ExitFacts) (timestamp : ℚ) :
    ((transition c.record status reason extra timestamp).emits = true ∧
      ∃ event, (s.transitionAt now cell status reason extra timestamp).1 =
        { (s.movedTo cell c status reason extra timestamp).persist now cell with
          eventQueue := s.eventQueue ++ [(cell, event)] }) ∨
    ((transition c.record status reason extra timestamp).emits = false ∧
      (s.transitionAt now cell status reason extra timestamp).1 =
        s.movedTo cell c status reason extra timestamp) := by
  have hlt : cell < s.cells.length := (List.getElem?_eq_some_iff.1 hc).1
  unfold transitionAt
  rw [hc]
  cases hemits : (transition c.record status reason extra timestamp).emits with
  | true =>
    have hmoved : (s.movedTo cell c status reason extra timestamp).cells[cell]? =
        some (moved c status reason extra timestamp) := by simp [movedTo, hlt]
    let record := (transition c.record status reason extra timestamp).record
    refine .inl ⟨rfl, ⟨record.id, record.status, if c.record.status = status then none else
      some c.record.status, reason, timestamp, record.exit⟩, ?_⟩
    simp only [hemits, if_true]
    show (((s.movedTo cell c status reason extra timestamp).persist now cell).emitStatus ..) = _
    rw [persist_eq hmoved]
    rfl
  | false => exact .inr ⟨rfl, by simp only [hemits]; rfl⟩

/-- The cells and the registry after a transition. -/
theorem transitionAt_cells {c : Cell} (hc : s.cells[cell]? = some c) (now : ℚ) (status : MonitorStatus)
    (reason : MonitorEventReason) (extra : ExitFacts) (timestamp : ℚ) :
    (s.transitionAt now cell status reason extra timestamp).1.cells =
        s.cells.set cell (moved c status reason extra timestamp) ∧
      (s.transitionAt now cell status reason extra timestamp).1.registry = s.registry := by
  rcases transitionAt_eq hc now status reason extra timestamp with ⟨-, event, h⟩ | ⟨-, h⟩
  · rw [h]
    simp [movedTo]
  · rw [h]
    simp [movedTo]

@[simp] theorem transitionAt_adapterCalls (s : MonitorSystem) (now : ℚ) (cell : Nat)
    (status : MonitorStatus) (reason : MonitorEventReason) (extra : ExitFacts) (timestamp : ℚ) :
    (s.transitionAt now cell status reason extra timestamp).1.adapterCalls = s.adapterCalls := by
  cases hc : s.cells[cell]? with
  | none => rw [transitionAt, hc]
  | some c =>
    rcases transitionAt_eq hc now status reason extra timestamp with ⟨-, event, h⟩ | ⟨-, h⟩
    · rw [h]
      simp [movedTo]
    · rw [h]
      rfl

end MonitorSystem

/-- The record objects of a move: the old ones keep their ids, and those that have ended stay
ended. -/
theorem Move.kept_cells (h : Move s t) {c : Cell} (hc : s.cells[cell]? = some c) :
    ∃ c', t.cells[cell]? = some c' ∧ c'.record.id = c.record.id ∧
      (isMonitorTerminal c.record.status = true → isMonitorTerminal c'.record.status = true) := by
  cases h with
  | @touch other d change hd _ hsame =>
    by_cases heq : other = cell
    · subst heq
      rw [hd] at hc
      cases hc
      have hstatus : (change c.record).status = c.record.status :=
        congrArg TerminalFacts.status hsame.facts
      refine ⟨{ c with record := change c.record }, ?_, hsame.id, by rw [hstatus]; exact id⟩
      simp [MonitorSystem.modify, hd]
    · refine ⟨c, ?_, rfl, id⟩
      simp [MonitorSystem.modify, heq, hc]
  | persist => exact ⟨c, by simpa using hc, rfl, id⟩
  | @transition other now status reason extra timestamp hregistered =>
    obtain ⟨d, hd, -⟩ := hregistered
    have hlt : other < s.cells.length := (List.getElem?_eq_some_iff.1 hd).1
    rw [(transitionAt_cells hd now status reason extra timestamp).1]
    by_cases heq : other = cell
    · subst heq
      rw [hd] at hc
      cases hc
      refine ⟨MonitorSystem.moved c status reason extra timestamp, by simp [hlt], ?_, ?_⟩
      · exact transition_id ..
      · exact fun h => transition_stays h ..
    · exact ⟨c, by simp [heq, hc], rfl, id⟩
  | register => exact ⟨c, by simp [MonitorSystem.register, List.getElem?_append_left
      (List.getElem?_eq_some_iff.1 hc).1, hc], rfl, id⟩
  | book => exact ⟨c, hc, rfl, id⟩

/-- What is registered stays registered. -/
theorem Move.kept_registry (h : Move s t) {id : String} (hid : s.registry.get? id = some cell) :
    t.registry.get? id = some cell := by
  cases h with
  | touch => exact hid
  | persist => simpa using hid
  | transition now status reason extra timestamp hregistered =>
    obtain ⟨d, hd, -⟩ := hregistered
    rw [(transitionAt_cells hd now status reason extra timestamp).2]
    exact hid
  | @register record hnone _ =>
    have hne : id ≠ record.id := by
      rintro rfl
      rw [hnone] at hid
      cases hid
    rw [MonitorSystem.register, OrderedMap.get?_set_ne _ _ hne]
    exact hid
  | book => exact hid

theorem Move.registered (h : Move s t) (hcell : Registered s cell) : Registered t cell := by
  obtain ⟨c, hc, hid⟩ := hcell
  obtain ⟨c', hc', hsame, -⟩ := h.kept_cells hc
  exact ⟨c', hc', hsame ▸ h.kept_registry hid⟩

theorem Moves.registered (h : Moves s t) (hcell : Registered s cell) : Registered t cell := by
  induction h with
  | refl => exact hcell
  | tail _ hmove ih => exact hmove.registered ih

/-- A move keeps the registry in order. -/
theorem Move.registryRefers (h : Move s t) (hs : RegistryRefers s) : RegistryRefers t := by
  intro id cell hid
  by_cases hold : s.registry.get? id = some cell
  · obtain ⟨c, hc, rfl⟩ := hs id cell hold
    obtain ⟨c', hc', hsame, -⟩ := h.kept_cells hc
    exact ⟨c', hc', hsame⟩
  · cases h with
    | touch => exact absurd hid hold
    | persist => exact absurd (by simpa using hid) hold
    | transition now status reason extra timestamp hregistered =>
      obtain ⟨d, hd, -⟩ := hregistered
      rw [(transitionAt_cells hd now status reason extra timestamp).2] at hid
      exact absurd hid hold
    | @register record _ _ =>
      -- the new record object
      simp only [MonitorSystem.register, OrderedMap.get?_set] at hid
      by_cases heq : id = record.id
      · rw [if_pos heq] at hid
        cases hid
        exact ⟨⟨record, none⟩, by simp [MonitorSystem.register], heq.symm⟩
      · rw [if_neg heq] at hid
        exact absurd hid hold
    | book => exact absurd hid hold

theorem Moves.registryRefers (h : Moves s t) (hs : RegistryRefers s) : RegistryRefers t := by
  induction h with
  | refl => exact hs
  | tail _ hmove ih => exact hmove.registryRefers ih

/-- The operations under way hold registered record objects. -/
def CallsRegistered (s : MonitorSystem) : Prop :=
  ∀ call ∈ s.adapterCalls, Registered s call.cell

theorem Move.callsRegistered (h : Move s t) (hs : CallsRegistered s) : CallsRegistered t := by
  intro call hmem
  apply h.registered
  cases h with
  | touch => exact hs call hmem
  | persist => exact hs call (by simpa using hmem)
  | transition now status reason extra timestamp hregistered =>
    obtain ⟨d, hd, -⟩ := hregistered
    rw [transitionAt_adapterCalls] at hmem
    exact hs call hmem
  | register => exact hs call hmem
  | book tools hcalls => exact (hcalls call hmem).elim (hs call) id

/-! ## The methods make moves -/

namespace Moves

/-- A change of a registered record object that is not about the end of its target. -/
theorem modify {change : MonitorRecord → MonitorRecord} (h : Registered s cell)
    (hsame : ∀ record, SameFacts record (change record)) : Moves s (s.modify cell change) := by
  obtain ⟨c, hc, hid⟩ := h
  exact .single (.touch hc ⟨c, hc, hid⟩ (hsame c.record))

theorem persist (now : ℚ) (h : Registered s cell) : Moves s (s.persist now cell) :=
  .single (.persist now h)

theorem transitionAt (now : ℚ) (status : MonitorStatus) (reason : MonitorEventReason)
    (extra : ExitFacts) (timestamp : ℚ) (h : Registered s cell) :
    Moves s (s.transitionAt now cell status reason extra timestamp).1 :=
  .single (.transition now status reason extra timestamp h)

/-- The tools that have not ended change. -/
theorem tools (tools : OrderedMap String PendingToolExecution) :
    Moves s { s with pendingToolExecutions := tools } :=
  .single (.book tools fun _ hmem => .inl hmem)

theorem appendActivity (now : ℚ) (activity : MonitorActivity) (h : Registered s cell) :
    Moves s (s.appendActivity now cell activity) := by
  have hmodify := modify h fun record =>
    (⟨rfl, rfl, rfl⟩ : SameFacts record (recordActivity activity record))
  exact hmodify.trans (persist now (hmodify.registered h))

theorem sameFacts_addDiagnostic (diagnostic : String) (record : MonitorRecord) :
    SameFacts record (MonitorSystem.addDiagnostic diagnostic record).1 := by
  unfold MonitorSystem.addDiagnostic
  split_ifs
  · exact .refl record
  · exact ⟨rfl, rfl, rfl⟩

/-- A record object that was just registered. -/
theorem registered_register (s : MonitorSystem) (c : Cell) :
    Registered (s.register c) s.cells.length :=
  ⟨c, by simp [MonitorSystem.register], by simp [MonitorSystem.register]⟩

/-- `attach` finds a record or makes one; either is registered then. -/
theorem attach (host : Host) (hs : RegistryRefers s) (now : ℚ) (input : MonitorRecordInput) :
    Moves s (s.attach host now input).1 ∧
      ∀ cell, (s.attach host now input).2 = some cell →
        Registered (s.attach host now input).1 cell := by
  unfold MonitorSystem.attach
  split_ifs
  · exact ⟨.refl, by simp⟩
  · dsimp only
    split
    · rename_i found hfound
      refine ⟨.refl, ?_⟩
      intro cell hcell
      cases hcell
      exact hs.registered hfound
    · rename_i hnone
      have hregister : Moves s (s.register ⟨s.newRecord _ input (input.createdAt.getD now), none⟩) :=
        .single (.register hnone ⟨rfl, rfl, rfl, rfl⟩)
      have hnew := registered_register s
        ⟨s.newRecord (input.id.getD (host.stableMonitorId s.sessionId input.target)) input
          (input.createdAt.getD now), none⟩
      have hmove := transitionAt now .starting .attached .none (input.createdAt.getD now) hnew
      refine ⟨hregister.trans hmove, ?_⟩
      intro cell hcell
      cases hcell
      exact hmove.registered hnew

/-- A transition, and the record persisted if nothing else did that. -/
theorem transitionAt_persist (now : ℚ) (status : MonitorStatus) (reason : MonitorEventReason)
    (extra : ExitFacts) (timestamp : ℚ) (factsChanged : Bool) (h : Registered s cell) :
    Moves s (if factsChanged && !(s.transitionAt now cell status reason extra timestamp).2 then
      (s.transitionAt now cell status reason extra timestamp).1.persist now cell
    else (s.transitionAt now cell status reason extra timestamp).1) := by
  have hmove := transitionAt now status reason extra timestamp h
  split_ifs
  · exact hmove.trans (persist now (hmove.registered h))
  · exact hmove

theorem update (hs : RegistryRefers s) (now : ℚ) (monitorId : String)
    (update : MonitorRecordUpdate) : Moves s (s.update now monitorId update) := by
  unfold MonitorSystem.update
  split
  · exact .refl
  · rename_i cell hcell
    have hregistered := hs.registered hcell
    have hdiagnosed : Moves s _ := modify hregistered
      (sameFacts_addDiagnostic (update.diagnostic.getD ""))
    cases update.activity with
    | none =>
      exact hdiagnosed.trans
        (transitionAt_persist now _ _ _ _ _ (hdiagnosed.registered hregistered))
    | some activity =>
      have h : Moves s _ :=
        hdiagnosed.trans (appendActivity now activity (hdiagnosed.registered hregistered))
      exact h.trans (transitionAt_persist now _ _ _ _ _ (h.registered hregistered))

/-! ### Adapters -/

theorem sameFacts_diagnostics (diagnostics : List String) :
    ∀ noted : MonitorRecord × Bool,
      SameFacts noted.1 (diagnostics.foldl noteDiagnostic noted).1 := by
  induction diagnostics with
  | nil => intro noted; exact .refl _
  | cons diagnostic diagnostics ih =>
    intro noted
    have hfirst : SameFacts noted.1 (noteDiagnostic noted diagnostic).1 :=
      sameFacts_addDiagnostic diagnostic noted.1
    exact hfirst.trans (ih _)

/-- What a snapshot says apart from the status is not about the end of the target. -/
theorem sameFacts_adapterFacts (answer : MonitorAdapterSnapshot) (record : MonitorRecord) :
    SameFacts record (adapterFacts answer record).1 := by
  have hlogPath : SameFacts record (noteLogPath answer record).1 := by
    unfold noteLogPath
    split
    · split_ifs
      · exact ⟨rfl, rfl, rfl⟩
      · exact .refl record
    · exact .refl record
  have hresources : ∀ noted : MonitorRecord × Bool,
      SameFacts noted.1 (noteResources answer noted).1 := by
    intro noted
    unfold noteResources
    split_ifs
    · exact ⟨rfl, rfl, rfl⟩
    · exact .refl _
  have hactivity : ∀ noted : MonitorRecord × Bool,
      SameFacts noted.1 (noteActivity answer noted).1 := by
    intro noted
    unfold noteActivity
    split
    · split_ifs
      · exact ⟨rfl, rfl, rfl⟩
      · exact .refl _
    · exact .refl _
  exact hlogPath.trans ((hresources _).trans ((sameFacts_diagnostics _ _).trans (hactivity _)))

theorem applyAdapterSnapshot (now : ℚ) (answer : MonitorAdapterSnapshot) (timestamp : ℚ)
    (h : Registered s cell) : Moves s (s.applyAdapterSnapshot now cell answer timestamp) := by
  obtain ⟨c, hc, hid⟩ := h
  have hregistered : Registered s cell := ⟨c, hc, hid⟩
  unfold MonitorSystem.applyAdapterSnapshot
  rw [hc]
  dsimp only
  have hupdated : Moves s
      (s.modify cell fun _ => (adapterFacts answer c.record).1) :=
    .single (.touch hc hregistered (sameFacts_adapterFacts answer c.record))
  split
  · exact hupdated.trans (transitionAt_persist now _ _ _ _ _ (hupdated.registered hregistered))
  · split_ifs
    · exact hupdated.trans (persist now (hupdated.registered hregistered))
    · exact hupdated

theorem checkStalled (now : ℚ) (timestamp : ℚ) (h : Registered s cell) :
    Moves s (s.checkStalled now cell timestamp) := by
  unfold MonitorSystem.checkStalled
  split
  · exact .refl
  · split
    · exact .refl
    · split_ifs
      · exact .refl
      · exact transitionAt now _ _ _ _ h
      · exact transitionAt now _ _ _ _ h
      · exact .refl

/-- What follows the answer of an adapter about a registered record. -/
theorem proceed (now : ℚ) (call : AdapterCall) (answer : MonitorSystem.AdapterAnswer)
    (h : Registered s call.cell) : Moves s (s.proceed now call answer) := by
  have hsnapshot : ∀ {cell : Nat} (answer : MonitorAdapterSnapshot) (timestamp : ℚ),
      Registered s cell →
      Moves s ((s.applyAdapterSnapshot now cell answer timestamp).checkStalled now cell timestamp) := by
    intro cell answer timestamp hcell
    have happly := applyAdapterSnapshot now answer timestamp hcell
    exact happly.trans (checkStalled now timestamp (happly.registered hcell))
  unfold MonitorSystem.proceed
  split
  · split
    · exact transitionAt now _ _ _ _ h
    · exact hsnapshot _ _ h
    · exact checkStalled now _ h
  · exact transitionAt now _ _ _ _ h
  · split
    · exact transitionAt now _ _ _ _ h
    · exact transitionAt now _ _ _ _ h
    · exact hsnapshot _ _ h
  · split_ifs
    · exact transitionAt now _ _ _ _ h
    · exact .refl
  · exact .refl

/-! ### Tools and sub-agents -/

theorem findTool_registered (hs : RegistryRefers s) {toolCallId : String}
    (h : s.findTool toolCallId = some cell) : Registered s cell := by
  have hmem := List.mem_of_find?_eq_some h
  obtain ⟨id, hid⟩ := OrderedMap.mem_values_iff.1 hmem
  exact hs.registered hid

theorem longRunningRecord (host : Host) (hs : RegistryRefers s) (now : ℚ) (pending :
    PendingToolExecution) :
    Moves s (s.longRunningRecord host now pending).1 ∧
      ∀ cell, (s.longRunningRecord host now pending).2 = some cell →
        Registered (s.longRunningRecord host now pending).1 cell := by
  unfold MonitorSystem.longRunningRecord
  split
  · rename_i found hfound
    refine ⟨.refl, ?_⟩
    intro cell hcell
    cases hcell
    exact findTool_registered hs hfound
  · exact attach host hs now _

theorem noteRun (now : ℚ) (pending : PendingToolExecution) (h : Registered s cell) :
    Moves s (s.noteRun now cell pending) := by
  have hrunning := transitionAt now .running .started .none pending.startedAt h
  unfold MonitorSystem.noteRun
  dsimp only
  split_ifs
  · have htouched := modify (hrunning.registered h) fun record =>
      (⟨rfl, rfl, rfl⟩ : SameFacts record
        { record with lastActivityAt := pending.lastActivityAt })
    have hboth : Moves s _ := hrunning.trans htouched
    exact hboth.trans (transitionAt now _ _ _ _ (hboth.registered h))
  · exact hrunning

theorem promoteLongRunningBash (host : Host) (hs : RegistryRefers s) (now : ℚ) (pending :
    PendingToolExecution)
    (timestamp : ℚ) :
    Moves s (s.promoteLongRunningBash host now pending timestamp).1 ∧
      ∀ cell, (s.promoteLongRunningBash host now pending timestamp).2 = some cell →
        Registered (s.promoteLongRunningBash host now pending timestamp).1 cell := by
  unfold MonitorSystem.promoteLongRunningBash
  split_ifs
  · exact ⟨.refl, fun cell hcell => findTool_registered hs hcell⟩
  · obtain ⟨hattached, hregistered⟩ := longRunningRecord host hs now pending
    dsimp only
    split
    · rename_i cell hcell
      have hnoted := noteRun now pending (hregistered cell hcell)
      refine ⟨hattached.trans hnoted, ?_⟩
      intro other hother
      cases hother
      exact hnoted.registered (hregistered cell hcell)
    · exact ⟨hattached, by simp⟩

theorem promoteAll (host : Host) (hs : RegistryRefers s) (now : ℚ) : Moves s (s.promoteAll host now) := by
  unfold MonitorSystem.promoteAll
  -- the registry stays in order from one tool to the next
  have hfold : ∀ (tools : List PendingToolExecution) (t : MonitorSystem), Moves s t →
      Moves s (tools.foldl (fun t pending => (t.promoteLongRunningBash host now pending now).1) t) := by
    intro tools
    induction tools with
    | nil => intro t ht; exact ht
    | cons pending tools ih =>
      intro t ht
      exact ih _ (ht.trans (promoteLongRunningBash host (ht.registryRefers hs) now pending now).1)
  exact hfold _ s .refl

theorem toolStarted (hs : RegistryRefers s) (now : ℚ) (toolCallId toolName : String) :
    Moves s (s.toolStarted now toolCallId toolName) := by
  unfold MonitorSystem.toolStarted
  split
  · rename_i cell hcell
    exact transitionAt now _ _ _ _ (findTool_registered hs hcell)
  · split_ifs
    · exact tools _
    · exact .refl

theorem toolRecord (host : Host) (hs : RegistryRefers s) (now : ℚ) (toolCallId : String)
    (pending : Option PendingToolExecution) :
    Moves s (s.toolRecord host now toolCallId pending).1 ∧
      ∀ cell, (s.toolRecord host now toolCallId pending).2 = some cell →
        Registered (s.toolRecord host now toolCallId pending).1 cell := by
  unfold MonitorSystem.toolRecord
  split
  · rename_i found hfound
    refine ⟨.refl, ?_⟩
    intro cell hcell
    cases hcell
    exact findTool_registered hs hfound
  · split
    · exact promoteLongRunningBash host hs now _ now
    · exact ⟨.refl, by simp⟩

/-- A tool that has not ended is noted. -/
def noteTool (s : MonitorSystem) (toolCallId : String) (pending : Option PendingToolExecution) :
    MonitorSystem :=
  match pending with
  | some pending => { s with pendingToolExecutions := s.pendingToolExecutions.set toolCallId pending }
  | none => s

theorem toolUpdated (host : Host) (hs : RegistryRefers s) (now : ℚ) (toolCallId : String) :
    Moves s (s.toolUpdated host now toolCallId) := by
  unfold MonitorSystem.toolUpdated
  dsimp only
  have hnoted : ∀ pending : Option PendingToolExecution, Moves s (noteTool s toolCallId pending) := by
    rintro (_ | pending)
    · exact .refl
    · exact tools _
  generalize (s.pendingToolExecutions.get? toolCallId).map _ = pending
  have hnote := hnoted pending
  obtain ⟨hfound, hregistered⟩ :=
    toolRecord host (hnote.registryRefers hs) now toolCallId pending
  split
  · exact hnote.trans hfound
  · rename_i cell hcell
    have htouched := modify (hregistered cell hcell) fun record =>
      (⟨rfl, rfl, rfl⟩ : SameFacts record { record with lastActivityAt := now })
    exact (hnote.trans hfound).trans (htouched.trans
      (transitionAt now _ _ _ _ (htouched.registered (hregistered cell hcell))))

theorem toolEnded (host : Host) (hs : RegistryRefers s) (now : ℚ) (toolCallId : String)
    (ended : MonitorSystem.ToolEnd) : Moves s (s.toolEnded host now toolCallId ended) := by
  unfold MonitorSystem.toolEnded
  dsimp only
  have hremoved : Moves s
      { s with pendingToolExecutions := s.pendingToolExecutions.delete toolCallId } :=
    tools _
  obtain ⟨hfound, hregistered⟩ := toolRecord host (hremoved.registryRefers hs) now
    toolCallId (s.pendingToolExecutions.get? toolCallId)
  split
  · exact hremoved.trans hfound
  · rename_i cell hcell
    exact (hremoved.trans hfound).trans (transitionAt now _ _ _ _ (hregistered cell hcell))

theorem noteProgress (now : ℚ) (event : AgentLifecycleEvent) (h : Registered s cell) :
    Moves s (s.noteProgress now cell event) := by
  unfold MonitorSystem.noteProgress
  split
  · exact appendActivity now _ h
  · exact .refl

theorem noteBudget (now : ℚ) (event : AgentLifecycleEvent) (h : Registered s cell) :
    Moves s (s.noteBudget now cell event) := by
  unfold MonitorSystem.noteBudget
  split
  · have hdiagnosed := modify h (sameFacts_addDiagnostic (event.errorMessage.getD ""))
    exact hdiagnosed.trans (appendActivity now _ (hdiagnosed.registered h))
  · exact .refl

theorem handleAgentLifecycleEvent (host : Host) (hs : RegistryRefers s) (now : ℚ)
    (event : AgentLifecycleEvent) : Moves s (s.handleAgentLifecycleEvent host now event) := by
  unfold MonitorSystem.handleAgentLifecycleEvent
  dsimp only
  obtain ⟨hattached, hregistered⟩ := attach host hs now
    { id := none, sessionId := none, target := ⟨.subAgent event.taskId (some event.profile), none⟩
      taskSummary := some event.taskSummary, createdAt := none, stallTimeoutMs := none
      timeoutMs := none }
  split
  · exact hattached
  · rename_i cell hcell
    have hprogress := noteProgress now event (hregistered cell hcell)
    have hbudget := noteBudget now event (hprogress.registered (hregistered cell hcell))
    have hnoted : Moves _ _ := hprogress.trans hbudget
    exact (hattached.trans hnoted).trans
      (transitionAt now _ _ _ _ (hnoted.registered (hregistered cell hcell)))

/-- An adapter is called about a registered record object. -/
theorem call (call : AdapterCall) (h : Registered s call.cell) :
    Moves s { s with adapterCalls := s.adapterCalls ++ [call] } := by
  refine .single (.book s.pendingToolExecutions ?_)
  intro other hmem
  rcases List.mem_append.1 hmem with hold | hnew
  · exact .inl hold
  · exact .inr (List.mem_singleton.1 hnew ▸ h)

theorem visit (timestamp : ℚ) (h : Registered s cell) : Moves s (s.visit cell timestamp) := by
  unfold MonitorSystem.visit
  split
  · exact .refl
  · split_ifs
    · exact .refl
    · exact Moves.call _ h
    · exact Moves.call _ h

theorem callAdapter (call : AdapterCall) (h : Registered s call.cell) :
    Moves s (s.callAdapter cell call) := by
  unfold MonitorSystem.callAdapter
  split
  · exact .refl
  · split_ifs
    · exact .refl
    · exact Moves.call _ h

end Moves

/-- The event continues an operation whose record object is no longer registered. -/
def StaleAnswer (s : MonitorSystem) : Event → Prop
  | .answer _ index _ => ∃ call, s.adapterCalls[index]? = some call ∧ ¬Registered s call.cell
  | _ => False

/-- **Every step** restores a branch, gives an event to the listeners, or makes moves of
registered record objects, unless an adapter answers about a record object that is no longer
registered. -/
theorem step_moves {e : Event} (hs : RegistryRefers s) (hstale : ¬StaleAnswer s e)
    (hstep : step host s e = some t) :
    (∃ entries, e = .rebuild entries ∧ t = s.rebuild entries) ∨
    (∃ cell event rest, e = .deliver ∧ s.eventQueue = (cell, event) :: rest ∧
      t = { s with eventQueue := rest, output := s.output ++ [.delivered cell] }) ∨
    Moves s t := by
  cases e with
  | attach now input => cases hstep; exact .inr (.inr (Moves.attach host hs now input).1)
  | update now monitorId update =>
    cases hstep; exact .inr (.inr (Moves.update hs now monitorId update))
  | promote now => cases hstep; exact .inr (.inr (Moves.promoteAll host hs now))
  | visit monitorId timestamp =>
    obtain ⟨cell, hcell, rfl⟩ := Option.map_eq_some_iff.1 hstep
    exact .inr (.inr (Moves.visit timestamp (hs.registered hcell)))
  | confirm | stop =>
    obtain ⟨cell, hcell, rfl⟩ := Option.map_eq_some_iff.1 hstep
    exact .inr (.inr (Moves.callAdapter _ (hs.registered hcell)))
  | answer now index answer =>
    obtain ⟨call, hcall, rfl⟩ := Option.map_eq_some_iff.1 hstep
    have hregistered : Registered s call.cell := by
      by_contra hnot
      exact hstale ⟨call, hcall, hnot⟩
    have hbook : Moves s { s with adapterCalls := s.adapterCalls.eraseIdx index } :=
      .single (.book s.pendingToolExecutions fun other hmem => .inl (List.mem_of_mem_eraseIdx hmem))
    exact .inr (.inr (hbook.trans (Moves.proceed now call answer (hbook.registered hregistered))))
  | toolStarted now toolCallId toolName =>
    cases hstep; exact .inr (.inr (Moves.toolStarted hs now toolCallId toolName))
  | toolUpdated now toolCallId =>
    cases hstep; exact .inr (.inr (Moves.toolUpdated host hs now toolCallId))
  | toolEnded now toolCallId ended =>
    cases hstep; exact .inr (.inr (Moves.toolEnded host hs now toolCallId ended))
  | lifecycle now event =>
    cases hstep; exact .inr (.inr (Moves.handleAgentLifecycleEvent host hs now event))
  | deliver =>
    simp only [step] at hstep
    split at hstep
    · cases hstep
    · rename_i cell event rest hqueue
      cases hstep
      exact .inr (.inl ⟨cell, event, rest, rfl, hqueue, rfl⟩)
  | rebuild entries => cases hstep; exact .inl ⟨entries, rfl, rfl⟩

end BeauPi.Monitor
