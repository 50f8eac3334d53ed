import BeauPi.Monitor.Fence

/-!
# Monitoring: records that stay

Whatever happens to the runtime between two points of an operation that waits, short of a rebuild:
what is registered stays registered, and what has ended stays ended.

* `Keeps` — that, as a relation of two states.
* `step_keeps` — every event but a rebuild keeps the records.
* `kept_until_rebuild` — so does every run up to the next rebuild.
-/

namespace BeauPi.Monitor

open Machine MonitorSystem

variable {host : Host} {s t u : MonitorSystem} {cell other : Nat} {now : ℚ}

/-- The registry has the records of `s` under their ids, and those that have ended have ended. -/
structure Keeps (s t : MonitorSystem) : Prop where
  refers : RegistryRefers s → RegistryRefers t
  records : ∀ id cell c, s.registry.get? id = some cell → s.cells[cell]? = some c →
    ∃ c', t.registry.get? id = some cell ∧ t.cells[cell]? = some c' ∧
      (isMonitorTerminal c.record.status = true → isMonitorTerminal c'.record.status = true)

theorem Keeps.refl (s : MonitorSystem) : Keeps s s :=
  ⟨id, fun _ _ c hid hc => ⟨c, hid, hc, id⟩⟩

theorem Keeps.trans (h : Keeps s t) (h' : Keeps t u) : Keeps s u := by
  refine ⟨fun hs => h'.refers (h.refers hs), fun id cell c hid hc => ?_⟩
  obtain ⟨c', hid', hc', hended⟩ := h.records id cell c hid hc
  obtain ⟨c'', hid'', hc'', hended'⟩ := h'.records id cell c' hid' hc'
  exact ⟨c'', hid'', hc'', fun h => hended' (hended h)⟩

/-- A change of neither the registry nor the record objects. -/
theorem Keeps.of_same (hcells : t.cells = s.cells) (hregistry : t.registry = s.registry) :
    Keeps s t := by
  refine ⟨fun hs => ?_, fun key cell c hid hc => ⟨c, ?_, ?_, id⟩⟩
  · unfold RegistryRefers
    rw [hcells, hregistry]
    exact hs
  · rw [hregistry]
    exact hid
  · rw [hcells]
    exact hc

/-! ## Moves -/

theorem Move.keeps (h : Move s t) : Keeps s t := by
  refine ⟨h.registryRefers, fun id cell c hid hc => ?_⟩
  obtain ⟨c', hc', -, hended⟩ := h.kept_cells hc
  exact ⟨c', h.kept_registry hid, hc', hended⟩

theorem Moves.keeps (h : Moves s t) : Keeps s t := by
  induction h with
  | refl => exact .refl s
  | tail _ hmove ih => exact ih.trans hmove.keeps

/-! ## Answers about records that are no longer registered -/

/-- A change that leaves the registry and all record objects but one alone. -/
structure Only (cell : Nat) (s t : MonitorSystem) : Prop where
  registry : t.registry = s.registry
  cells : ∀ other, other ≠ cell → t.cells[other]? = s.cells[other]?

theorem Only.refl (cell : Nat) (s : MonitorSystem) : Only cell s s := ⟨rfl, fun _ _ => rfl⟩

theorem Only.trans (h : Only cell s t) (h' : Only cell t u) : Only cell s u :=
  ⟨h'.registry.trans h.registry, fun other hne => (h'.cells other hne).trans (h.cells other hne)⟩

theorem only_persist (s : MonitorSystem) (now : ℚ) (cell : Nat) :
    Only cell s (s.persist now cell) :=
  ⟨persist_registry .., fun _ _ => by rw [persist_cells]⟩

theorem only_modify (s : MonitorSystem) (cell : Nat) (change : MonitorRecord → MonitorRecord) :
    Only cell s (s.modify cell change) :=
  ⟨rfl, fun other hne => by simp [MonitorSystem.modify, Ne.symm hne]⟩

theorem only_transitionAt (s : MonitorSystem) (now : ℚ) (cell : Nat) (status : MonitorStatus)
    (reason : MonitorEventReason) (extra : ExitFacts) (timestamp : ℚ) :
    Only cell s (s.transitionAt now cell status reason extra timestamp).1 := by
  cases hc : s.cells[cell]? with
  | none =>
    rw [transitionAt, hc]
    exact .refl cell s
  | some c =>
    obtain ⟨hcells, hregistry⟩ := transitionAt_cells hc now status reason extra timestamp
    exact ⟨hregistry, fun other hne => by rw [hcells, List.getElem?_set_ne (Ne.symm hne)]⟩

theorem only_checkStalled (s : MonitorSystem) (now : ℚ) (cell : Nat) (timestamp : ℚ) :
    Only cell s (s.checkStalled now cell timestamp) := by
  unfold checkStalled
  cases s.cells[cell]? with
  | none => exact .refl cell s
  | some c =>
    cases hstall : c.record.stallTimeoutMs with
    | none =>
      simp only [hstall]
      exact .refl cell s
    | some stallTimeoutMs =>
      simp only [hstall]
      split_ifs
      · exact .refl cell s
      · exact only_transitionAt ..
      · exact only_transitionAt ..
      · exact .refl cell s

theorem only_applyAdapterSnapshot (s : MonitorSystem) (now : ℚ) (cell : Nat)
    (answer : MonitorAdapterSnapshot) (timestamp : ℚ) :
    Only cell s (s.applyAdapterSnapshot now cell answer timestamp) := by
  unfold applyAdapterSnapshot
  cases s.cells[cell]? with
  | none => exact .refl cell s
  | some c =>
    have hupdated := only_modify s cell fun _ => (adapterFacts answer c.record).1
    cases htransition : adapterTransition answer (adapterFacts answer c.record).1 with
    | none =>
      simp only [htransition]
      split_ifs
      · exact hupdated.trans (only_persist ..)
      · exact hupdated
    | some change =>
      have hmoved := hupdated.trans (only_transitionAt _ now cell change.1 change.2.1 change.2.2
        timestamp)
      simp only [htransition]
      split_ifs
      · exact hmoved.trans (only_persist ..)
      · exact hmoved

/-- An answer changes the record that was asked about. -/
theorem only_proceed (s : MonitorSystem) (now : ℚ) (call : AdapterCall) (answer : AdapterAnswer) :
    Only call.cell s (s.proceed now call answer) := by
  cases call with
  | poll cell timestamp =>
    cases answer with
    | snapshot answer =>
      simp only [proceed]
      cases answer.availability with
      | missing => exact only_transitionAt ..
      | confirmed => exact (only_applyAdapterSnapshot ..).trans (only_checkStalled ..)
      | unknown => exact only_checkStalled ..
    | stopped result => exact .refl cell s
    | rejected => exact .refl cell s
  | timeout cell timestamp =>
    cases answer with
    | stopped result => exact only_transitionAt ..
    | snapshot answer => exact .refl cell s
    | rejected => exact .refl cell s
  | confirm cell =>
    cases answer with
    | snapshot answer =>
      simp only [proceed]
      cases answer.availability with
      | missing | unknown => exact only_transitionAt ..
      | confirmed => exact (only_applyAdapterSnapshot ..).trans (only_checkStalled ..)
    | stopped result => exact .refl cell s
    | rejected => exact .refl cell s
  | stop cell =>
    cases answer with
    | stopped result =>
      simp only [proceed]
      split_ifs
      · exact only_transitionAt ..
      · exact .refl cell s
    | snapshot answer => exact .refl cell s
    | rejected => exact .refl cell s

/-- A change of an unregistered record object keeps the records. -/
theorem Only.keeps (h : Only cell s t) (hs : RegistryRefers s) (hnot : ¬Registered s cell) :
    Keeps s t := by
  have hsame : ∀ key other, s.registry.get? key = some other →
      t.cells[other]? = s.cells[other]? := by
    intro key other hid
    refine h.cells other ?_
    rintro rfl
    exact hnot (hs.registered hid)
  refine ⟨fun _ key other hid => ?_, fun key other c hid hc => ⟨c, ?_, ?_, id⟩⟩
  · rw [h.registry] at hid
    rw [hsame key other hid]
    exact hs key other hid
  · rw [h.registry]
    exact hid
  · rw [hsame key other hid]
    exact hc

/-! ## Every step -/

/-- **Every event but a rebuild keeps the records.** -/
theorem step_keeps {e : Event} (hs : RegistryRefers s) (hstep : step host s e = some t)
    (hrebuild : ∀ entries, e ≠ .rebuild entries) : Keeps s t := by
  by_cases hstale : StaleAnswer s e
  · cases e with
    | answer now index answer =>
      obtain ⟨call, hcall, rfl⟩ := Option.map_eq_some_iff.1 hstep
      obtain ⟨call', hcall', hnot⟩ := hstale
      obtain rfl := Option.some.inj (hcall.symm.trans hcall')
      have hbook : Keeps s { s with adapterCalls := s.adapterCalls.eraseIdx index } :=
        .of_same rfl rfl
      exact hbook.trans ((only_proceed _ now call answer).keeps hs hnot)
    | _ => exact hstale.elim
  · rcases step_moves hs hstale hstep with
      ⟨entries, rfl, -⟩ | ⟨cell, event, rest, -, -, rfl⟩ | hmoves
    · exact absurd rfl (hrebuild entries)
    · exact .of_same rfl rfl
    · exact hmoves.keeps

/-- **Up to the next rebuild no record is lost and no end is undone**, from any state of a run,
whatever the adapters answer and however late. -/
theorem kept_until_rebuild (host : Host) (sessionId : String) (stall threshold : ℚ)
    (entries : List MonitorRecord) (es : List Event) :
    Along (step host) (fun s _ _ => ∀ fs,
      Along (step host) (fun _ e _ => ∀ entries, e ≠ .rebuild entries) s fs →
        Along (step host) (fun _ _ t => Keeps s t) s fs)
      (.construct sessionId stall threshold entries) es := by
  refine along_of_invariant (I := RegistryRefers) ?_ es _
    (construct_refers sessionId stall threshold entries) (along_true es _)
  intro s e t hs hstep _
  refine ⟨fun fs hfs => ?_, ?_⟩
  · refine along_of_invariant (I := Keeps s) ?_ fs s (.refl s) hfs
    intro u e' v hu hstep' hrebuild
    have hv := hu.trans (step_keeps (hu.refers hs) hstep' hrebuild)
    exact ⟨hv, hv⟩
  · by_cases hrebuild : ∃ entries, e = .rebuild entries
    · obtain ⟨entries, rfl⟩ := hrebuild
      cases hstep
      exact (rebuild_refers s entries).1
    · exact (step_keeps hs hstep fun entries he => hrebuild ⟨entries, he⟩).refers hs

end BeauPi.Monitor
