import BeauPi.Monitor.Fence

/-!
# Monitoring: terminal facts

A record that has ended says how: status, exit reason, exit code and time of completion.  A
transition writes the facts it is given into the record before it decides whether anything
happens, also into a record that has ended with the same status, and it leaves alone what it
is not given.

* `lastRecord?` — the last entry of the branch for a record.
* `KeepsFacts`, `TruthfulIn` — terminal facts do not change; they are those of the transition
  that ended the record, and those of its last entry.
* `Truthful` — the condition on a call of `transition`.
* `terminal_facts_final` — **along every run whose transitions are truthful, terminal facts
  are final and truthful**.
-/

namespace BeauPi.Monitor

open Machine List MonitorSystem
open MonitorSystem (moved snapshot)

variable {host : Host} {s t u : MonitorSystem} {cell : Nat} {e : Event} {record : MonitorRecord}
  {status : MonitorStatus} {extra : ExitFacts}

/-! ## What is promised and when -/

/-- The last entry of the branch for a record. -/
def lastRecord? (branch : List MonitorRecord) (id : String) : Option MonitorRecord :=
  (branch.filter fun entry => entry.id = id).getLast?

/-- The facts of the records that have ended in `s` are the same in `t`. -/
def KeepsFacts (s t : MonitorSystem) : Prop :=
  ∀ (cell : Nat) c, s.cells[cell]? = some c → isMonitorTerminal c.record.status = true →
    ∃ c', t.cells[cell]? = some c' ∧ c'.record.facts = c.record.facts

/-- The facts of a registered record that has ended are those that the transition supplied
which ended it, and those of the last entry for the record. -/
def TruthfulIn (s : MonitorSystem) : Prop :=
  ∀ id cell c, s.registry.get? id = some cell → s.cells[cell]? = some c →
    isMonitorTerminal c.record.status = true → c.supplied = some c.record.facts ∧
      (lastRecord? s.branch id).map (·.facts) = some c.record.facts

instance (s t : MonitorSystem) : Decidable (KeepsFacts s t) :=
  decidable_of_iff (∀ pair ∈ s.cells.zipIdx, isMonitorTerminal pair.1.record.status = true →
      (t.cells[pair.2]?).map (·.record.facts) = some pair.1.record.facts)
    ⟨fun h cell c hc hended => Option.map_eq_some_iff.1
        (h (c, cell) (mem_zipIdx_iff_getElem?.2 hc) hended),
      fun h pair hmem hended => Option.map_eq_some_iff.2
        (h pair.2 pair.1 (mem_zipIdx_iff_getElem?.1 hmem) hended)⟩

instance (s : MonitorSystem) : Decidable (TruthfulIn s) :=
  decidable_of_iff (∀ pair ∈ s.registry.entries, ∀ c ∈ s.cells[pair.2]?,
      isMonitorTerminal c.record.status = true → c.supplied = some c.record.facts ∧
        (lastRecord? s.branch pair.1).map (·.facts) = some c.record.facts)
    ⟨fun h id cell c hid hc hended => h (id, cell) (OrderedMap.get?_eq_some.1 hid) c hc hended,
      fun h pair hmem c hc hended =>
        h pair.1 pair.2 c (OrderedMap.get?_eq_some.2 hmem) hc hended⟩

/-- The condition on a call of `transition`.  If the record has ended with the status that is
asked for, the call says nothing new; if the call ends the record, it supplies what the record
still holds from before. -/
def Truthful (call : TransitionCall) : Prop :=
  (isMonitorTerminal call.record.status = true → call.status = call.record.status →
    call.extra.exitReason.or call.record.exitReason = call.record.exitReason ∧
      call.extra.exitCode.or call.record.exitCode = call.record.exitCode) ∧
  (isMonitorTerminal call.record.status = false → isMonitorTerminal call.status = true →
    call.extra.exitReason.or call.record.exitReason = call.extra.exitReason ∧
      call.extra.exitCode.or call.record.exitCode = call.extra.exitCode)

instance (call : TransitionCall) : Decidable (Truthful call) :=
  inferInstanceAs (Decidable (_ ∧ _))

/-- The event does not restore a branch. -/
def Observing : Event → Bool
  | .rebuild _ => false
  | _ => true

/-- All calls of `transition` that the step makes are truthful. -/
def TruthfulAt (s : MonitorSystem) (e : Event) (t : MonitorSystem) : Prop :=
  Observing e = true ∧ ∀ call ∈ t.calls.drop s.calls.length, Truthful call

instance (s : MonitorSystem) (e : Event) (t : MonitorSystem) : Decidable (TruthfulAt s e t) :=
  inferInstanceAs (Decidable (_ ∧ _))

/-! ## Records -/

/-- What the runtime keeps true of a record: it is completed at some time exactly if it has
ended, and its last event was about its status. -/
structure WellKept (record : MonitorRecord) : Prop where
  completedAt : record.completedAt.isSome = isMonitorTerminal record.status
  lastEventKey : ∀ key, record.lastEventKey = some key →
    ∃ rest, key = record.status.name ++ ":" ++ rest

/-- The name of a status ends at the first colon. -/
theorem status_eq_of_key {a b : MonitorStatus} {x y : String}
    (h : a.name ++ ":" ++ x = b.name ++ ":" ++ y) : a = b := by
  have hname : ∀ (c : MonitorStatus) (z : String),
      (c.name ++ ":" ++ z).toList.takeWhile (· ≠ ':') = c.name.toList := by
    intro c z
    cases c <;> simp [Background.MonitorStatus.name]
  have hlists : a.name.toList = b.name.toList := by rw [← hname a x, h, hname b y]
  cases a <;> cases b <;> first | rfl | simp [Background.MonitorStatus.name] at hlists

theorem transitionAllowed_of_terminal (hended : isMonitorTerminal record.status = true)
    (h : transitionAllowed record.status status = true) : status = record.status := by
  unfold transitionAllowed at h
  split_ifs at h with heq
  exact heq.symm

/-- Every record that has not ended can end. -/
theorem transitionAllowed_end (hended : isMonitorTerminal record.status = false)
    (hend : isMonitorTerminal status = true) : transitionAllowed record.status status = true := by
  revert hended hend
  cases record.status <;> cases status <;> decide

/-! ## A transition -/

/-- What the record says about the end of its target after an allowed transition. -/
def exitAfter (record : MonitorRecord) (extra : ExitFacts) : ExitFacts :=
  ⟨extra.exitReason.or record.exitReason, extra.exitCode.or record.exitCode⟩

section

variable (reason : MonitorEventReason) (timestamp : ℚ)

theorem transition_facts (h : transitionAllowed record.status status = true) :
    (transition record status reason extra timestamp).record.facts =
      ⟨status, exitAfter record extra, if isMonitorTerminal status = true then
        some (record.completedAt.getD timestamp) else record.completedAt⟩ := by
  unfold transition
  rw [if_neg (by simp [h])]
  dsimp only
  split_ifs <;> rfl

theorem transition_emits (h : transitionAllowed record.status status = true) :
    (transition record status reason extra timestamp).emits =
      decide (record.lastEventKey ≠ some (eventKey status reason (exitAfter record extra)) ∧
        (record.status ≠ status ∨ status = .starting)) := by
  unfold transition
  rw [if_neg (by simp [h])]
  dsimp only
  simp only [decide_eq_true_eq]
  split_ifs <;> rfl

theorem transition_lastEventKey (h : transitionAllowed record.status status = true) :
    (transition record status reason extra timestamp).record.lastEventKey =
      if (transition record status reason extra timestamp).emits = true then
        some (eventKey status reason (exitAfter record extra)) else record.lastEventKey := by
  unfold transition
  rw [if_neg (by simp [h])]
  dsimp only
  split_ifs <;> rfl

/-- A truthful transition leaves the facts of a record that has ended alone. -/
theorem transition_ended (hkept : WellKept record)
    (hended : isMonitorTerminal record.status = true) (h : Truthful ⟨record, status, extra⟩) :
    (transition record status reason extra timestamp).record.facts = record.facts ∧
      (transition record status reason extra timestamp).emits = false := by
  cases hallowed : transitionAllowed record.status status with
  | false =>
    rw [transition_refused hallowed]
    exact ⟨rfl, rfl⟩
  | true =>
    obtain rfl := transitionAllowed_of_terminal hended hallowed
    obtain ⟨completedAt, hcompleted⟩ : ∃ completedAt, record.completedAt = some completedAt :=
      Option.isSome_iff_exists.1 (hkept.completedAt.trans hended)
    obtain ⟨hreason, hcode⟩ := h.1 hended rfl
    refine ⟨?_, ?_⟩
    · rw [transition_facts reason timestamp hallowed, if_pos hended]
      simp only [exitAfter, hcompleted, Option.getD_some, MonitorRecord.facts, MonitorRecord.exit]
      simp only at hreason hcode
      rw [hreason, hcode]
    · rw [transition_emits reason timestamp hallowed]
      have hstarting : record.status ≠ .starting := by
        intro heq
        rw [heq] at hended
        cases hended
      simp [hstarting]

/-- A truthful transition that ends a record supplies its facts, and is persisted. -/
theorem transition_ends (hkept : WellKept record)
    (hnot : isMonitorTerminal record.status = false) (hend : isMonitorTerminal status = true)
    (h : Truthful ⟨record, status, extra⟩) :
    (transition record status reason extra timestamp).record.facts =
        ⟨status, extra, some timestamp⟩ ∧
      (transition record status reason extra timestamp).emits = true := by
  have hallowed := transitionAllowed_end hnot hend
  have hnone : record.completedAt = none := by
    simpa [hnot] using hkept.completedAt
  obtain ⟨hreason, hcode⟩ := h.2 hnot hend
  refine ⟨?_, ?_⟩
  · rw [transition_facts reason timestamp hallowed, if_pos hend]
    simp only at hreason hcode
    simp only [exitAfter, hnone, hreason, hcode, Option.getD_none]
  · have hne : record.status ≠ status := by
      rintro rfl
      rw [hnot] at hend
      cases hend
    -- the last event was about another status
    have hkey : record.lastEventKey ≠ some (eventKey status reason (exitAfter record extra)) := by
      intro heq
      obtain ⟨rest, hrest⟩ := hkept.lastEventKey _ heq
      exact hne (status_eq_of_key hrest).symm
    rw [transition_emits reason timestamp hallowed]
    simp [hkey, hne]

theorem WellKept.transition (hkept : WellKept record) :
    WellKept (transition record status reason extra timestamp).record := by
  cases hallowed : transitionAllowed record.status status with
  | false =>
    rw [transition_refused hallowed]
    exact hkept
  | true =>
    have hfacts : (Monitor.transition record status reason extra timestamp).record.facts = _ :=
      transition_facts reason timestamp hallowed
    have hstatus : (Monitor.transition record status reason extra timestamp).record.status =
        status := congrArg TerminalFacts.status hfacts
    have hcompleted := congrArg TerminalFacts.completedAt hfacts
    refine ⟨?_, ?_⟩
    · rw [hstatus]
      simp only [MonitorRecord.facts] at hcompleted
      rw [hcompleted]
      cases hend : isMonitorTerminal status with
      | true => simp
      | false =>
        have hnot : isMonitorTerminal record.status = false := by
          by_contra hended
          rw [Bool.not_eq_false] at hended
          rw [transitionAllowed_of_terminal hended hallowed, hended] at hend
          cases hend
        simpa [hnot] using hkept.completedAt
    · intro key hkey
      rw [hstatus]
      rw [transition_lastEventKey reason timestamp hallowed,
        transition_emits reason timestamp hallowed] at hkey
      by_cases hsame : record.status = status
      · subst hsame
        split_ifs at hkey
        · cases hkey
          exact ⟨_, rfl⟩
        · exact hkept.lastEventKey key hkey
      · by_cases hlast : record.lastEventKey =
            some (eventKey status reason (exitAfter record extra))
        · rw [if_neg (by simp [hlast]), hlast] at hkey
          cases hkey
          exact ⟨_, rfl⟩
        · rw [if_pos (by simp [hlast, hsame])] at hkey
          cases hkey
          exact ⟨_, rfl⟩

end

/-! ## Entries -/

theorem lastRecord?_append (branch : List MonitorRecord) (entry : MonitorRecord) (id : String) :
    lastRecord? (branch ++ [entry]) id =
      if entry.id = id then some entry else lastRecord? branch id := by
  unfold lastRecord?
  rw [filter_append]
  by_cases heq : entry.id = id
  · simp [heq]
  · simp [heq]

/-- A record object and what the branch says about it. -/
structure InOrder (branch : List MonitorRecord) (c : Cell) : Prop where
  kept : WellKept c.record
  ended : isMonitorTerminal c.record.status = true → c.supplied = some c.record.facts ∧
    (lastRecord? branch c.record.id).map (·.facts) = some c.record.facts

/-- The invariant of the runs that restore no branch. -/
structure TerminalInvariant (s : MonitorSystem) : Prop where
  refers : RegistryRefers s
  calls : CallsRegistered s
  cells : ∀ cell c, s.cells[cell]? = some c → s.registry.get? c.record.id = some cell →
    InOrder s.branch c

variable {branch : List MonitorRecord} {c : Cell}

theorem SameFacts.status_eq {after : MonitorRecord} (h : SameFacts record after) :
    after.status = record.status :=
  congrArg TerminalFacts.status h.facts

theorem WellKept.sameFacts {after : MonitorRecord} (h : WellKept record)
    (hsame : SameFacts record after) : WellKept after := by
  have hstatus := hsame.status_eq
  have hcompleted : after.completedAt = record.completedAt :=
    congrArg TerminalFacts.completedAt hsame.facts
  refine ⟨?_, ?_⟩
  · rw [hcompleted, hstatus]
    exact h.completedAt
  · rw [hsame.lastEventKey, hstatus]
    exact h.lastEventKey

theorem InOrder.sameFacts {after : MonitorRecord} (h : InOrder branch c)
    (hsame : SameFacts c.record after) : InOrder branch { c with record := after } := by
  refine ⟨h.kept.sameFacts hsame, ?_⟩
  intro hended
  replace hended : isMonitorTerminal c.record.status = true := hsame.status_eq ▸ hended
  show c.supplied = some after.facts ∧ (lastRecord? branch after.id).map _ = some after.facts
  rw [hsame.facts, hsame.id]
  exact h.ended hended

/-- An entry about another record changes nothing. -/
theorem InOrder.append_ne {entry : MonitorRecord} (h : InOrder branch c)
    (hne : entry.id ≠ c.record.id) : InOrder (branch ++ [entry]) c := by
  refine ⟨h.kept, ?_⟩
  intro hended
  rw [lastRecord?_append, if_neg hne]
  exact h.ended hended

/-- An entry that holds the record object as it is. -/
theorem InOrder.append_self (hkept : WellKept c.record)
    (hended : isMonitorTerminal c.record.status = true → c.supplied = some c.record.facts)
    (now : ℚ) : InOrder (branch ++ [snapshot now c.record]) c := by
  refine ⟨hkept, ?_⟩
  intro hterminal
  rw [lastRecord?_append]
  refine ⟨hended hterminal, ?_⟩
  simp [snapshot, MonitorRecord.facts, MonitorRecord.exit]

/-- A record object that was just registered. -/
theorem NewRecord.inOrder (h : NewRecord record) : InOrder branch ⟨record, none⟩ := by
  refine ⟨⟨?_, ?_⟩, ?_⟩
  · rw [h.completedAt, h.status]
    rfl
  · intro key hkey
    rw [h.lastEventKey] at hkey
    cases hkey
  · intro hended
    rw [h.status] at hended
    cases hended

section

variable (reason : MonitorEventReason) (timestamp : ℚ)

/-- A truthful transition of a record object that has ended. -/
theorem InOrder.moved_ended (h : InOrder branch c)
    (htruthful : Truthful ⟨c.record, status, extra⟩)
    (hended : isMonitorTerminal c.record.status = true) :
    InOrder branch (moved c status reason extra timestamp) ∧
      (moved c status reason extra timestamp).record.facts = c.record.facts ∧
      (transition c.record status reason extra timestamp).emits = false := by
  obtain ⟨hfacts, hemits⟩ := transition_ended reason timestamp h.kept hended htruthful
  have hsupplied : (moved c status reason extra timestamp).supplied =
      c.supplied := by
    simp [moved, suppliedFacts, hended]
  obtain ⟨hold, hlast⟩ := h.ended hended
  refine ⟨⟨h.kept.transition reason timestamp, fun _ => ?_⟩, hfacts, hemits⟩
  rw [hsupplied]
  show c.supplied = some (transition c.record status reason extra timestamp).record.facts ∧
    (lastRecord? branch (transition c.record status reason extra timestamp).record.id).map _ =
      some (transition c.record status reason extra timestamp).record.facts
  rw [hfacts, transition_id]
  exact ⟨hold, hlast⟩

/-- A truthful transition that ends a record object, and its entry. -/
theorem InOrder.moved_ends (h : InOrder branch c)
    (htruthful : Truthful ⟨c.record, status, extra⟩)
    (hnot : isMonitorTerminal c.record.status = false) (hend : isMonitorTerminal status = true)
    (now : ℚ) :
    InOrder (branch ++
        [snapshot now (moved c status reason extra timestamp).record])
      (moved c status reason extra timestamp) ∧
    (transition c.record status reason extra timestamp).emits = true := by
  obtain ⟨hfacts, hemits⟩ := transition_ends reason timestamp h.kept hnot hend htruthful
  have hstatus : (transition c.record status reason extra timestamp).record.status = status :=
    congrArg TerminalFacts.status hfacts
  refine ⟨.append_self (h.kept.transition reason timestamp) (fun _ => ?_) now, hemits⟩
  simp [moved, suppliedFacts, hnot, hend, hstatus, hfacts]

/-- A transition between statuses that are not terminal. -/
theorem InOrder.moved_on (h : InOrder branch c)
    (hnot : isMonitorTerminal c.record.status = false) (hon : isMonitorTerminal status = false)
    (branch' : List MonitorRecord) :
    InOrder branch' (moved c status reason extra timestamp) := by
  refine ⟨h.kept.transition reason timestamp, fun hterminal => ?_⟩
  cases hallowed : transitionAllowed c.record.status status with
  | false =>
    simp only [moved, transition_refused hallowed, hnot] at hterminal
    cases hterminal
  | true =>
    have hstatus : (transition c.record status reason extra timestamp).record.status = status :=
      congrArg TerminalFacts.status (transition_facts reason timestamp hallowed)
    simp only [moved, hstatus, hon] at hterminal
    cases hterminal

/-- **A truthful transition** of a record object, with its entry if it is persisted. -/
theorem InOrder.moved (h : InOrder branch c) (htruthful : Truthful ⟨c.record, status, extra⟩)
    (now : ℚ) :
    InOrder (if (transition c.record status reason extra timestamp).emits = true then
        branch ++ [snapshot now
          (moved c status reason extra timestamp).record]
      else branch) (moved c status reason extra timestamp) := by
  cases hended : isMonitorTerminal c.record.status with
  | true =>
    obtain ⟨horder, -, hemits⟩ := h.moved_ended reason timestamp htruthful hended
    rw [hemits]
    exact horder
  | false =>
    cases hend : isMonitorTerminal status with
    | true =>
      obtain ⟨horder, hemits⟩ := h.moved_ends reason timestamp htruthful hended hend now
      rw [hemits]
      exact horder
    | false => exact h.moved_on reason timestamp hended hend _

end

/-! ## Moves -/

theorem KeepsFacts.of_cells (h : t.cells = s.cells) : KeepsFacts s t :=
  fun _ c hc _ => ⟨c, h ▸ hc, rfl⟩

theorem KeepsFacts.trans (h : KeepsFacts s t) (h' : KeepsFacts t u) : KeepsFacts s u := by
  intro cell c hc hended
  obtain ⟨c₁, hc₁, hfacts⟩ := h cell c hc hended
  have hstatus : c₁.record.status = c.record.status := congrArg TerminalFacts.status hfacts
  obtain ⟨c₂, hc₂, hfacts'⟩ := h' cell c₁ hc₁ (hstatus ▸ hended)
  exact ⟨c₂, hc₂, hfacts'.trans hfacts⟩

/-- One record object changes and its facts do not, if it has ended. -/
theorem KeepsFacts.set {after : Cell} (hc : s.cells[cell]? = some c)
    (hcells : t.cells = s.cells.set cell after)
    (hsame : isMonitorTerminal c.record.status = true → after.record.facts = c.record.facts) :
    KeepsFacts s t := by
  intro other d hd hended
  have hlt : cell < s.cells.length := (List.getElem?_eq_some_iff.1 hc).1
  by_cases heq : cell = other
  · subst heq
    rw [hc] at hd
    cases hd
    exact ⟨after, by simp [hcells, hlt], hsame hended⟩
  · exact ⟨d, by simp [hcells, heq, hd], rfl⟩

/-- **One record object changes**: the others are in order as before. -/
theorem TerminalInvariant.set {after : Cell} (hs : TerminalInvariant s) (hmove : Move s t)
    (hc : s.cells[cell]? = some c) (hregistered : s.registry.get? c.record.id = some cell)
    (hcells : t.cells = s.cells.set cell after) (hregistry : t.registry = s.registry)
    (hafter : InOrder t.branch after)
    (hbranch : t.branch = s.branch ∨ ∃ entry, entry.id = c.record.id ∧
      t.branch = s.branch ++ [entry]) : TerminalInvariant t := by
  refine ⟨hmove.registryRefers hs.refers, hmove.callsRegistered hs.calls, ?_⟩
  intro other d hd hother
  have hlt : cell < s.cells.length := (List.getElem?_eq_some_iff.1 hc).1
  by_cases heq : cell = other
  · subst heq
    rw [hcells, getElem?_set_self hlt] at hd
    cases hd
    exact hafter
  · rw [hcells, getElem?_set_ne heq] at hd
    rw [hregistry] at hother
    have hd' := hs.cells other d hd hother
    rcases hbranch with hsame | ⟨entry, hentry, happend⟩
    · rw [hsame]
      exact hd'
    · rw [happend]
      apply hd'.append_ne
      rw [hentry]
      intro hsame
      rw [hsame, hother] at hregistered
      exact heq (Option.some.inj hregistered).symm

/-- The calls of `transition` that a move makes. -/
theorem Move.calls (h : Move s t) : ∃ new, t.calls = s.calls ++ new := by
  cases h with
  | touch | register | book => exact ⟨[], (append_nil _).symm⟩
  | persist => exact ⟨[], by simp⟩
  | transition now status reason extra timestamp hregistered =>
    obtain ⟨c, hc, -⟩ := hregistered
    rcases transitionAt_eq hc now status reason extra timestamp with
      ⟨-, event, h⟩ | ⟨-, h⟩
    · exact ⟨_, by rw [h]; exact persist_calls ..⟩
    · exact ⟨_, by rw [h]; rfl⟩

/-- **A move** whose transitions are truthful keeps the invariant and the facts of the record
objects that have ended. -/
theorem Move.terminal (h : Move s t) (hs : TerminalInvariant s)
    (htruthful : ∀ call ∈ t.calls.drop s.calls.length, Truthful call) :
    TerminalInvariant t ∧ KeepsFacts s t := by
  have hmove := h
  cases h with
  | @touch cell c change hc hregistered hsame =>
    obtain ⟨d, hd, hid⟩ := hregistered
    obtain rfl : c = d := Option.some.inj (hc.symm.trans hd)
    have hcells : (s.modify cell change).cells =
        s.cells.set cell { c with record := change c.record } := by
      simp [MonitorSystem.modify, modify_eq_set_getElem?, hc]
    exact ⟨hs.set hmove hc hid hcells rfl ((hs.cells cell c hc hid).sameFacts hsame) (.inl rfl),
      .set hc hcells fun _ => hsame.facts⟩
  | @persist cell now hregistered =>
    obtain ⟨c, hc, hid⟩ := hregistered
    have hsame := hs.cells cell c hc hid
    have hbranch : (s.persist now cell).branch =
        s.branch ++ [snapshot now c.record] := by
      rw [persist_eq hc]
    have hcells : (s.persist now cell).cells = s.cells.set cell c := by
      obtain ⟨hlt, rfl⟩ := List.getElem?_eq_some_iff.1 hc
      rw [persist_cells, set_getElem_self]
    have hafter : InOrder (s.persist now cell).branch c := by
      rw [hbranch]
      exact .append_self hsame.kept (fun hended => (hsame.ended hended).1) now
    exact ⟨hs.set hmove hc hid hcells (by simp) hafter
        (.inr ⟨snapshot now c.record, rfl, hbranch⟩),
      .of_cells (by simp)⟩
  | @transition cell now status reason extra timestamp hregistered =>
    obtain ⟨c, hc, hid⟩ := hregistered
    obtain ⟨hcells, hregistry⟩ :=
      transitionAt_cells hc now status reason extra timestamp
    have hcall : Truthful ⟨c.record, status, extra⟩ := by
      apply htruthful
      rcases transitionAt_eq hc now status reason extra timestamp with
        ⟨-, event, h⟩ | ⟨-, h⟩
      · rw [h]
        simp [movedTo]
      · rw [h]
        simp [movedTo]
    have horder := hs.cells cell c hc hid
    have hafter := horder.moved reason timestamp hcall now
    refine ⟨?_, .set hc hcells fun hended =>
      (horder.moved_ended reason timestamp hcall hended).2.1⟩
    rcases transitionAt_eq hc now status reason extra timestamp with
      ⟨hemits, event, h⟩ | ⟨hemits, h⟩
    · have hmoved : (s.movedTo cell c status reason extra timestamp).cells[cell]? =
          some (moved c status reason extra timestamp) := by
        simp [movedTo, (List.getElem?_eq_some_iff.1 hc).1]
      have hbranch : (s.transitionAt now cell status reason extra timestamp).1.branch =
          s.branch ++ [snapshot now
            (moved c status reason extra timestamp).record] := by
        rw [h, persist_eq hmoved]
        rfl
      rw [if_pos hemits, ← hbranch] at hafter
      refine hs.set hmove hc hid hcells hregistry hafter (.inr ⟨_, ?_, hbranch⟩)
      exact transition_id ..
    · have hbranch : (s.transitionAt now cell status reason extra timestamp).1.branch =
          s.branch := by
        rw [h]
        rfl
      rw [if_neg (by simp [hemits]), ← hbranch] at hafter
      exact hs.set hmove hc hid hcells hregistry hafter (.inl hbranch)
  | @register record hnone hnew =>
    refine ⟨⟨hmove.registryRefers hs.refers, hmove.callsRegistered hs.calls, ?_⟩, ?_⟩
    · intro cell c hc hid
      simp only [MonitorSystem.register, OrderedMap.get?_set] at hc hid
      by_cases heq : c.record.id = record.id
      · -- the registry has the new record object under this id
        rw [if_pos heq] at hid
        cases hid
        rw [getElem?_concat_length] at hc
        cases hc
        exact hnew.inOrder
      · rw [if_neg heq] at hid
        obtain ⟨d, hd, -⟩ := hs.refers _ _ hid
        rw [getElem?_append_left (List.getElem?_eq_some_iff.1 hd).1] at hc
        exact hs.cells cell c hc hid
    · intro cell c hc _
      refine ⟨c, ?_, rfl⟩
      show (s.cells ++ [_])[cell]? = some c
      rw [getElem?_append_left (List.getElem?_eq_some_iff.1 hc).1, hc]
  | book tools hcalls =>
    exact ⟨⟨hmove.registryRefers hs.refers, hmove.callsRegistered hs.calls, hs.cells⟩,
      .of_cells rfl⟩

theorem Moves.terminal (h : Moves s t) (hs : TerminalInvariant s) :
    ∃ new, t.calls = s.calls ++ new ∧
      ((∀ call ∈ new, Truthful call) → TerminalInvariant t ∧ KeepsFacts s t) := by
  induction h with
  | refl => exact ⟨[], by simp, fun _ => ⟨hs, .of_cells rfl⟩⟩
  | @tail u v _ hmove ih =>
    obtain ⟨new, hnew, ih⟩ := ih
    obtain ⟨more, hmore⟩ := hmove.calls
    refine ⟨new ++ more, by rw [hmore, hnew, append_assoc], ?_⟩
    intro htruthful
    obtain ⟨hu, hkeeps⟩ := ih fun call hmem => htruthful call (mem_append_left _ hmem)
    obtain ⟨hv, hkeeps'⟩ := hmove.terminal hu (by
      rw [hmore, drop_left]
      exact fun call hmem => htruthful call (mem_append_right _ hmem))
    exact ⟨hv, hkeeps.trans hkeeps'⟩

/-- **A truthful step** keeps the invariant. -/
theorem step_terminal (hs : TerminalInvariant s) (htruthful : TruthfulAt s e t)
    (hstep : step host s e = some t) : KeepsFacts s t ∧ TerminalInvariant t := by
  obtain ⟨hobserving, hcalls⟩ := htruthful
  have hstale : ¬StaleAnswer s e := by
    cases e with
    | answer now index answer =>
      rintro ⟨call, hcall, hnot⟩
      exact hnot (hs.calls call (mem_of_getElem? hcall))
    | _ => exact id
  obtain ⟨entries, rfl, rfl⟩ | ⟨cell, event, rest, rfl, hqueue, rfl⟩ | hmoves :=
    step_moves hs.refers hstale hstep
  · cases hobserving
  · exact ⟨.of_cells rfl, ⟨hs.refers, hs.calls, hs.cells⟩⟩
  · obtain ⟨new, hnew, hterminal⟩ := hmoves.terminal hs
    rw [hnew, drop_left] at hcalls
    obtain ⟨ht, hkeeps⟩ := hterminal hcalls
    exact ⟨hkeeps, ht⟩

/-! ## Restored records -/

/-- What the registry was restored with: each record is well kept and is the last entry of the
branch for its id. -/
def RestoredInOrder (s : MonitorSystem) : Prop :=
  ∀ (cell : Nat) c, s.cells[cell]? = some c → s.registry.get? c.record.id = some cell →
    WellKept c.record ∧ lastRecord? s.branch c.record.id = some c.record

/-- Restoring records supplies what they say, and calls no adapter. -/
theorem restoreRecords_supplied (entries : List MonitorRecord) :
    ∀ s : MonitorSystem, (∀ c ∈ s.cells, c = restoredCell c.record) →
      (∀ c ∈ (s.restoreRecords entries).cells, c = restoredCell c.record) ∧
        (s.restoreRecords entries).adapterCalls = s.adapterCalls := by
  unfold restoreRecords
  induction entries with
  | nil => intro s hs; exact ⟨hs, rfl⟩
  | cons record entries ih =>
    intro s hs
    rw [foldl_cons]
    split_ifs
    · apply ih
      intro c hc
      rcases mem_append.1 hc with hold | hnew
      · exact hs c hold
      · rw [mem_singleton.1 hnew]
        rfl
    · exact ih s hs

theorem construct_terminal {sessionId : String} {stall threshold : ℚ}
    {entries : List MonitorRecord}
    (h : RestoredInOrder (.construct sessionId stall threshold entries)) :
    TerminalInvariant (.construct sessionId stall threshold entries) := by
  obtain ⟨hsupplied, hcalls⟩ := restoreRecords_supplied entries
    { sessionId, defaultStallTimeoutMs := stall, longRunningBashThresholdMs := threshold
      cells := [], registry := .empty, pendingToolExecutions := .empty, adapterCalls := []
      eventQueue := [], branch := entries, calls := [], output := [] } (by simp)
  refine ⟨construct_refers sessionId stall threshold entries, ?_, ?_⟩
  · intro call hmem
    rw [MonitorSystem.construct, hcalls] at hmem
    cases hmem
  · intro cell c hc hid
    obtain ⟨hkept, hlast⟩ := h cell c hc hid
    refine ⟨hkept, fun hended => ?_⟩
    rw [hlast, hsupplied c (mem_of_getElem? hc)]
    simp [restoredCell, hended]

/-- **Terminal facts are final and truthful if transitions are.**  Along every run of the
runtime on one branch in which no call of `transition` tells a record that has ended something
new, or ends a record without saying what the record still holds from before, the facts of the
records that have ended do not change, and in every state reached they are those that the
transition supplied which ended the record and those of its last entry. -/
theorem terminal_facts_final (host : Host) (sessionId : String) (stall threshold : ℚ)
    (entries : List MonitorRecord) (es : List Event)
    (hrestored : RestoredInOrder (.construct sessionId stall threshold entries))
    (htruthful : Along (step host) TruthfulAt (.construct sessionId stall threshold entries) es) :
    Along (step host) (fun s _ t => KeepsFacts s t ∧ TruthfulIn t)
      (.construct sessionId stall threshold entries) es := by
  refine along_of_invariant (I := TerminalInvariant) ?_ es _ (construct_terminal hrestored)
    htruthful
  intro s e t hs hstep hguard
  obtain ⟨hkeeps, ht⟩ := step_terminal hs hguard hstep
  refine ⟨⟨hkeeps, ?_⟩, ht⟩
  intro id cell c hid hc hended
  obtain ⟨d, hd, rfl⟩ := ht.refers id cell hid
  obtain rfl : c = d := Option.some.inj (hc.symm.trans hd)
  exact (ht.cells cell c hc hid).ended hended

/-! ## Runs -/

/-- A report about the sub-agent of a task. -/
def agentReport (type : AgentEventType) (timestamp : ℚ) : AgentLifecycleEvent :=
  ⟨type, "task-1", "explorer", "Look around", timestamp, none, none, ⟨none, none⟩, none, none, none,
    none, ⟨none, none⟩⟩

/-- The adapter of the sub-agent does not know more. -/
def unknownAnswer : MonitorSystem.AdapterAnswer :=
  .snapshot ⟨.unknown, none, none, none, none, none, none, none, none, []⟩

/-- A sub-agent is silent for a while and then completes. -/
def silentAgent : List Event :=
  [.lifecycle 10 (agentReport .running 10), .visit "mon" 100000, .answer 100000 0 unknownAnswer,
    .lifecycle 100010 (agentReport .completed 100010)]

/-- **The reason of a stall is left over**: the sub-agent has completed, and its exit reason is
the one of the stall. -/
theorem silentAgent_not_truthful :
    ¬Along (step plainHost) (fun s _ t => KeepsFacts s t ∧ TruthfulIn t)
      (.construct "session-1" 60000 10000 []) silentAgent := by
  decide +kernel

/-- A process ends with code 0, and another answer about it comes late. -/
def lateAnswer : List Event :=
  [.attach 10 (plainProcess 7), .visit "mon-7" 20, .visit "mon-7" 25, .answer 30 0 (ended 0),
    .answer 40 0 (ended 0)]

/-- The general result at a run with two answers. -/
theorem terminal_facts_final_lateAnswer :
    ((runFrom (step plainHost) (.construct "session-1" 60000 10000 []) lateAnswer).bind fun s =>
      (s.cells.head?).map (·.record.facts)) =
        some ⟨.completed, ⟨some "exit_0", some 0⟩, some 20⟩ ∧
    Along (step plainHost) (fun s _ t => KeepsFacts s t ∧ TruthfulIn t)
      (.construct "session-1" 60000 10000 []) lateAnswer := by
  refine ⟨by decide, ?_⟩
  exact terminal_facts_final plainHost "session-1" 60000 10000 [] lateAnswer
    (by intro cell c hc; simp [MonitorSystem.construct, restoreRecords] at hc)
    (by decide)

end BeauPi.Monitor
