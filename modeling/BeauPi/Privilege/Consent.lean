import BeauPi.Privilege.Steps
import BeauPi.Machine.Runs

/-!
# Privileged commands: no execution without consent

`control.execute` writes the record "confirmed" and then lets the session execute the command.
That it does so once, and with both records written, holds in every run.  Between the call and
the execution the request may be aborted, or return without the handler, and nothing looks.

* `ConsentAt` — a step lets a session execute only with consent.
* `InTime` — the record "confirmed" is written while the request is neither aborted nor over.
* `consent_iff_inTime` — **a run is one with consent exactly if its confirmations are in
  time**.
-/

namespace BeauPi.Privilege

open Machine List PrivilegeRequest

variable {host : Host} {now : ℚ} {s t : PrivilegeSystem}

/-! ## What is promised and when -/

/-- From `q` to `q'` the session of the request executes its command with consent, if it
does: for the first time, with both records written, and before the request is aborted or
returns. -/
def Consents (q q' : PrivilegeRequest) : Prop :=
  q'.executions = q.executions ∨
    (q.executions = 0 ∧ q'.executions = 1 ∧ .requested ∈ q'.written ∧ .confirmed ∈ q'.written ∧
      q.aborted = false ∧ q.isDone = false)

instance (q q' : PrivilegeRequest) : Decidable (Consents q q') :=
  inferInstanceAs (Decidable (_ ∨ _))

/-- A request that was just made has executed nothing. -/
def ConsentsFrom : Option PrivilegeRequest → PrivilegeRequest → Prop
  | some q, q' => Consents q q'
  | none, q' => q'.executions = 0

instance : (q : Option PrivilegeRequest) → (q' : PrivilegeRequest) → Decidable (ConsentsFrom q q')
  | some q, q' => inferInstanceAs (Decidable (Consents q q'))
  | none, q' => inferInstanceAs (Decidable (q'.executions = 0))

/-- A step lets sessions execute commands only with consent. -/
def ConsentAt (s : PrivilegeSystem) (_ : ℚ × Event) (t : PrivilegeSystem) : Prop :=
  ∀ pair ∈ t.requests.zipIdx, ConsentsFrom s.requests[pair.2]? pair.1

instance (s : PrivilegeSystem) (e : ℚ × Event) (t : PrivilegeSystem) :
    Decidable (ConsentAt s e t) :=
  inferInstanceAs (Decidable (∀ pair ∈ _, _))

/-- If `control.execute` goes on because the record "confirmed" is written, then the request
is not aborted and has not returned. -/
def InTime (q : PrivilegeRequest) : PrivilegeRequest.Happening → Prop
  | .answer index true => q.controls[index]? = some .confirming →
      q.aborted = false ∧ q.isDone = false
  | _ => True

/-! ## One request -/

/-- What holds of every request: the consent that is asked for is asked for once, and after
"requested" is written. -/
structure Consented (q : PrivilegeRequest) : Prop where
  once : q.controls.count .confirming + q.executions ≤ q.confirmedAt.toList.length
  offered : q.controls ≠ [] → q.offered = true
  requested : q.offered = true → .requested ∈ q.written

namespace Consented

variable {q q' : PrivilegeRequest} {handler pending : Bool}

theorem frame (h : Consented q) (hframe : q.Frame q') : Consented q' := by
  refine ⟨?_, ?_, ?_⟩
  · rw [hframe.controls, hframe.executions, hframe.confirmedAt]
    exact h.once
  · rw [hframe.controls]
    exact fun hcontrols => hframe.keepsOffer (h.offered hcontrols)
  · intro hnow
    exact (hframe.offered hnow).elim (fun hold => hframe.written _ (h.requested hold)) id

theorem control (h : Consented q) (hoffered : q.offered = true)
    (call : PrivilegeRequest.ControlCall) : Consented (q.control now call) := by
  cases call with
  | start =>
    simp only [PrivilegeRequest.control]
    split_ifs
    · exact h
    · exact ⟨by simpa [count_append] using h.once, fun _ => hoffered, h.requested⟩
  | execute =>
    simp only [PrivilegeRequest.control]
    split_ifs with hrefused
    · exact h
    · -- the first call: nothing was confirmed before
      simp only [not_or, ne_eq, not_not] at hrefused
      have hnone : q.confirmedAt = none := hrefused.2.2.1
      refine ⟨?_, fun _ => hoffered, h.requested⟩
      have honce := h.once
      simp only [hnone, Option.toList_none, length_nil, Nat.le_zero, Nat.add_eq_zero_iff]
        at honce
      simp [audit, count_append, honce.1, honce.2]
  | cancel => exact ⟨h.once, h.offered, h.requested⟩
  | wait =>
    simp only [PrivilegeRequest.control]
    split_ifs
    · exact h
    · exact ⟨h.once, h.offered, h.requested⟩

/-- A method of the control object that throws, or is over. -/
theorem eraseIdx (h : Consented q) (index : Nat) :
    Consented { q with controls := q.controls.eraseIdx index } := by
  have hsub := eraseIdx_sublist q.controls index
  refine ⟨?_, fun hcontrols => h.offered ?_, h.requested⟩
  · exact Nat.le_trans (Nat.add_le_add_right (hsub.count_le _) _) h.once
  · rintro hnil
    apply hcontrols
    simp [hnil]

/-- A suspended method goes on to its next suspension. -/
theorem set {before after : ControlStep} {index : Nat} (h : Consented q)
    (hbefore : q.controls[index]? = some before) (hne : after ≠ .confirming)
    (executions : Nat)
    (hexecutions : executions = q.executions + if before = .confirming then 1 else 0) :
    (q.controls.set index after).count .confirming + executions ≤
      q.confirmedAt.toList.length := by
  obtain ⟨hlt, rfl⟩ := List.getElem?_eq_some_iff.1 hbefore
  have honce := h.once
  have hcount := count_set (a := after) (b := ControlStep.confirming) hlt
  rw [hcount, hexecutions]
  have hpos : q.controls[index] = .confirming → 0 < q.controls.count .confirming := by
    intro heq
    exact count_pos_iff.2 (heq ▸ getElem_mem hlt)
  by_cases heq : q.controls[index] = .confirming
  · have := hpos heq
    simp [heq, hne]
    omega
  · simp [heq, hne]
    omega

theorem answer (h : Consented q) {index : Nat} {ok : Bool}
    (hanswer : q.answer now index ok = some q') : Consented q' := by
  obtain ⟨suspended, hsuspended, rfl⟩ := Option.map_eq_some_iff.1 hanswer
  have hoffered : q.offered = true := by
    apply h.offered
    rintro hnil
    rw [hnil] at hsuspended
    cases hsuspended
  cases suspended with
  | creating | executing =>
    dsimp only
    split_ifs
    · exact ⟨h.set hsuspended (by decide) q.executions rfl, fun _ => hoffered, h.requested⟩
    · exact h.eraseIdx index
  | staging => exact h.eraseIdx index
  | confirming =>
    dsimp only
    split_ifs with hok
    · subst hok
      exact ⟨h.set hsuspended (by decide) (q.executions + 1) rfl, fun _ => hoffered,
        fun _ => mem_append_left _ (h.requested hoffered)⟩
    · exact h.eraseIdx index
  | recording => exact (h.eraseIdx index).frame (frame_note ..)

/-- **Whatever happens to a request** keeps this. -/
theorem step (h : Consented q) {happening : PrivilegeRequest.Happening}
    (hstep : q.step host now handler pending happening = some q') : Consented q' := by
  cases happening with
  | advance ok => exact h.frame (advance_frame hstep)
  | control call =>
    simp only [PrivilegeRequest.step] at hstep
    split_ifs at hstep with hoffered
    cases hstep
    exact h.control hoffered call
  | answer index ok => exact h.answer hstep
  | sessionEnds result =>
    simp only [PrivilegeRequest.step, sessionEnds] at hstep
    split at hstep
    · cases hstep
      exact ⟨h.once, h.offered, h.requested⟩
    · cases hstep
      exact ⟨h.once, h.offered, h.requested⟩
    · cases hstep
  | handlerSettles response =>
    simp only [PrivilegeRequest.step] at hstep
    split_ifs at hstep
    cases hstep
    unfold handlerSettles
    split
    · exact ⟨h.once, h.offered, h.requested⟩
    · exact h
  | abort =>
    cases hstep
    exact ⟨h.once, h.offered, h.requested⟩

end Consented

/-! ## Executions -/

section

variable {q q' : PrivilegeRequest} {handler pending : Bool} {happening : PrivilegeRequest.Happening}

/-- `control.execute` goes on because the record "confirmed" is written. -/
def Confirms (q : PrivilegeRequest) : PrivilegeRequest.Happening → Prop
  | .answer index true => q.controls[index]? = some .confirming
  | _ => False

/-- **The session executes its command** exactly if `control.execute` goes on so. -/
theorem step_executions (hstep : q.step host now handler pending happening = some q') :
    (Confirms q happening ∧ q'.executions = q.executions + 1 ∧
      q'.written = q.written ++ [.confirmed]) ∨
    (¬Confirms q happening ∧ q'.executions = q.executions) := by
  cases happening with
  | advance ok => exact .inr ⟨fun h => h, (advance_frame hstep).executions⟩
  | control call =>
    simp only [PrivilegeRequest.step] at hstep
    split_ifs at hstep
    cases hstep
    refine .inr ⟨fun h => h, ?_⟩
    cases call with
    | cancel => rfl
    | start | execute | wait =>
      simp only [PrivilegeRequest.control]
      split_ifs <;> rfl
  | answer index ok =>
    obtain ⟨suspended, hsuspended, rfl⟩ := Option.map_eq_some_iff.1 hstep
    cases ok with
    | false => exact .inr ⟨fun h => h, by cases suspended <;> rfl⟩
    | true =>
      cases suspended with
      | confirming => exact .inl ⟨hsuspended, rfl, rfl⟩
      | creating | staging | executing | recording =>
        exact .inr ⟨fun h => by simp [Confirms, hsuspended] at h, rfl⟩
  | sessionEnds result =>
    refine .inr ⟨fun h => h, ?_⟩
    simp only [PrivilegeRequest.step, sessionEnds] at hstep
    split at hstep
    · cases hstep; rfl
    · cases hstep; rfl
    · cases hstep
  | handlerSettles response =>
    refine .inr ⟨fun h => h, ?_⟩
    simp only [PrivilegeRequest.step] at hstep
    split_ifs at hstep
    cases hstep
    unfold handlerSettles
    split <;> rfl
  | abort => cases hstep; exact .inr ⟨fun h => h, rfl⟩

theorem inTime_iff : InTime q happening ↔
    (Confirms q happening → q.aborted = false ∧ q.isDone = false) := by
  cases happening with
  | answer index ok => cases ok <;> simp [InTime, Confirms]
  | _ => simp [InTime, Confirms]

/-- **What happens to a request** is with consent exactly if it is in time. -/
theorem consents_iff (h : Consented q)
    (hstep : q.step host now handler pending happening = some q') :
    Consents q q' ↔ InTime q happening := by
  rw [inTime_iff]
  rcases step_executions hstep with ⟨hconfirms, hexecutions, hwritten⟩ | ⟨hnot, hexecutions⟩
  · have hmem : .confirming ∈ q.controls := by
      cases happening with
      | answer index ok =>
        cases ok with
        | true => exact mem_of_getElem? hconfirms
        | false => exact hconfirms.elim
      | _ => exact hconfirms.elim
    have hzero : q.executions = 0 := by
      have hpos := count_pos_iff.2 hmem
      have hle : q.confirmedAt.toList.length ≤ 1 := by cases q.confirmedAt <;> simp
      have honce := h.once
      omega
    have hrequested : .requested ∈ q.written := h.requested (h.offered (ne_nil_of_mem hmem))
    have hone : q'.executions = 1 := by omega
    constructor
    · rintro (heq | ⟨-, -, -, -, hlate⟩) -
      · omega
      · exact hlate
    · intro hlate
      refine .inr ⟨hzero, hone, ?_, ?_, hlate hconfirms⟩
      · rw [hwritten]
        exact mem_append_left _ hrequested
      · rw [hwritten]
        exact mem_append_right _ (mem_singleton_self _)
  · exact ⟨fun _ hconfirms => absurd hconfirms hnot, fun _ => .inl hexecutions⟩

end

/-! ## Runs -/

/-- The requests of the runtime are as above. -/
def AllConsented (s : PrivilegeSystem) : Prop := ∀ q ∈ s.requests, Consented q

theorem consented_opened (s : PrivilegeSystem) (host : Host) (now : ℚ)
    (input : PrivilegeExecuteInput) (aborted : Bool) :
    Consented (s.opened host now input aborted) :=
  ⟨Nat.le_refl 0, fun h => absurd rfl h, fun h => nomatch h⟩

theorem consented_turnedAway (s : PrivilegeSystem) (host : Host) (now : ℚ)
    (input : PrivilegeExecuteInput) (active : Nat) :
    Consented (s.turnedAway host now input active) :=
  ⟨Nat.le_refl 0, fun h => absurd rfl h, fun h => nomatch h⟩

theorem step_allConsented {e : ℚ × Event} (hs : AllConsented s) (hstep : step host s e = some t) :
    AllConsented t :=
  step_forall hstep (fun input aborted _ _ => consented_opened s host e.1 input aborted)
    (fun input _ active _ _ _ _ => consented_turnedAway s host e.1 input active)
    (fun _ _ _ _ _ _ hq hconsented => hconsented.step hq) hs

/-- **A step** is with consent exactly if it is in time. -/
theorem consentAt_iff {e : ℚ × Event} (hs : AllConsented s) (hstep : step host s e = some t) :
    ConsentAt s e t ↔ Guarded InTime s e := by
  have hsame : ∀ pair ∈ s.requests.zipIdx, ConsentsFrom s.requests[pair.2]? pair.1 := by
    intro pair hmem
    rw [mem_zipIdx_iff_getElem?.1 hmem]
    exact .inl rfl
  obtain ⟨hnone, heq⟩ | ⟨input, aborted, new, he, -, -, heq, hnew⟩ |
    ⟨request, happening, q, q', hconcerns, hq, hq', heq⟩ := step_requests hstep
  · refine ⟨fun _ pair hpair => ?_, fun _ => ?_⟩
    · rw [hnone] at hpair
      cases hpair
    · rw [ConsentAt, heq]
      exact hsame
  · refine ⟨fun _ pair hpair => ?_, fun _ pair hmem => ?_⟩
    · rw [he] at hpair
      cases hpair
    · rw [heq, zipIdx_append] at hmem
      rcases mem_append.1 hmem with hold | hlast
      · exact hsame pair hold
      · simp only [zipIdx_cons, zipIdx_nil, mem_singleton, Nat.zero_add] at hlast
        subst hlast
        rw [getElem?_eq_none (Nat.le_refl _)]
        rcases hnew with ⟨-, rfl⟩ | ⟨active, -, rfl⟩ <;> rfl
  · have hiff := consents_iff (hs q (mem_of_getElem? hq)) hq'
    have hlt : request < s.requests.length := (List.getElem?_eq_some_iff.1 hq).1
    constructor
    · intro hconsent pair hpair other hother
      rw [hconcerns] at hpair
      cases hpair
      rw [hq] at hother
      cases hother
      apply hiff.1
      have := hconsent (q', request) (mem_zipIdx_iff_getElem?.2 (by simp [heq, hlt]))
      rwa [hq] at this
    · intro hguard pair hmem
      rw [heq, mem_zipIdx_iff_getElem?] at hmem
      by_cases hsame' : request = pair.2
      · rw [← hsame', getElem?_set_self hlt] at hmem
        rw [← hsame', hq, ← Option.some.inj hmem]
        exact hiff.2 (hguard (request, happening) hconcerns q hq)
      · rw [getElem?_set_ne hsame'] at hmem
        exact hsame pair (mem_zipIdx_iff_getElem?.2 hmem)

/-- **Privileged execution is with consent exactly if confirmations are in time.**  A run lets
sessions execute commands at most once per request, after the records "requested" and
"confirmed" of that request were written, and never after the request was aborted or
returned, if and only if every time `control.execute` goes on after its audit write the request
is neither aborted nor over. -/
theorem consent_iff_inTime (host : Host) (handler : Bool) (es : List (ℚ × Event)) :
    Along (step host) (fun s e _ => Guarded InTime s e) (.initial handler) es ↔
      Along (step host) ConsentAt (.initial handler) es := by
  have hstart : AllConsented (.initial handler) := by
    intro q hq
    cases hq
  constructor
  · refine along_of_invariant (I := AllConsented) ?_ es _ hstart
    intro s e t hs hstep hguard
    exact ⟨(consentAt_iff hs hstep).2 hguard, step_allConsented hs hstep⟩
  · refine along_of_invariant (I := AllConsented) ?_ es _ hstart
    intro s e t hs hstep hconsent
    exact ⟨(consentAt_iff hs hstep).1 hconsent, step_allConsented hs hstep⟩

/-- Every command is a plain use of sudo. -/
def plainHost : Host where
  inspectShellPrivilege _ := ⟨.sudo, [], false, false⟩
  isRootTarget _ := false
  normalize := id

/-- A request for a local command. -/
def plainInput (toolCallId : String) : PrivilegeExecuteInput :=
  ⟨toolCallId, "bash", .localBash, "sudo id", ⟨.localHost, none, none⟩⟩

/-- A request whose handler has staged the command and asked to execute it. -/
def confirming : List (ℚ × Event) :=
  [(1, .execute (plainInput "call-1") false), (2, .happen 0 (.advance true)),
    (3, .happen 0 (.control .start)), (4, .happen 0 (.answer 0 true)),
    (5, .happen 0 (.answer 0 true)), (6, .happen 0 (.control .execute))]

/-- **The command is executed after the request was aborted**, and after it returned, if the
audit write takes longer. -/
theorem late_confirmation_without_consent :
    ¬Along (step plainHost) ConsentAt (.initial true)
      (confirming ++ [(7, .cancelPending), (8, .happen 0 (.answer 0 true))]) ∧
    ¬Along (step plainHost) ConsentAt (.initial true)
      (confirming ++ [(7, .happen 0 (.handlerSettles (.rejected none))),
        (8, .happen 0 (.advance true)), (9, .happen 0 (.advance true)),
        (10, .happen 0 (.advance true)), (11, .happen 0 (.answer 0 true))]) := by
  decide

end BeauPi.Privilege
