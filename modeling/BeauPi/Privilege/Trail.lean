import BeauPi.Privilege.Consent

/-!
# Privileged commands: the audit trail

A request has about ten ways out, most of which write a last audit record; the methods of its
control object write records of their own.  When the ways out that write none are not taken,
and the session has executed before the request goes for its last record, the records of a
request tell its story.

* `WellAudited` — the records of a request are "requested", then perhaps "confirmed" and
  perhaps "started", then, once it has returned, one last record that agrees with the result.
* `AuditSucceeds` — no audit write fails.
* `Orderly`, `TakenUp` — the conditions on what happens to a request, and on new requests.
* `trail_wellFormed_of_orderly` — **along every orderly run whose audit writes succeed the
  records of all requests are well-formed**.
-/

namespace BeauPi.Privilege

open Machine List PrivilegeRequest
open Option (some.injEq toList_none toList_some)

variable {host : Host} {now : ℚ} {s t : PrivilegeSystem}

/-! ## What is promised and when -/

/-- The types of the records of a request, in the order in which the writer was given them. -/
def PrivilegeRequest.events (q : PrivilegeRequest) : List PrivilegeAuditEventType :=
  q.appended.map (·.event)

/-- A last record agrees with the status of a result. -/
def agrees : PrivilegeAuditEventType → PrivilegeResultStatus → Bool
  | .completed, .succeeded => true
  | .failed, .failed | .failed, .interactionError => true
  | .cancelled, .cancelled => true
  | .blocked, .blocked | .blocked, .interactionRequired => true
  | _, _ => false

/-- The last records there are. -/
def terminalEvents : List PrivilegeAuditEventType := [.completed, .failed, .cancelled, .blocked]

/-- A request has returned a result that the last record agrees with, if it has returned. -/
def Concluded (last : Option PrivilegeAuditEventType) : Stage → Prop
  | .done (.returned result) => last.any (agrees · result.status) = true
  | .done .thrown => False
  | _ => True

instance (last : Option PrivilegeAuditEventType) : (stage : Stage) → Decidable (Concluded last stage)
  | .done (.returned _) => inferInstanceAs (Decidable (_ = true))
  | .done .thrown => inferInstanceAs (Decidable False)
  | .requesting | .refusing .. | .racing _ | .cancelling | .collecting | .rejecting _ | .waiting
  | .concluding _ | .reviewing _ | .releasing _ => isTrue trivial

/-- **The records of a request**: "requested", then optionally "confirmed" and then optionally
"started", then at most one last record, with nothing after it; if the request has returned,
there is one, and it agrees with the result. -/
def WellAudited (q : PrivilegeRequest) : Prop :=
  ∃ middle ∈ [[], [.confirmed], [.confirmed, .started]],
    ∃ last ∈ none :: terminalEvents.map some,
      q.events = .requested :: (middle ++ last.toList) ∧ Concluded last q.stage

instance (q : PrivilegeRequest) : Decidable (WellAudited q) :=
  inferInstanceAs (Decidable (∃ middle ∈ _, ∃ last ∈ _, _ ∧ _))

/-- The records of all requests are in order. -/
def AllAudited (s : PrivilegeSystem) : Prop := ∀ q ∈ s.requests, WellAudited q

instance (s : PrivilegeSystem) : Decidable (AllAudited s) :=
  inferInstanceAs (Decidable (∀ q ∈ _, _))

/-- The main flow is suspended in an audit write. -/
def Stage.audits : Stage → Bool
  | .requesting | .refusing .. | .rejecting _ | .concluding _ => true
  | _ => false

/-- A method of the control object is suspended in an audit write. -/
def ControlStep.audits : ControlStep → Bool
  | .confirming | .recording => true
  | _ => false

/-- The audit write that what happens waited for succeeded. -/
def AuditSucceeds (q : PrivilegeRequest) : PrivilegeRequest.Happening → Prop
  | .advance ok => q.stage.audits = true → ok = true
  | .answer index ok => (q.controls[index]?).any ControlStep.audits = true → ok = true
  | _ => True

instance (q : PrivilegeRequest) :
    (happening : PrivilegeRequest.Happening) → Decidable (AuditSucceeds q happening)
  | .advance _ | .answer _ _ => inferInstanceAs (Decidable (_ → _))
  | .control _ | .sessionEnds _ | .handlerSettles _ | .abort => isTrue trivial

/-- The main flow has not gone for its last record. -/
def Stage.isOpen : Stage → Bool
  | .requesting | .racing _ | .cancelling | .collecting | .waiting => true
  | _ => false

/-- The main flow has not set the state of the request. -/
def Stage.isIdle : Stage → Bool
  | .requesting | .racing _ | .waiting => true
  | _ => false

/-- The condition on what happens to a request: if the handler says that the interaction is
completed, the session has executed; the promise of `session.wait` is not rejected; and the
session has executed before the main flow goes for its last record. -/
def Orderly (q : PrivilegeRequest) : PrivilegeRequest.Happening → Prop
  | .advance _ =>
    (q.stage = .racing (some .completed) → q.aborted = false →
      q.session ≠ none ∧ q.startedAt ≠ none) ∧
    (q.stage = .waiting → q.waitPromise ≠ some .rejected)
  | .answer index ok =>
    q.controls[index]? = some .executing → ok = true → q.stage.isOpen = true
  | _ => True

instance (q : PrivilegeRequest) :
    (happening : PrivilegeRequest.Happening) → Decidable (Orderly q happening)
  | .advance _ => inferInstanceAs (Decidable (_ ∧ _))
  | .answer _ _ => inferInstanceAs (Decidable (_ → _ → _))
  | .control _ | .sessionEnds _ | .handlerSettles _ | .abort => isTrue trivial

/-- A new request is made only while no other is active. -/
def TakenUp (s : PrivilegeSystem) : Event → Prop
  | .execute input _ => s.active = none ∨
      s.completedByToolCallId.get? input.toolCallId ≠ none ∨
      s.inFlightByToolCallId.get? input.toolCallId ≠ none
  | _ => True

instance (s : PrivilegeSystem) : (e : Event) → Decidable (TakenUp s e)
  | .execute .. => inferInstanceAs (Decidable (_ ∨ _ ∨ _))
  | .settle _ | .setHandler _ | .signal _ | .cancelPending | .happen .. => isTrue trivial

/-! ## One request -/

/-- The last record that the main flow has given to the writer. -/
def EndsWith (last : Option PrivilegeAuditEventType) : Stage → Prop
  | .refusing event status _ _ => last = some event ∧ agrees event status = true
  | .rejecting _ => last = some .blocked
  | .concluding result | .reviewing result => last = some (finalEvent result)
  | .releasing (.returned result) | .done (.returned result) =>
    last.any (agrees · result.status) = true
  | .releasing .thrown | .done .thrown => False
  | .requesting | .racing _ | .cancelling | .collecting | .waiting => last = none

namespace PrivilegeRequest

/-- The records that the control object has given to the writer. -/
def middle (q : PrivilegeRequest) : List PrivilegeAuditEventType :=
  q.confirmedAt.toList.map (fun _ => .confirmed) ++ q.startedAt.toList.map fun _ => .started

/-- The calls of `control.execute` that have not come to the record "started". -/
def unstarted (q : PrivilegeRequest) : Nat :=
  q.controls.countP fun suspended => suspended == .confirming || suspended == .executing

end PrivilegeRequest

/-- The invariant of a request: its records, the calls of `control.execute`, and that nothing
can be confirmed once the main flow has gone for its last record. -/
structure Audited (q : PrivilegeRequest) : Prop where
  records : ∃ last, q.events = .requested :: (q.middle ++ last.toList) ∧ EndsWith last q.stage
  once : q.unstarted + q.startedAt.toList.length ≤ q.confirmedAt.toList.length
  closed : q.state = .waitingForUser → q.stage.isIdle = true

variable {q q' : PrivilegeRequest} {handler pending : Bool}

theorem endsWith_open {stage : Stage} {last : Option PrivilegeAuditEventType}
    (hopen : stage.isOpen = true) : EndsWith last stage ↔ last = none := by
  cases stage <;> first | exact Iff.rfl | cases hopen

/-- A last record is given to the writer. -/
theorem Audited.last (h : Audited q) (hopen : q.stage.isOpen = true) (hframe : q.Frame q')
    (event : PrivilegeAuditEventType) (hevents : q'.events = q.events ++ [event])
    (hends : EndsWith (some event) q'.stage) (hstate : q'.state ≠ .waitingForUser) : Audited q' := by
  obtain ⟨last, hrecords, hlast⟩ := h.records
  obtain rfl := (endsWith_open hopen).1 hlast
  refine ⟨⟨some event, ?_, hends⟩, ?_, fun hwaiting => absurd hwaiting hstate⟩
  · rw [hevents, hrecords]
    simp [middle, hframe.confirmedAt, hframe.startedAt]
  · rw [unstarted, hframe.controls, hframe.startedAt, hframe.confirmedAt]
    exact h.once

/-- The main flow goes on and gives no record to the writer. -/
theorem Audited.move (h : Audited q) (hframe : q.Frame q') (hevents : q'.events = q.events)
    (hends : ∀ last, EndsWith last q.stage → EndsWith last q'.stage)
    (hclosed : q'.state = .waitingForUser → q'.stage.isIdle = true) : Audited q' := by
  obtain ⟨last, hrecords, hlast⟩ := h.records
  refine ⟨⟨last, ?_, hends last hlast⟩, ?_, hclosed⟩
  · rw [hevents, hrecords]
    simp [middle, hframe.confirmedAt, hframe.startedAt]
  · rw [unstarted, hframe.controls, hframe.startedAt, hframe.confirmedAt]
    exact h.once

theorem Audited.state_ne (h : Audited q) (hbusy : q.stage.isIdle = false) :
    q.state ≠ .waitingForUser := by
  intro hwaiting
  rw [h.closed hwaiting] at hbusy
  cases hbusy

theorem Stage.isOpen_of_isIdle {stage : Stage} (h : stage.isIdle = true) : stage.isOpen = true := by
  cases stage <;> first | rfl | cases h

theorem endsWith_of_open {last : Option PrivilegeAuditEventType} {stage stage' : Stage}
    (hopen : stage.isOpen = true) (hopen' : stage'.isOpen = true) (h : EndsWith last stage) :
    EndsWith last stage' :=
  (endsWith_open hopen').2 ((endsWith_open hopen).1 h)

@[simp] theorem events_note (q : PrivilegeRequest) (event : PrivilegeAuditEventType) (ok : Bool) :
    (q.note event ok).events = q.events := by
  cases ok <;> rfl

@[simp] theorem stage_note (q : PrivilegeRequest) (event : PrivilegeAuditEventType) (ok : Bool) :
    (q.note event ok).stage = q.stage := by
  cases ok <;> rfl

@[simp] theorem state_note (q : PrivilegeRequest) (event : PrivilegeAuditEventType) (ok : Bool) :
    (q.note event ok).state = q.state := by
  cases ok <;> rfl

theorem Audited.note (h : Audited q) (event : PrivilegeAuditEventType) (ok : Bool) :
    Audited (q.note event ok) :=
  h.move (frame_note ..) (by simp) (by simp) (by simpa using h.closed)

theorem Audited.refuse (h : Audited q) (hopen : q.stage.isOpen = true)
    {state : PrivilegeRequestState} (hstate : state ≠ .waitingForUser)
    {event : PrivilegeAuditEventType} {status : PrivilegeResultStatus}
    (hagrees : agrees event status = true) (now : ℚ) (confirmed : Option Bool)
    (issue : PrivilegeDiagnostic) :
    Audited (q.refuse now state event confirmed status issue) :=
  h.last hopen (frame_refuse ..) event
    (by simp [PrivilegeRequest.events, PrivilegeRequest.refuse, audit])
    ⟨rfl, hagrees⟩ hstate

theorem agrees_final (result : PrivilegeCommandResult) :
    agrees (finalEvent result) (PrivilegeRequest.finalStatus result) = true := by
  unfold finalEvent PrivilegeRequest.finalStatus
  split_ifs <;> rfl

theorem Audited.settleResult (h : Audited q) (hopen : q.stage.isOpen = true) (host : Host) (now : ℚ)
    (result : PrivilegeCommandResult) : Audited (q.settleResult host now result) := by
  refine h.last hopen (frame_settleResult ..)
    (finalEvent result) ?_ rfl ?_
  · simp [PrivilegeRequest.events, PrivilegeRequest.settleResult, audit]
  · simp only [PrivilegeRequest.settleResult, audit]
    split_ifs <;> decide

theorem Audited.settleCancelled (h : Audited q) (hopen : q.stage.isOpen = true)
    (hstate : q.state ≠ .waitingForUser) (host : Host) (now : ℚ)
    (result : Option PrivilegeCommandResult) : Audited (q.settleCancelled host now result) :=
  h.last hopen (frame_settleCancelled ..) .cancelled
    (by simp [PrivilegeRequest.events, PrivilegeRequest.settleCancelled, audit])
    ⟨rfl, rfl⟩ hstate

/-- A request with a last record returns. -/
theorem Audited.conclude (h : Audited q) {status : PrivilegeResultStatus}
    (hagrees : ∀ last, EndsWith last q.stage → last.any (agrees · status) = true)
    (hclosed : q.state ≠ .waitingForUser) (now : ℚ) (issue : Option PrivilegeDiagnostic)
    (result : Option PrivilegeCommandResult) : Audited (q.conclude now status issue result) :=
  h.move (frame_conclude ..) rfl hagrees fun hwaiting => absurd hwaiting hclosed

theorem Audited.afterRequested (h : Audited q) (hstage : q.stage = .requesting) (host : Host) (now : ℚ)
    (handler : Bool) : Audited (q.afterRequested host now handler true) := by
  have hopen : q.stage.isOpen = true := by rw [hstage]; rfl
  unfold PrivilegeRequest.afterRequested
  split
  · exact h.refuse hopen (by decide) rfl ..
  · rw [if_neg (show ¬(true = false) by decide)]
    split_ifs
    · exact h.refuse hopen (by decide) rfl ..
    · exact h.refuse hopen (by decide) rfl ..
    · obtain ⟨last, hrecords, hlast⟩ := h.records
      exact ⟨⟨last, hrecords, endsWith_of_open hopen rfl hlast⟩, h.once, fun _ => rfl⟩

/-- What the handler answers. -/
theorem Audited.respond (h : Audited q) {response : PrivilegeInteractionResponse}
    (hstage : q.stage = .racing (some response)) (horderly : Orderly q (.advance true))
    (host : Host) (now : ℚ) : Audited (q.respond host now response) := by
  have hopen : q.stage.isOpen = true := by rw [hstage]; rfl
  have hframe := frame_respond q host now response
  unfold PrivilegeRequest.respond at hframe ⊢
  by_cases hcancelled : response = .cancelled ∨ q.aborted = true
  · rw [if_pos hcancelled] at hframe ⊢
    exact h.move hframe rfl (fun last => endsWith_of_open hopen rfl)
      fun hwaiting => by cases hwaiting
  · rw [if_neg hcancelled] at hframe ⊢
    simp only [not_or, Bool.not_eq_true] at hcancelled
    cases response with
    | cancelled => exact absurd rfl hcancelled.1
    | rejected message =>
      refine h.last hopen hframe .blocked ?_ rfl fun hwaiting => by cases hwaiting
      simp [PrivilegeRequest.events, audit]
    | error message => exact h.refuse hopen (by decide) rfl ..
    | completed =>
      obtain ⟨hsession, hstarted⟩ := horderly.1 hstage hcancelled.2
      have hran : ¬(q.session = none ∨ q.startedAt = none) := by simp [hsession, hstarted]
      dsimp only
      rw [if_neg hran]
      split
      · exact h.settleResult hopen ..
      · exact h.move (frame_stage q q.state _ _) rfl
          (fun last => endsWith_of_open hopen rfl) fun _ => rfl

/-- **The main flow** keeps the records in order. -/
theorem Audited.advance {ok : Bool} (h : Audited q) (haudit : AuditSucceeds q (.advance ok))
    (horderly : Orderly q (.advance ok))
    (hstep : q.advance host now handler true ok = some q') : Audited q' := by
  cases hstage : q.stage with
  | requesting =>
    obtain rfl : ok = true := haudit (by rw [hstage]; rfl)
    simp only [PrivilegeRequest.advance, hstage, Bool.true_eq_false, if_false,
      some.injEq] at hstep
    subst hstep
    exact (h.note .requested true).afterRequested (by simpa using hstage) host now handler
  | refusing event status issue result =>
    simp only [PrivilegeRequest.advance, hstage, some.injEq] at hstep
    subst hstep
    refine (h.note event ok).conclude ?_ ?_ ..
    · intro last hlast
      rw [stage_note, hstage] at hlast
      obtain ⟨rfl, hagrees⟩ := hlast
      exact hagrees
    · rw [state_note]
      exact h.state_ne (by rw [hstage]; rfl)
  | racing response =>
    cases response with
    | none => simp [PrivilegeRequest.advance, hstage] at hstep
    | some response =>
      simp only [PrivilegeRequest.advance, hstage, some.injEq] at hstep
      subst hstep
      exact h.respond hstage horderly host now
  | cancelling =>
    have hopen : q.stage.isOpen = true := by rw [hstage]; rfl
    have hstate := h.state_ne (by rw [hstage]; rfl)
    simp only [PrivilegeRequest.advance, hstage] at hstep
    split at hstep
    · cases hstep
      exact h.move (frame_stage q q.state _ q.waitPromise) rfl
        (fun last => endsWith_of_open hopen rfl) fun hwaiting => absurd hwaiting hstate
    · cases hstep
      exact h.settleCancelled hopen hstate ..
  | collecting =>
    have hopen : q.stage.isOpen = true := by rw [hstage]; rfl
    have hstate := h.state_ne (by rw [hstage]; rfl)
    simp only [PrivilegeRequest.advance, hstage] at hstep
    split at hstep
    · cases hstep
      exact h.settleCancelled hopen hstate ..
    · cases hstep
      exact h.settleCancelled hopen hstate ..
    · cases hstep
  | rejecting issue =>
    obtain rfl : ok = true := haudit (by rw [hstage]; rfl)
    simp only [PrivilegeRequest.advance, hstage, if_true, some.injEq] at hstep
    subst hstep
    refine (h.note .blocked true).conclude ?_ ?_ ..
    · intro last hlast
      rw [stage_note, hstage] at hlast
      obtain rfl : last = some .blocked := hlast
      rfl
    · rw [state_note]
      exact h.state_ne (by rw [hstage]; rfl)
  | waiting =>
    have hopen : q.stage.isOpen = true := by rw [hstage]; rfl
    simp only [PrivilegeRequest.advance, hstage] at hstep
    split at hstep
    · cases hstep
      exact h.settleResult hopen ..
    · rename_i hrejected
      exact absurd hrejected (horderly.2 hstage)
    · cases hstep
  | concluding result =>
    obtain rfl : ok = true := haudit (by rw [hstage]; rfl)
    simp only [PrivilegeRequest.advance, hstage, if_true, some.injEq] at hstep
    subst hstep
    refine (h.note _ true).move
      (frame_stage (q.note _ true) q.state _ q.waitPromise) rfl ?_ ?_
    · intro last hlast
      rwa [stage_note, hstage] at hlast
    · exact fun hwaiting => absurd hwaiting (h.state_ne (by rw [hstage]; rfl))
  | reviewing result =>
    simp only [PrivilegeRequest.advance, hstage, some.injEq] at hstep
    subst hstep
    refine h.conclude ?_ (h.state_ne (by rw [hstage]; rfl)) ..
    intro last hlast
    rw [hstage] at hlast
    obtain rfl : last = some (finalEvent result) := hlast
    exact agrees_final result
  | releasing outcome =>
    simp only [PrivilegeRequest.advance, hstage, some.injEq] at hstep
    subst hstep
    refine h.move (frame_stage q q.state _ q.waitPromise) rfl ?_ ?_
    · intro last hlast
      rw [hstage] at hlast
      cases outcome <;> exact hlast
    · exact fun hwaiting => absurd hwaiting (h.state_ne (by rw [hstage]; rfl))
  | done outcome => simp [PrivilegeRequest.advance, hstage] at hstep

/-- What leaves the records, the calls of `control.execute` and the stage alone. -/
theorem Audited.keep (h : Audited q) (hevents : q'.events = q.events)
    (hconfirmed : q'.confirmedAt = q.confirmedAt) (hstarted : q'.startedAt = q.startedAt)
    (hunstarted : q'.unstarted ≤ q.unstarted)
    (hends : ∀ last, EndsWith last q.stage → EndsWith last q'.stage)
    (hclosed : q'.state = .waitingForUser → q'.stage.isIdle = true) : Audited q' := by
  obtain ⟨last, hrecords, hlast⟩ := h.records
  refine ⟨⟨last, ?_, hends last hlast⟩, ?_, hclosed⟩
  · rw [hevents, hrecords]
    simp [middle, hconfirmed, hstarted]
  · rw [hstarted, hconfirmed]
    exact Nat.le_trans (Nat.add_le_add_right hunstarted _) h.once

theorem Audited.abort (h : Audited q) : Audited q.abort := by
  refine h.keep rfl rfl rfl (Nat.le_refl _) ?_ ?_
  · intro last hlast
    unfold PrivilegeRequest.abort
    dsimp only
    split
    · rename_i hstage
      rw [hstage] at hlast
      exact hlast
    · exact hlast
  · intro hwaiting
    have hidle := h.closed hwaiting
    unfold PrivilegeRequest.abort
    dsimp only
    split
    · rfl
    · exact hidle

theorem Audited.control (h : Audited q) (call : PrivilegeRequest.ControlCall) :
    Audited (q.control now call) := by
  cases call with
  | start =>
    simp only [PrivilegeRequest.control]
    split_ifs
    · exact h
    · refine h.keep rfl rfl rfl ?_ (fun _ hlast => hlast) h.closed
      simp [unstarted, countP_append]
  | execute =>
    simp only [PrivilegeRequest.control]
    split_ifs with hrefused
    · exact h
    · -- nothing was confirmed before, and there is no last record
      simp only [not_or, ne_eq, not_not] at hrefused
      obtain ⟨-, hwaiting, hnone, -⟩ := hrefused
      obtain ⟨last, hrecords, hlast⟩ := h.records
      have hidle := h.closed hwaiting
      obtain rfl := (endsWith_open (Stage.isOpen_of_isIdle hidle)).1 hlast
      have honce := h.once
      simp only [hnone, toList_none, length_nil, Nat.le_zero, Nat.add_eq_zero_iff,
        length_eq_zero_iff] at honce
      refine ⟨⟨none, ?_, (endsWith_open (Stage.isOpen_of_isIdle hidle)).2 rfl⟩, ?_, fun _ => hidle⟩
      · simp only [PrivilegeRequest.events, audit, map_append] at hrecords ⊢
        rw [hrecords]
        simp [middle, hnone, honce.2]
      · have hunstarted := honce.1
        simp only [unstarted] at hunstarted
        simp [unstarted, audit, countP_append, hunstarted,
          honce.2]
  | cancel => exact h.abort
  | wait =>
    simp only [PrivilegeRequest.control]
    split_ifs
    · exact h
    · exact h.keep rfl rfl rfl (Nat.le_refl _) (fun _ hlast => hlast) h.closed

/-- A method of the control object that throws, or is over. -/
theorem Audited.eraseIdx (h : Audited q) (index : Nat) :
    Audited { q with controls := q.controls.eraseIdx index } :=
  h.keep rfl rfl rfl (eraseIdx_sublist q.controls index).countP_le (fun _ hlast => hlast)
    h.closed

/-- A suspended method of the control object goes on to its next suspension. -/
theorem unstarted_set {index : Nat} {before : ControlStep}
    (hbefore : q.controls[index]? = some before) (after : ControlStep) :
    (q.controls.set index after).countP
        (fun suspended => suspended == .confirming || suspended == .executing) +
      (if before = .confirming ∨ before = .executing then 1 else 0) =
    q.unstarted + if after = .confirming ∨ after = .executing then 1 else 0 := by
  obtain ⟨hlt, rfl⟩ := List.getElem?_eq_some_iff.1 hbefore
  rw [countP_set hlt, unstarted]
  simp only [Bool.or_eq_true, beq_iff_eq]
  by_cases hunstarted : q.controls[index] = .confirming ∨ q.controls[index] = .executing
  · have hpos : 0 < q.controls.countP
        fun suspended => suspended == .confirming || suspended == .executing :=
      countP_pos_iff.2 ⟨_, getElem_mem hlt, by simpa using hunstarted⟩
    simp only [if_pos hunstarted]
    omega
  · simp only [if_neg hunstarted]
    omega

/-- **The control object** keeps the records in order. -/
theorem Audited.answer (h : Audited q) {index : Nat} {ok : Bool}
    (horderly : Orderly q (.answer index ok))
    (hanswer : q.answer now index ok = some q') : Audited q' := by
  obtain ⟨suspended, hsuspended, rfl⟩ := Option.map_eq_some_iff.1 hanswer
  have hset := unstarted_set hsuspended
  cases suspended with
  | creating =>
    dsimp only
    split_ifs
    · exact h.keep rfl rfl rfl (Nat.le_of_eq (hset .staging)) (fun _ hlast => hlast) h.closed
    · exact h.eraseIdx index
  | staging => exact h.eraseIdx index
  | confirming =>
    dsimp only
    split_ifs with hok
    · subst hok
      refine h.keep rfl rfl rfl ?_ (fun _ hlast => hlast) fun hwaiting => by cases hwaiting
      exact Nat.le_of_eq (Nat.add_right_cancel (hset .executing))
    · exact h.eraseIdx index
  | executing =>
    dsimp only
    split_ifs with hok
    · -- the record "started" comes before the last one
      have hopen := horderly hsuspended hok
      obtain ⟨last, hrecords, hlast⟩ := h.records
      obtain rfl := (endsWith_open hopen).1 hlast
      have honce := h.once
      have hcount := hset .recording
      simp only [reduceCtorEq, or_true, or_self, if_true, if_false, Nat.add_zero] at hcount
      obtain ⟨confirmedAt, hconfirmed⟩ : ∃ confirmedAt, q.confirmedAt = some confirmedAt := by
        cases hconfirmed : q.confirmedAt with
        | some confirmedAt => exact ⟨confirmedAt, rfl⟩
        | none => rw [hconfirmed] at honce; simp at honce; omega
      have hstarted : q.startedAt = none := by
        cases hstarted : q.startedAt with
        | none => rfl
        | some startedAt => rw [hstarted, hconfirmed] at honce; simp at honce; omega
      refine ⟨⟨none, ?_, (endsWith_open hopen).2 rfl⟩, ?_, fun hwaiting => by cases hwaiting⟩
      · simp only [PrivilegeRequest.events, audit, map_append] at hrecords ⊢
        rw [hrecords]
        simp [middle, hconfirmed, hstarted]
      · simp only [unstarted, audit, hconfirmed,
          toList_some, length_singleton]
        rw [hstarted, hconfirmed] at honce
        simp only [toList_none, toList_some, length_nil,
          length_singleton] at honce
        omega
    · exact h.eraseIdx index
  | recording => exact (h.eraseIdx index).note .started ok

/-- **Whatever happens to a request** in order keeps its records in order. -/
theorem Audited.step (h : Audited q) {happening : PrivilegeRequest.Happening}
    (haudit : AuditSucceeds q happening) (horderly : Orderly q happening)
    (hstep : q.step host now handler true happening = some q') : Audited q' := by
  cases happening with
  | advance ok => exact h.advance haudit horderly hstep
  | control call =>
    simp only [PrivilegeRequest.step] at hstep
    split_ifs at hstep
    cases hstep
    exact h.control call
  | answer index ok => exact h.answer horderly hstep
  | sessionEnds result =>
    simp only [PrivilegeRequest.step, sessionEnds] at hstep
    split at hstep
    · cases hstep
      exact h.keep rfl rfl rfl (Nat.le_refl _) (fun _ hlast => hlast) h.closed
    · cases hstep
      exact h.keep rfl rfl rfl (Nat.le_refl _) (fun _ hlast => hlast) h.closed
    · cases hstep
  | handlerSettles response =>
    simp only [PrivilegeRequest.step] at hstep
    split_ifs at hstep
    cases hstep
    unfold handlerSettles
    split
    · rename_i hstage
      refine h.keep rfl rfl rfl (Nat.le_refl _) ?_ fun _ => rfl
      intro last hlast
      rw [hstage] at hlast
      exact hlast
    · exact h
  | abort => cases hstep; exact h.abort

/-- A record that agrees with a status is a last one. -/
theorem mem_terminalEvents {event : PrivilegeAuditEventType} {status : PrivilegeResultStatus}
    (h : agrees event status = true) : event ∈ terminalEvents := by
  cases event <;> first | decide | cases h

theorem EndsWith.mem {last : Option PrivilegeAuditEventType} {stage : Stage}
    (h : EndsWith last stage) : last ∈ none :: terminalEvents.map some := by
  cases last with
  | none => exact mem_cons_self
  | some event =>
    refine mem_cons_of_mem _ (mem_map_of_mem ?_)
    cases stage with
    | refusing event' status issue result =>
      obtain ⟨heq, hagrees⟩ := h
      cases heq
      exact mem_terminalEvents hagrees
    | rejecting issue => cases h; decide
    | concluding result | reviewing result =>
      cases h
      exact mem_terminalEvents (agrees_final result)
    | releasing outcome | done outcome =>
      cases outcome with
      | returned result => exact mem_terminalEvents h
      | thrown => exact h.elim
    | requesting | racing _ | cancelling | collecting | waiting => cases h

/-- The invariant gives what is promised. -/
theorem Audited.wellAudited (h : Audited q) : WellAudited q := by
  obtain ⟨last, hrecords, hlast⟩ := h.records
  refine ⟨q.middle, ?_, last, hlast.mem, hrecords, ?_⟩
  · have honce := h.once
    unfold middle
    cases hconfirmed : q.confirmedAt with
    | none =>
      rw [hconfirmed] at honce
      simp only [toList_none, length_nil, Nat.le_zero, Nat.add_eq_zero_iff,
        length_eq_zero_iff] at honce
      simp [honce.2]
    | some confirmedAt => cases q.startedAt <;> simp
  · cases hstage : q.stage with
    | done outcome =>
      rw [hstage] at hlast
      cases outcome <;> exact hlast
    | _ => trivial

/-! ## Runs -/

/-- The invariant of the orderly runs. -/
structure TrailInvariant (s : PrivilegeSystem) : Prop where
  activated : Activated s
  audited : ∀ q ∈ s.requests, Audited q

theorem audited_opened (s : PrivilegeSystem) (host : Host) (now : ℚ)
    (input : PrivilegeExecuteInput) (aborted : Bool) : Audited (s.opened host now input aborted) :=
  ⟨⟨none, rfl, rfl⟩, Nat.le_refl 0, fun _ => rfl⟩

/-- **An orderly step** keeps the invariant. -/
theorem step_trail {e : ℚ × Event} (hs : TrailInvariant s) (haudit : Guarded AuditSucceeds s e)
    (horderly : Guarded Orderly s e) (htaken : TakenUp s e.2) (hstep : step host s e = some t) :
    TrailInvariant t := by
  refine ⟨step_activated hs.activated hstep, ?_⟩
  refine step_forall hstep ?_ ?_ ?_ hs.audited
  · intro input aborted _ _
    exact audited_opened s host e.1 input aborted
  · intro input aborted active hactive he hcompleted hflight
    rw [he] at htaken
    simp [TakenUp, hactive, hcompleted, hflight] at htaken
  · intro request happening q q' hconcerns hq hq' hqaudited
    exact hqaudited.step (haudit (request, happening) hconcerns q hq)
      (horderly (request, happening) hconcerns q hq) (hs.activated.pending hq hq')

/-- **The audit trail is well-formed if requests are orderly.**  If no audit write fails, then
along every run in which a request is made only while no other is active, a handler says
"completed" only after its session has executed, the promise of `session.wait` that a request
takes is not rejected, and a session has executed before its request goes for the last record,
the records of all requests are well-formed in every state reached. -/
theorem trail_wellFormed_of_orderly (host : Host) (handler : Bool) (es : List (ℚ × Event))
    (haudit : Along (step host) (fun s e _ => Guarded AuditSucceeds s e) (.initial handler) es)
    (horderly : Along (step host) (fun s e _ => Guarded Orderly s e ∧ TakenUp s e.2)
      (.initial handler) es) :
    Along (step host) (fun _ _ t => AllAudited t) (.initial handler) es := by
  have hstart : TrailInvariant (.initial handler) :=
    ⟨fun _ _ hq => (nomatch hq), fun _ hq => (nomatch hq)⟩
  refine along_of_invariant (I := TrailInvariant) ?_ es _ hstart (along_and es _ haudit horderly)
  intro s e t hs hstep ⟨haudit, horderly, htaken⟩
  have ht := step_trail hs haudit horderly htaken hstep
  exact ⟨fun q hq => (ht.audited q hq).wellAudited, ht⟩

/-- The handler says that the interaction is completed, and the command was never executed. -/
def neverExecuted : List (ℚ × Event) :=
  [(1, .execute (plainInput "call-1") false), (2, .happen 0 (.advance true)),
    (3, .happen 0 (.handlerSettles .completed)), (4, .happen 0 (.advance true)),
    (5, .happen 0 (.advance true))]

/-- The command is started after the request went for its last record. -/
def startedLate : List (ℚ × Event) :=
  confirming ++ [(7, .happen 0 (.answer 0 true)), (8, .cancelPending),
    (9, .happen 0 (.advance true)), (10, .happen 0 (.advance true)),
    (11, .happen 0 (.answer 0 true))]

/-- **A request returns without a last record**, or has one that is not the last, although no
audit write fails. -/
theorem trail_not_wellFormed :
    (Along (step plainHost) (fun s e _ => Guarded AuditSucceeds s e) (.initial true)
        neverExecuted ∧
      ¬Along (step plainHost) (fun _ _ t => AllAudited t) (.initial true) neverExecuted) ∧
    (Along (step plainHost) (fun s e _ => Guarded AuditSucceeds s e) (.initial true) startedLate ∧
      ¬Along (step plainHost) (fun _ _ t => AllAudited t) (.initial true) startedLate) := by
  decide

/-- A command that is executed and succeeds. -/
def succeeding : List (ℚ × Event) :=
  confirming ++ [(7, .happen 0 (.answer 0 true)), (8, .happen 0 (.answer 0 true)),
    (9, .happen 0 (.answer 0 true)), (10, .happen 0 (.control .wait)),
    (20, .happen 0 (.sessionEnds (some ⟨some 0, 8, 19, false, false, none⟩))),
    (21, .happen 0 (.handlerSettles .completed)), (22, .happen 0 (.advance true)),
    (23, .happen 0 (.advance true)), (24, .happen 0 (.advance true)),
    (25, .happen 0 (.advance true)), (26, .settle 0)]

/-- The general result at a run that succeeds. -/
theorem trail_wellFormed_of_orderly_succeeding :
    ((runFrom (step plainHost) (.initial true) succeeding).map fun s => s.requests.map (·.events)) =
        some [[.requested, .confirmed, .started, .completed]] ∧
      Along (step plainHost) (fun _ _ t => AllAudited t) (.initial true) succeeding := by
  refine ⟨by decide, ?_⟩
  exact trail_wellFormed_of_orderly plainHost true succeeding (by decide)
    (by decide)

end BeauPi.Privilege
