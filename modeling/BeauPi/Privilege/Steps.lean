import BeauPi.Privilege.Runtime

/-!
# Privileged commands: what a step can do

A step of the runtime opens a request, lets something happen to one request, or touches no
request; the main flow of a request and the methods of its control object change different
parts of it.  The proofs about runs are made of these facts.

* `Frame` — what the main flow of a request leaves alone; `advance_frame`.
* `step_cases`, `step_requests` — what a step of the runtime can be.
* `step_forall` — a property of requests that everything that happens to them keeps.
-/

namespace BeauPi.Privilege

open Machine List

variable {host : Host} {now : ℚ} {s t : PrivilegeSystem} {e : Event}

namespace PrivilegeRequest

variable {q q' q'' : PrivilegeRequest}

/-! ## The main flow -/

/-- What the main flow of a request leaves alone. -/
structure Frame (q q' : PrivilegeRequest) : Prop where
  input : q'.input = q.input
  id : q'.id = q.id
  aborted : q'.aborted = q.aborted
  session : q'.session = q.session
  result : q'.result = q.result
  confirmedAt : q'.confirmedAt = q.confirmedAt
  startedAt : q'.startedAt = q.startedAt
  controls : q'.controls = q.controls
  executions : q'.executions = q.executions
  written : ∀ event ∈ q.written, event ∈ q'.written
  /-- the control object is handed out only when "requested" is written -/
  offered : q'.offered = true → q.offered = true ∨ .requested ∈ q'.written
  keepsOffer : q.offered = true → q'.offered = true

theorem Frame.refl (q : PrivilegeRequest) : Frame q q :=
  ⟨rfl, rfl, rfl, rfl, rfl, rfl, rfl, rfl, rfl, fun _ h => h, .inl, fun h => h⟩

theorem Frame.trans (h : Frame q q') (h' : Frame q' q'') : Frame q q'' where
  input := h'.input.trans h.input
  id := h'.id.trans h.id
  aborted := h'.aborted.trans h.aborted
  session := h'.session.trans h.session
  result := h'.result.trans h.result
  confirmedAt := h'.confirmedAt.trans h.confirmedAt
  startedAt := h'.startedAt.trans h.startedAt
  controls := h'.controls.trans h.controls
  executions := h'.executions.trans h.executions
  written := fun event hmem => h'.written event (h.written event hmem)
  offered := fun hoffered => (h'.offered hoffered).elim
    (fun hold => (h.offered hold).imp_right (h'.written _)) .inr
  keepsOffer := fun hoffered => h'.keepsOffer (h.keepsOffer hoffered)

/-- The main flow sets its stage, the state of the request, and the promise it waits for. -/
theorem frame_stage (q : PrivilegeRequest) (state : PrivilegeRequestState) (stage : Stage)
    (waitPromise : Option WaitPromise) : Frame q { q with state, stage, waitPromise } :=
  ⟨rfl, rfl, rfl, rfl, rfl, rfl, rfl, rfl, rfl, fun _ h => h, .inl, fun h => h⟩

theorem frame_note (q : PrivilegeRequest) (event : PrivilegeAuditEventType) (ok : Bool) :
    Frame q (q.note event ok) := by
  cases ok
  · exact .refl q
  · exact ⟨rfl, rfl, rfl, rfl, rfl, rfl, rfl, rfl, rfl, fun _ h => mem_append_left _ h,
      .inl, fun h => h⟩

theorem mem_note_written (q : PrivilegeRequest) (event : PrivilegeAuditEventType) :
    event ∈ (q.note event true).written :=
  mem_append_right _ (mem_singleton_self event)

theorem frame_release (q : PrivilegeRequest) (outcome : Outcome) : Frame q (q.release outcome) :=
  ⟨rfl, rfl, rfl, rfl, rfl, rfl, rfl, rfl, rfl, fun _ h => h, .inl, fun h => h⟩

theorem frame_conclude (q : PrivilegeRequest) (now : ℚ) (status : PrivilegeResultStatus)
    (issue : Option PrivilegeDiagnostic) (result : Option PrivilegeCommandResult) :
    Frame q (q.conclude now status issue result) :=
  frame_release q _

theorem frame_refuse (q : PrivilegeRequest) (now : ℚ) (state : PrivilegeRequestState)
    (event : PrivilegeAuditEventType) (confirmed : Option Bool) (status : PrivilegeResultStatus)
    (issue : PrivilegeDiagnostic) :
    Frame q (q.refuse now state event confirmed status issue) :=
  ⟨rfl, rfl, rfl, rfl, rfl, rfl, rfl, rfl, rfl, fun _ h => h, .inl, fun h => h⟩

theorem frame_afterRequested (hwritten : .requested ∈ q.written) (host : Host) (now : ℚ)
    (handler pending : Bool) : Frame q (q.afterRequested host now handler pending) := by
  unfold afterRequested
  split
  · exact frame_refuse ..
  · split_ifs
    · exact frame_refuse ..
    · exact frame_refuse ..
    · exact frame_conclude ..
    · exact ⟨rfl, rfl, rfl, rfl, rfl, rfl, rfl, rfl, rfl, fun _ h => h,
        fun _ => .inr hwritten, fun _ => rfl⟩

theorem frame_settleResult (q : PrivilegeRequest) (host : Host) (now : ℚ)
    (result : PrivilegeCommandResult) : Frame q (q.settleResult host now result) :=
  ⟨rfl, rfl, rfl, rfl, rfl, rfl, rfl, rfl, rfl, fun _ h => h, .inl, fun h => h⟩

theorem frame_settleCancelled (q : PrivilegeRequest) (host : Host) (now : ℚ)
    (result : Option PrivilegeCommandResult) : Frame q (q.settleCancelled host now result) :=
  ⟨rfl, rfl, rfl, rfl, rfl, rfl, rfl, rfl, rfl, fun _ h => h, .inl, fun h => h⟩

theorem frame_respond (q : PrivilegeRequest) (host : Host) (now : ℚ)
    (response : PrivilegeInteractionResponse) : Frame q (q.respond host now response) := by
  unfold respond
  split_ifs
  · exact ⟨rfl, rfl, rfl, rfl, rfl, rfl, rfl, rfl, rfl, fun _ h => h, .inl, fun h => h⟩
  · cases response with
    | rejected message => exact ⟨rfl, rfl, rfl, rfl, rfl, rfl, rfl, rfl, rfl, fun _ h => h, .inl,
      fun h => h⟩
    | error message => exact frame_refuse ..
    | completed => exact frame_conclude ..
    | cancelled => exact frame_conclude ..
  · cases response with
    | rejected message => exact ⟨rfl, rfl, rfl, rfl, rfl, rfl, rfl, rfl, rfl, fun _ h => h, .inl,
      fun h => h⟩
    | error message => exact frame_refuse ..
    | completed | cancelled =>
      dsimp only
      split
      · exact frame_settleResult ..
      · exact ⟨rfl, rfl, rfl, rfl, rfl, rfl, rfl, rfl, rfl, fun _ h => h, .inl, fun h => h⟩

variable {handler pending : Bool}

/-- **The main flow** leaves the control object's part of the request alone. -/
theorem advance_frame {ok : Bool} (h : q.advance host now handler pending ok = some q') :
    Frame q q' := by
  unfold advance at h
  split at h
  · split_ifs at h with hok
    · cases h
      exact frame_conclude ..
    · cases h
      rw [Bool.not_eq_false] at hok
      subst hok
      exact (frame_note q _ true).trans (frame_afterRequested (mem_note_written q _) ..)
  · cases h
    exact (frame_note q _ ok).trans (frame_conclude ..)
  · cases h
  · cases h
    exact frame_respond ..
  · split at h
    · cases h
      exact ⟨rfl, rfl, rfl, rfl, rfl, rfl, rfl, rfl, rfl, fun _ h => h, .inl, fun h => h⟩
    · cases h
      exact frame_settleCancelled ..
  · split at h
    · cases h
      exact frame_settleCancelled ..
    · cases h
      exact frame_settleCancelled ..
    · cases h
  · split_ifs at h
    · cases h
      exact (frame_note q _ ok).trans (frame_conclude ..)
    · cases h
      exact frame_release ..
  · split at h
    · cases h
      exact frame_settleResult ..
    · cases h
      exact frame_release ..
    · cases h
  · split_ifs at h
    · cases h
      exact (frame_note q _ ok).trans ⟨rfl, rfl, rfl, rfl, rfl, rfl, rfl, rfl, rfl, fun _ h => h,
        .inl, fun h => h⟩
    · cases h
      exact frame_conclude ..
  · cases h
    exact frame_conclude ..
  · cases h
    exact ⟨rfl, rfl, rfl, rfl, rfl, rfl, rfl, rfl, rfl, fun _ h => h, .inl, fun h => h⟩
  · cases h

/-! ## The end of a request -/

/-- The request has returned. -/
def isDone (q : PrivilegeRequest) : Bool :=
  match q.stage with
  | .done _ => true
  | _ => false

theorem isDone_of_stage {outcome : Outcome} (h : q.stage = .done outcome) : q.isDone = true := by
  rw [isDone, h]

theorem stage_of_isDone (h : q.isDone = true) : ∃ outcome, q.stage = .done outcome := by
  unfold isDone at h
  split at h
  · exact ⟨_, ‹_›⟩
  · cases h

@[simp] theorem control_stage_of_ne {call : ControlCall} (h : call ≠ .cancel) :
    (q.control now call).stage = q.stage := by
  cases call with
  | cancel => exact absurd rfl h
  | start | execute | wait =>
    simp only [control]
    split_ifs <;> rfl

/-- What waits for the control object does not move the main flow. -/
theorem answer_stage {index : Nat} {ok : Bool} (h : q.answer now index ok = some q') :
    q'.stage = q.stage := by
  obtain ⟨suspended, -, rfl⟩ := Option.map_eq_some_iff.1 h
  cases suspended <;> cases ok <;> rfl

theorem abort_stage (q : PrivilegeRequest) :
    q.abort.stage = q.stage ∨ q.stage = .racing none ∧ q.abort.stage = .racing (some .cancelled) := by
  unfold abort
  dsimp only
  split
  · exact .inr ⟨‹_›, rfl⟩
  · exact .inl rfl

variable {happening : Happening}

/-- **Only the main flow moves the stage**, apart from settling the race. -/
theorem step_stage (h : q.step host now handler pending happening = some q')
    (hnot : ∀ ok, happening ≠ .advance ok) :
    q'.stage = q.stage ∨
      ∃ response, q.stage = .racing none ∧ q'.stage = .racing (some response) := by
  cases happening with
  | advance ok => exact absurd rfl (hnot ok)
  | control call =>
    simp only [PrivilegeRequest.step] at h
    split_ifs at h
    cases h
    by_cases hcall : call = .cancel
    · subst hcall
      exact (abort_stage q).imp_right fun hrace => ⟨.cancelled, hrace⟩
    · exact .inl (control_stage_of_ne hcall)
  | answer index ok => exact .inl (answer_stage h)
  | sessionEnds result =>
    simp only [PrivilegeRequest.step, sessionEnds] at h
    split at h
    · cases h; exact .inl rfl
    · cases h; exact .inl rfl
    · cases h
  | handlerSettles response =>
    simp only [PrivilegeRequest.step] at h
    split_ifs at h
    cases h
    unfold handlerSettles
    split
    · exact .inr ⟨response, ‹_›, rfl⟩
    · exact .inl rfl
  | abort =>
    cases h
    exact (abort_stage q).imp_right fun hrace => ⟨.cancelled, hrace⟩

/-- A request that has returned stays so. -/
theorem step_done {outcome : Outcome} (h : q.step host now handler pending happening = some q')
    (hdone : q.stage = .done outcome) :
    q'.stage = .done outcome := by
  have hnot : ∀ ok, happening ≠ .advance ok := by
    rintro ok rfl
    simp [PrivilegeRequest.step, advance, hdone] at h
  obtain hsame | ⟨response, hrace, -⟩ := step_stage h hnot
  · rw [hsame, hdone]
  · rw [hdone] at hrace
    cases hrace

/-- A request keeps its input. -/
theorem step_input (h : q.step host now handler pending happening = some q') :
    q'.input = q.input := by
  cases happening with
  | advance ok => exact (advance_frame h).input
  | control call =>
    simp only [PrivilegeRequest.step] at h
    split_ifs at h
    cases h
    cases call with
    | cancel => rfl
    | start | execute | wait =>
      simp only [control]
      split_ifs <;> rfl
  | answer index ok =>
    obtain ⟨suspended, -, rfl⟩ := Option.map_eq_some_iff.1 h
    cases suspended <;> cases ok <;> rfl
  | sessionEnds result =>
    simp only [PrivilegeRequest.step, sessionEnds] at h
    split at h
    · cases h; rfl
    · cases h; rfl
    · cases h
  | handlerSettles response =>
    simp only [PrivilegeRequest.step] at h
    split_ifs at h
    cases h
    unfold handlerSettles
    split <;> rfl
  | abort => cases h; rfl

end PrivilegeRequest

/-! ## The runtime -/

/-- The request an event is about, and what happens to it. -/
def Event.concerns (s : PrivilegeSystem) : Event → Option (Nat × PrivilegeRequest.Happening)
  | .signal request => some (request, .abort)
  | .cancelPending => s.active.map fun request => (request, .abort)
  | .happen request happening => some (request, happening)
  | _ => none

/-- The event meets a condition on what happens to a request. -/
def Guarded (G : PrivilegeRequest → PrivilegeRequest.Happening → Prop) (s : PrivilegeSystem)
    (e : ℚ × Event) : Prop :=
  ∀ pair ∈ e.2.concerns s, ∀ q ∈ s.requests[pair.1]?, G q pair.2

instance (G : PrivilegeRequest → PrivilegeRequest.Happening → Prop)
    [∀ q happening, Decidable (G q happening)] (s : PrivilegeSystem) (e : ℚ × Event) :
    Decidable (Guarded G s e) :=
  inferInstanceAs (Decidable (∀ pair ∈ e.2.concerns s, ∀ q ∈ s.requests[pair.1]?, G q pair.2))

/-- **What a step can be.** -/
theorem step_cases (h : step host s (now, e) = some t) :
    (∃ input aborted, e = .execute input aborted ∧ t = s.execute host now input aborted) ∨
    (∃ request, e = .settle request ∧ s.settle request = some t) ∨
    (∃ handler, e = .setHandler handler ∧ t = { s with handler }) ∨
    ∃ request happening, e.concerns s = some (request, happening) ∧
      s.stepRequest host now request happening = some t := by
  cases e with
  | execute input aborted => cases h; exact .inl ⟨input, aborted, rfl, rfl⟩
  | settle request => exact .inr (.inl ⟨request, rfl, h⟩)
  | setHandler handler => cases h; exact .inr (.inr (.inl ⟨handler, rfl, rfl⟩))
  | signal request =>
    simp only [step] at h
    split_ifs at h
    exact .inr (.inr (.inr ⟨request, .abort, rfl, h⟩))
  | cancelPending =>
    obtain ⟨request, hactive, h⟩ := Option.bind_eq_some_iff.1 h
    exact .inr (.inr (.inr ⟨request, .abort, by simp [Event.concerns, hactive], h⟩))
  | happen request happening =>
    simp only [step] at h
    split_ifs at h
    exact .inr (.inr (.inr ⟨request, happening, rfl, h⟩))

variable {request : Nat} {happening : PrivilegeRequest.Happening}

theorem stepRequest_cases (h : s.stepRequest host now request happening = some t) :
    ∃ q q', s.requests[request]? = some q ∧
      q.step host now s.handler s.active.isSome happening = some q' ∧
      t = { s with
        requests := s.requests.set request q', active := s.activeAfter request q' } := by
  obtain ⟨q, hq, h⟩ := Option.bind_eq_some_iff.1 h
  obtain ⟨q', hq', h⟩ := Option.map_eq_some_iff.1 h
  exact ⟨q, q', hq, hq', h.symm⟩

theorem settle_cases (h : s.settle request = some t) :
    ∃ q outcome, request ∉ s.settled ∧ s.requests[request]? = some q ∧ q.stage = .done outcome ∧
      t = { s with
        inFlightByToolCallId := s.inFlightByToolCallId.delete q.input.toolCallId
        completedByToolCallId := match outcome with
          | .returned result =>
            PrivilegeSystem.dropOldest (s.completedByToolCallId.set q.input.toolCallId result)
          | .thrown => s.completedByToolCallId
        settled := s.settled ++ [request] } := by
  unfold PrivilegeSystem.settle at h
  split_ifs at h with hsettled
  obtain ⟨q, hq, h⟩ := Option.bind_eq_some_iff.1 h
  split at h
  · rename_i outcome hstage
    cases h
    exact ⟨q, outcome, hsettled, hq, hstage, rfl⟩
  · cases h

/-- What `execute` does: it returns a kept result, waits for a request in flight, or makes a
request. -/
theorem execute_cases (s : PrivilegeSystem) (host : Host) (now : ℚ)
    (input : PrivilegeExecuteInput) (aborted : Bool) :
    (∃ result, s.completedByToolCallId.get? input.toolCallId = some result ∧
      s.execute host now input aborted = { s with calls := s.calls ++ [.repeated result] }) ∨
    (∃ request, s.completedByToolCallId.get? input.toolCallId = none ∧
      s.inFlightByToolCallId.get? input.toolCallId = some request ∧
      s.execute host now input aborted = { s with calls := s.calls ++ [.joined request] }) ∨
    (s.completedByToolCallId.get? input.toolCallId = none ∧
      s.inFlightByToolCallId.get? input.toolCallId = none ∧
      ∃ q, (s.active = none ∧ q = s.opened host now input aborted ∨
          ∃ active, s.active = some active ∧ q = s.turnedAway host now input active) ∧
        s.execute host now input aborted = { s with
          requests := s.requests ++ [q]
          active := some (s.active.getD s.requests.length)
          inFlightByToolCallId := s.inFlightByToolCallId.set input.toolCallId s.requests.length
          calls := s.calls ++ [.ran s.requests.length] }) := by
  unfold PrivilegeSystem.execute
  cases hcompleted : s.completedByToolCallId.get? input.toolCallId with
  | some result => exact .inl ⟨result, rfl, rfl⟩
  | none =>
    refine .inr ?_
    cases hflight : s.inFlightByToolCallId.get? input.toolCallId with
    | some request => exact .inl ⟨request, rfl, rfl, rfl⟩
    | none =>
      refine .inr ⟨rfl, rfl, ?_⟩
      cases hactive : s.active with
      | none => exact ⟨_, .inl ⟨rfl, rfl⟩, rfl⟩
      | some active => exact ⟨_, .inr ⟨active, rfl, rfl⟩, rfl⟩

/-- **The requests after a step**: they are the same, there is a new one, or something
happened to one of them. -/
theorem step_requests (h : step host s (now, e) = some t) :
    (e.concerns s = none ∧ t.requests = s.requests) ∨
    (∃ input aborted q, e = .execute input aborted ∧
      s.completedByToolCallId.get? input.toolCallId = none ∧
      s.inFlightByToolCallId.get? input.toolCallId = none ∧ t.requests = s.requests ++ [q] ∧
      (s.active = none ∧ q = s.opened host now input aborted ∨
        ∃ active, s.active = some active ∧ q = s.turnedAway host now input active)) ∨
    (∃ request happening q q', e.concerns s = some (request, happening) ∧
      s.requests[request]? = some q ∧
      q.step host now s.handler s.active.isSome happening = some q' ∧
      t.requests = s.requests.set request q') := by
  obtain ⟨input, aborted, rfl, rfl⟩ | ⟨request, rfl, h⟩ | ⟨handler, rfl, rfl⟩ |
    ⟨request, happening, hconcerns, h⟩ := step_cases h
  · obtain ⟨result, -, h⟩ | ⟨request, -, -, h⟩ | ⟨hcompleted, hflight, q, hq, h⟩ :=
      execute_cases s host now input aborted
    · exact .inl ⟨rfl, by rw [h]⟩
    · exact .inl ⟨rfl, by rw [h]⟩
    · exact .inr (.inl ⟨input, aborted, q, rfl, hcompleted, hflight, by rw [h], hq⟩)
  · obtain ⟨q, outcome, -, -, -, rfl⟩ := settle_cases h
    exact .inl ⟨rfl, rfl⟩
  · exact .inl ⟨rfl, rfl⟩
  · obtain ⟨q, q', hq, hq', rfl⟩ := stepRequest_cases h
    exact .inr (.inr ⟨request, happening, q, q', hconcerns, hq, hq', rfl⟩)

/-- **A property of requests** that new requests have, and that what happens to a request
keeps, is kept by the steps of the runtime. -/
theorem step_forall {P : PrivilegeRequest → Prop} (h : step host s (now, e) = some t)
    (hopened : ∀ input aborted, s.active = none → e = .execute input aborted →
      P (s.opened host now input aborted))
    (haway : ∀ input aborted active, s.active = some active → e = .execute input aborted →
      s.completedByToolCallId.get? input.toolCallId = none →
      s.inFlightByToolCallId.get? input.toolCallId = none →
      P (s.turnedAway host now input active))
    (hkept : ∀ request happening q q', e.concerns s = some (request, happening) →
      s.requests[request]? = some q →
      q.step host now s.handler s.active.isSome happening = some q' → P q → P q')
    (hs : ∀ q ∈ s.requests, P q) : ∀ q ∈ t.requests, P q := by
  obtain ⟨-, heq⟩ | ⟨input, aborted, new, rfl, hcompleted, hflight, heq, hnew⟩ |
    ⟨request, happening, q, q', hconcerns, hq, hq', heq⟩ := step_requests h
  · rw [heq]
    exact hs
  · rw [heq]
    intro other hmem
    rcases mem_append.1 hmem with hold | hlast
    · exact hs other hold
    · rw [mem_singleton.1 hlast]
      rcases hnew with ⟨hactive, rfl⟩ | ⟨active, hactive, rfl⟩
      · exact hopened input aborted hactive rfl
      · exact haway input aborted active hactive rfl hcompleted hflight
  · rw [heq]
    intro other hmem
    rcases mem_or_eq_of_mem_set hmem with hold | rfl
    · exact hs other hold
    · exact hkept request happening q other hconcerns hq hq' (hs q (mem_of_getElem? hq))

/-! ## The active request -/

/-- A request that has not returned is the active one. -/
def Activated (s : PrivilegeSystem) : Prop :=
  ∀ (request : Nat) q, s.requests[request]? = some q → q.isDone = false → s.active = some request

theorem activated_execute (hs : Activated s) (host : Host) (now : ℚ)
    (input : PrivilegeExecuteInput) (aborted : Bool) :
    Activated (s.execute host now input aborted) := by
  obtain ⟨result, -, h⟩ | ⟨request, -, -, h⟩ | ⟨-, -, new, hnew, h⟩ :=
    execute_cases s host now input aborted
  · rw [h]
    exact hs
  · rw [h]
    exact hs
  · rw [h]
    intro request q hq hdone
    rcases lt_or_ge request s.requests.length with hlt | hge
    · -- an old request that has not returned was active before
      have hq : s.requests[request]? = some q := by
        simpa [getElem?_append_left hlt] using hq
      simp [hs request q hq hdone]
    · obtain ⟨hlt, -⟩ := List.getElem?_eq_some_iff.1 hq
      have heq : request = s.requests.length := by
        simp only [length_append, length_singleton] at hlt
        omega
      subst heq
      simp only [getElem?_concat_length, Option.some.injEq] at hq
      rcases hnew with ⟨hactive, -⟩ | ⟨active, -, rfl⟩
      · simp [hactive]
      · rw [← hq] at hdone
        cases hdone

theorem activated_stepRequest (hs : Activated s) {q q' : PrivilegeRequest}
    (hq : s.requests[request]? = some q)
    (hstep : q.step host now s.handler s.active.isSome happening = some q') :
    Activated { s with
      requests := s.requests.set request q', active := s.activeAfter request q' } := by
  intro other d hd hdone
  have hlt : request < s.requests.length := (List.getElem?_eq_some_iff.1 hq).1
  by_cases heq : request = other
  · subst heq
    simp only [getElem?_set_self hlt, Option.some.injEq] at hd
    subst hd
    have hbefore : q.isDone = false := by
      by_contra hnot
      obtain ⟨outcome, hstage⟩ := PrivilegeRequest.stage_of_isDone (by simpa using hnot)
      have := PrivilegeRequest.isDone_of_stage (PrivilegeRequest.step_done hstep hstage)
      rw [this] at hdone
      cases hdone
    have hactive := hs request q hq hbefore
    simp only [PrivilegeSystem.activeAfter]
    split
    · rename_i outcome hstage
      rw [PrivilegeRequest.isDone_of_stage hstage] at hdone
      cases hdone
    · exact hactive
  · simp only [getElem?_set_ne heq] at hd
    have hactive := hs other d hd hdone
    simp only [PrivilegeSystem.activeAfter, hactive, Option.some.injEq, Ne.symm heq, if_false]
    split <;> rfl

/-- **At most one request has not returned**, and it is the active one. -/
theorem step_activated {e : ℚ × Event} (hs : Activated s) (hstep : step host s e = some t) :
    Activated t := by
  obtain ⟨now, e⟩ := e
  obtain ⟨input, aborted, rfl, rfl⟩ | ⟨request, rfl, h⟩ | ⟨handler, rfl, rfl⟩ |
    ⟨request, happening, -, h⟩ := step_cases hstep
  · exact activated_execute hs host now input aborted
  · obtain ⟨q, outcome, -, -, -, rfl⟩ := settle_cases h
    exact hs
  · exact hs
  · obtain ⟨q, q', hq, hq', rfl⟩ := stepRequest_cases h
    exact activated_stepRequest hs hq hq'

/-- The main flow of a request finds a request pending. -/
theorem Activated.pending (hs : Activated s) {q q' : PrivilegeRequest}
    (hq : s.requests[request]? = some q)
    (hstep : q.step host now s.handler s.active.isSome happening = some q') :
    q.step host now s.handler true happening = some q' := by
  cases happening with
  | advance ok =>
    have hdone : q.isDone = false := by
      by_contra hnot
      obtain ⟨outcome, hstage⟩ := PrivilegeRequest.stage_of_isDone (by simpa using hnot)
      simp [PrivilegeRequest.step, PrivilegeRequest.advance, hstage] at hstep
    rwa [hs request q hq hdone] at hstep
  | control _ | answer _ _ | sessionEnds _ | handlerSettles _ | abort => exact hstep

end BeauPi.Privilege
