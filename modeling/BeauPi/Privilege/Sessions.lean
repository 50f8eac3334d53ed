import BeauPi.Privilege.Trail

/-!
# Privileged commands: exclusive requests, results that are kept, sessions that are released

One request is active at a time in every run.  Results are kept for repeated calls if requests
return, and sessions are disposed of if they exist when the `finally` block looks for them.

* `Exclusive`, `DedupedAt`, `Released` — what is promised.
* `Returns`, `CreatedInTime` — the conditions on what happens to a request.
* `Held` — the sessions of a request, as the `finally` block finds them.
* `Kept` — the two maps of the runtime and its requests.
* `sessions_released_of_inTime` — **along every run whose requests return and whose sessions are
  created in time, all three hold**.
-/

namespace BeauPi.Privilege

open Machine List
open Option (some.injEq)

variable {host : Host} {now : ℚ} {s t : PrivilegeSystem}

/-! ## What is promised and when -/

/-- At most one request has not returned. -/
def Exclusive (s : PrivilegeSystem) : Prop :=
  ∀ pair ∈ s.requests.zipIdx, ∀ pair' ∈ s.requests.zipIdx,
    pair.1.isDone = false → pair'.1.isDone = false → pair.2 = pair'.2

instance (s : PrivilegeSystem) : Decidable (Exclusive s) :=
  inferInstanceAs (Decidable (∀ pair ∈ _, ∀ pair' ∈ _, _))

/-- The requests that were completed most recently. -/
def recent (settled : List Nat) : List Nat :=
  settled.drop (settled.length - PrivilegeSystem.completedLimit)

/-- The call gives what the request returns. -/
def Gives (request : Nat) (q : PrivilegeRequest) : Call → Prop
  | .ran _ => False
  | .joined other => other = request
  | .repeated result => q.stage = .done (.returned result)

instance (request : Nat) (q : PrivilegeRequest) : (call : Call) → Decidable (Gives request q call)
  | .ran _ => inferInstanceAs (Decidable False)
  | .joined _ | .repeated _ => inferInstanceAs (Decidable (_ = _))

/-- A call of `execute` with the tool call id of a request that has not been completed, or was
among those completed most recently, makes no request and gives what that request returns. -/
def DedupedAt (s : PrivilegeSystem) (e : ℚ × Event) (t : PrivilegeSystem) : Prop :=
  match e.2 with
  | .execute input _ => ∀ pair ∈ s.requests.zipIdx, pair.1.input.toolCallId = input.toolCallId →
      pair.2 ∉ s.settled ∨ pair.2 ∈ recent s.settled →
      t.requests.length = s.requests.length ∧
        ∃ call ∈ t.calls.drop s.calls.length, Gives pair.2 pair.1 call
  | _ => True

instance (s : PrivilegeSystem) (e : ℚ × Event) (t : PrivilegeSystem) : Decidable (DedupedAt s e t) :=
  match e with
  | (_, .execute _ _) => inferInstanceAs (Decidable (∀ pair ∈ _, _ → _ ∨ _ → _ ∧ ∃ call ∈ _, _))
  | (_, .settle _) | (_, .setHandler _) | (_, .signal _) | (_, .cancelPending) | (_, .happen _ _) =>
    isTrue trivial

/-- Once a request has returned and no method of its control object is under way, all its
sessions are disposed of. -/
def Released (s : PrivilegeSystem) : Prop :=
  ∀ q ∈ s.requests, q.isDone = true → q.controls = [] → ∀ disposed ∈ q.sessions, disposed = true

instance (s : PrivilegeSystem) : Decidable (Released s) :=
  inferInstanceAs (Decidable (∀ q ∈ _, _ → _ → ∀ disposed ∈ _, _))

/-- The request throws no error: the audit write of a rejection succeeds, and so does the
promise of `session.wait` that the request takes. -/
def Returns (q : PrivilegeRequest) : PrivilegeRequest.Happening → Prop
  | .advance ok =>
    match q.stage with
    | .rejecting _ => ok = true
    | .waiting => q.waitPromise ≠ some .rejected
    | _ => True
  | _ => True

instance (q : PrivilegeRequest) :
    (happening : PrivilegeRequest.Happening) → Decidable (Returns q happening)
  | .advance ok =>
    match h : q.stage with
    | .rejecting _ => decidable_of_iff (ok = true) (by simp [Returns, h])
    | .waiting => decidable_of_iff (q.waitPromise ≠ some .rejected) (by simp [Returns, h])
    | .requesting | .refusing .. | .racing _ | .cancelling | .collecting | .concluding _
    | .reviewing _ | .releasing _ | .done _ => isTrue (by simp [Returns, h])
  | .control _ | .answer _ _ | .sessionEnds _ | .handlerSettles _ | .abort => isTrue trivial

/-- A session is created while the request has none and has not come to its `finally` block. -/
def CreatedInTime (q : PrivilegeRequest) : PrivilegeRequest.Happening → Prop
  | .answer index ok => q.controls[index]? = some .creating → ok = true →
      q.session = none ∧ q.stage.listens = true
  | _ => True

instance (q : PrivilegeRequest) :
    (happening : PrivilegeRequest.Happening) → Decidable (CreatedInTime q happening)
  | .answer _ _ => inferInstanceAs (Decidable (_ → _ → _ ∧ _))
  | .advance _ | .control _ | .sessionEnds _ | .handlerSettles _ | .abort => isTrue trivial

/-! ## Sessions -/

/-- The sessions of a request: at most one, which is disposed of in the `finally` block. -/
structure Held (q : PrivilegeRequest) : Prop where
  session : q.session = none ∨ q.session = some 0
  sessions : q.sessions = q.session.toList.map fun _ => !q.stage.listens

namespace Held

variable {q q' : PrivilegeRequest} {handler pending : Bool}

theorem keep (h : Held q) (hsession : q'.session = q.session) (hsessions : q'.sessions = q.sessions)
    (hlistens : q'.stage.listens = q.stage.listens) : Held q' := by
  refine ⟨hsession ▸ h.session, ?_⟩
  rw [hsessions, hsession, hlistens]
  exact h.sessions

theorem note (h : Held q) (event : PrivilegeAuditEventType) (ok : Bool) : Held (q.note event ok) := by
  cases ok
  · exact h
  · exact h.keep rfl rfl rfl

/-- The `finally` block is entered. -/
theorem release (h : Held q) (hlistens : q.stage.listens = true) (outcome : Outcome) :
    Held (q.release outcome) := by
  refine ⟨h.session, ?_⟩
  have hsessions := h.sessions
  simp only [PrivilegeRequest.release]
  rcases h.session with hnone | hzero
  · simp [hnone] at hsessions
    simp [hnone, hsessions]
  · simp [hzero, hlistens] at hsessions
    simp [hzero, hsessions, Stage.listens]

theorem conclude (h : Held q) (hlistens : q.stage.listens = true) (now : ℚ)
    (status : PrivilegeResultStatus) (issue : Option PrivilegeDiagnostic)
    (result : Option PrivilegeCommandResult) : Held (q.conclude now status issue result) :=
  h.release hlistens _

theorem afterRequested (h : Held q) (hlistens : q.stage.listens = true) (host : Host) (now : ℚ)
    (handler pending : Bool) : Held (q.afterRequested host now handler pending) := by
  unfold PrivilegeRequest.afterRequested
  split
  · exact h.keep rfl rfl hlistens.symm
  · split_ifs
    · exact h.keep rfl rfl hlistens.symm
    · exact h.keep rfl rfl hlistens.symm
    · exact h.conclude hlistens ..
    · exact h.keep rfl rfl hlistens.symm

theorem respond (h : Held q) (hlistens : q.stage.listens = true) (host : Host) (now : ℚ)
    (response : PrivilegeInteractionResponse) : Held (q.respond host now response) := by
  unfold PrivilegeRequest.respond
  split_ifs
  · exact h.keep rfl rfl hlistens.symm
  · cases response with
    | rejected | error => exact h.keep rfl rfl hlistens.symm
    | completed | cancelled => exact h.conclude hlistens ..
  · cases response with
    | rejected | error => exact h.keep rfl rfl hlistens.symm
    | completed | cancelled =>
      dsimp only
      split
      · exact h.keep rfl rfl hlistens.symm
      · exact h.keep rfl rfl hlistens.symm

/-- **The main flow** disposes of the session when it enters the `finally` block. -/
theorem advance {ok : Bool} (h : Held q)
    (hstep : q.advance host now handler pending ok = some q') : Held q' := by
  cases hstage : q.stage with
  | requesting =>
    have hlistens : q.stage.listens = true := by rw [hstage]; rfl
    simp only [PrivilegeRequest.advance, hstage] at hstep
    split_ifs at hstep
    · cases hstep
      exact h.conclude hlistens ..
    · cases hstep
      exact (h.note .requested ok).afterRequested (by rwa [stage_note]) ..
  | refusing event status issue result =>
    simp only [PrivilegeRequest.advance, hstage, some.injEq] at hstep
    subst hstep
    exact (h.note event ok).conclude (by rw [stage_note, hstage]; rfl) ..
  | racing response =>
    cases response with
    | none => simp [PrivilegeRequest.advance, hstage] at hstep
    | some response =>
      simp only [PrivilegeRequest.advance, hstage, some.injEq] at hstep
      subst hstep
      exact h.respond (by rw [hstage]; rfl) ..
  | cancelling =>
    have hlistens : q.stage.listens = true := by rw [hstage]; rfl
    simp only [PrivilegeRequest.advance, hstage] at hstep
    split at hstep
    · cases hstep
      exact h.keep rfl rfl hlistens.symm
    · cases hstep
      exact h.keep rfl rfl hlistens.symm
  | collecting =>
    have hlistens : q.stage.listens = true := by rw [hstage]; rfl
    simp only [PrivilegeRequest.advance, hstage] at hstep
    split at hstep
    · cases hstep
      exact h.keep rfl rfl hlistens.symm
    · cases hstep
      exact h.keep rfl rfl hlistens.symm
    · cases hstep
  | rejecting issue =>
    have hlistens : q.stage.listens = true := by rw [hstage]; rfl
    simp only [PrivilegeRequest.advance, hstage] at hstep
    split_ifs at hstep
    · cases hstep
      exact (h.note .blocked ok).conclude (by rwa [stage_note]) ..
    · cases hstep
      exact h.release hlistens _
  | waiting =>
    have hlistens : q.stage.listens = true := by rw [hstage]; rfl
    simp only [PrivilegeRequest.advance, hstage] at hstep
    split at hstep
    · cases hstep
      exact h.keep rfl rfl hlistens.symm
    · cases hstep
      exact h.release hlistens _
    · cases hstep
  | concluding result =>
    have hlistens : q.stage.listens = true := by rw [hstage]; rfl
    simp only [PrivilegeRequest.advance, hstage] at hstep
    split_ifs at hstep
    · cases hstep
      exact (h.note _ ok).keep rfl rfl (by rw [stage_note]; exact hlistens.symm)
    · cases hstep
      exact h.conclude hlistens ..
  | reviewing result =>
    simp only [PrivilegeRequest.advance, hstage, some.injEq] at hstep
    subst hstep
    exact h.conclude (by rw [hstage]; rfl) ..
  | releasing outcome =>
    simp only [PrivilegeRequest.advance, hstage, some.injEq] at hstep
    subst hstep
    exact h.keep rfl rfl (by rw [hstage]; rfl)
  | done outcome => simp [PrivilegeRequest.advance, hstage] at hstep

theorem abort (h : Held q) : Held q.abort := by
  refine h.keep rfl rfl ?_
  obtain hsame | ⟨hrace, hsettled⟩ := q.abort_stage
  · rw [hsame]
  · rw [hrace, hsettled]
    rfl

theorem control (h : Held q) (call : PrivilegeRequest.ControlCall) : Held (q.control now call) := by
  cases call with
  | cancel => exact h.abort
  | start | execute | wait =>
    simp only [PrivilegeRequest.control]
    split_ifs
    · exact h
    · exact h.keep rfl rfl rfl

theorem answer (h : Held q) {index : Nat} {ok : Bool} (htime : CreatedInTime q (.answer index ok))
    (hanswer : q.answer now index ok = some q') : Held q' := by
  obtain ⟨suspended, hsuspended, rfl⟩ := Option.map_eq_some_iff.1 hanswer
  cases suspended with
  | creating =>
    dsimp only
    split_ifs with hok
    · obtain ⟨hnone, hlistens⟩ := htime hsuspended hok
      have hsessions : q.sessions = [] := by simpa [hnone] using h.sessions
      refine ⟨.inr (by simp [hsessions]), ?_⟩
      simp [hsessions, hlistens]
    · exact h.keep rfl rfl rfl
  | staging => exact h.keep rfl rfl rfl
  | confirming | executing =>
    cases ok
    · exact h.keep rfl rfl rfl
    · exact h.keep rfl rfl rfl
  | recording =>
    have herased : Held { q with controls := q.controls.eraseIdx index } := h.keep rfl rfl rfl
    exact herased.note .started ok

/-- **Whatever happens to a request** in time. -/
theorem step (h : Held q) {happening : PrivilegeRequest.Happening}
    (htime : CreatedInTime q happening)
    (hstep : q.step host now handler pending happening = some q') : Held q' := by
  cases happening with
  | advance ok => exact h.advance hstep
  | control call =>
    simp only [PrivilegeRequest.step] at hstep
    split_ifs at hstep
    cases hstep
    exact h.control call
  | answer index ok => exact h.answer htime hstep
  | sessionEnds result =>
    simp only [PrivilegeRequest.step, PrivilegeRequest.sessionEnds] at hstep
    split at hstep
    · cases hstep
      exact h.keep rfl rfl rfl
    · cases hstep
      exact h.keep rfl rfl rfl
    · cases hstep
  | handlerSettles response =>
    simp only [PrivilegeRequest.step] at hstep
    split_ifs at hstep
    cases hstep
    unfold PrivilegeRequest.handlerSettles
    split
    · rename_i hstage
      exact h.keep rfl rfl (by rw [hstage]; rfl)
    · exact h
  | abort => cases hstep; exact h.abort

end Held

/-! ## Errors -/

/-- The request has thrown no error. -/
def Unthrown (q : PrivilegeRequest) : Prop :=
  q.stage ≠ .releasing .thrown ∧ q.stage ≠ .done .thrown

namespace Unthrown

variable {q q' : PrivilegeRequest} {handler pending : Bool}

theorem afterRequested (host : Host) (now : ℚ) (handler pending : Bool) :
    Unthrown (q.afterRequested host now handler pending) := by
  unfold PrivilegeRequest.afterRequested
  split
  · exact ⟨nofun, nofun⟩
  · split_ifs <;> exact ⟨nofun, nofun⟩

theorem respond (host : Host) (now : ℚ) (response : PrivilegeInteractionResponse) :
    Unthrown (q.respond host now response) := by
  unfold PrivilegeRequest.respond
  split_ifs
  · exact ⟨nofun, nofun⟩
  · cases response <;> exact ⟨nofun, nofun⟩
  · cases response with
    | rejected message => exact ⟨nofun, nofun⟩
    | error message => exact ⟨nofun, nofun⟩
    | completed | cancelled => dsimp only; split <;> exact ⟨nofun, nofun⟩

/-- **The main flow** throws nothing if what it waits for goes well. -/
theorem advance {ok : Bool} (h : Unthrown q) (hreturns : Returns q (.advance ok))
    (hstep : q.advance host now handler pending ok = some q') : Unthrown q' := by
  cases hstage : q.stage with
  | requesting =>
    simp only [PrivilegeRequest.advance, hstage] at hstep
    split_ifs at hstep
    · cases hstep; exact ⟨by rintro ⟨⟩, by rintro ⟨⟩⟩
    · cases hstep; exact afterRequested ..
  | refusing event status issue result | reviewing result =>
    simp only [PrivilegeRequest.advance, hstage, some.injEq] at hstep
    subst hstep
    exact ⟨by rintro ⟨⟩, by rintro ⟨⟩⟩
  | racing response =>
    cases response with
    | none => simp [PrivilegeRequest.advance, hstage] at hstep
    | some response =>
      simp only [PrivilegeRequest.advance, hstage, some.injEq] at hstep
      subst hstep
      exact respond ..
  | cancelling | concluding result =>
    simp only [PrivilegeRequest.advance, hstage] at hstep
    split at hstep
    · cases hstep; exact ⟨by rintro ⟨⟩, by rintro ⟨⟩⟩
    · cases hstep; exact ⟨by rintro ⟨⟩, by rintro ⟨⟩⟩
  | collecting =>
    simp only [PrivilegeRequest.advance, hstage] at hstep
    split at hstep
    · cases hstep; exact ⟨by rintro ⟨⟩, by rintro ⟨⟩⟩
    · cases hstep; exact ⟨by rintro ⟨⟩, by rintro ⟨⟩⟩
    · cases hstep
  | rejecting issue =>
    obtain rfl : ok = true := by simpa [Returns, hstage] using hreturns
    simp only [PrivilegeRequest.advance, hstage, if_true, some.injEq] at hstep
    subst hstep
    exact ⟨by rintro ⟨⟩, by rintro ⟨⟩⟩
  | waiting =>
    have hwait : q.waitPromise ≠ some .rejected := by simpa [Returns, hstage] using hreturns
    simp only [PrivilegeRequest.advance, hstage] at hstep
    split at hstep
    · cases hstep; exact ⟨by rintro ⟨⟩, by rintro ⟨⟩⟩
    · exact absurd ‹_› hwait
    · cases hstep
  | releasing outcome =>
    simp only [PrivilegeRequest.advance, hstage, some.injEq] at hstep
    subst hstep
    refine ⟨by rintro ⟨⟩, ?_⟩
    rintro hthrown
    cases hthrown
    exact h.1 hstage
  | done outcome => simp [PrivilegeRequest.advance, hstage] at hstep

theorem step (h : Unthrown q) {happening : PrivilegeRequest.Happening}
    (hreturns : Returns q happening)
    (hstep : q.step host now handler pending happening = some q') : Unthrown q' := by
  by_cases hadvance : ∃ ok, happening = .advance ok
  · obtain ⟨ok, rfl⟩ := hadvance
    exact h.advance hreturns hstep
  · obtain hsame | ⟨response, -, hrace⟩ :=
      PrivilegeRequest.step_stage hstep fun ok heq => hadvance ⟨ok, heq⟩
    · rw [Unthrown, hsame]
      exact h
    · rw [Unthrown, hrace]
      exact ⟨nofun, nofun⟩

end Unthrown

/-! ## The maps -/

/-- A result that is kept is the one its request returned. -/
def KeptResult (requests : List PrivilegeRequest) (entry : String × PrivilegeToolDetails)
    (request : Nat) : Prop :=
  ∃ q, requests[request]? = some q ∧ entry.1 = q.input.toolCallId ∧
    q.stage = .done (.returned entry.2)

/-- The two maps of the runtime and its requests. -/
structure Kept (s : PrivilegeSystem) : Prop where
  /-- the requests in flight are those that were not completed -/
  inFlight : ∀ id request, s.inFlightByToolCallId.get? id = some request ↔
    ∃ q, s.requests[request]? = some q ∧ q.input.toolCallId = id ∧ request ∉ s.settled
  /-- the results of the requests completed most recently are kept -/
  completed : List.Forall₂ (KeptResult s.requests) s.completedByToolCallId.entries (recent s.settled)
  apart : ∀ id request, s.inFlightByToolCallId.get? id = some request →
    s.completedByToolCallId.get? id = none
  bounded : ∀ request ∈ s.settled, request < s.requests.length

theorem recent_append (settled : List Nat) (request : Nat) :
    recent (settled ++ [request]) =
      (recent settled ++ [request]).drop
        ((recent settled).length + 1 - PrivilegeSystem.completedLimit) := by
  unfold recent
  rw [length_append, length_singleton, length_drop]
  generalize PrivilegeSystem.completedLimit = limit
  rcases Nat.lt_or_ge settled.length limit with hlt | hge
  · have hzero : settled.length - limit = 0 := by omega
    simp only [hzero, drop_zero, Nat.sub_zero]
  · rcases Nat.eq_zero_or_pos limit with rfl | hpos
    · simp
    · rw [drop_append_of_le_length (by omega), drop_append_of_le_length (by
        rw [length_drop]; omega), drop_drop]
      congr 2
      omega

theorem KeptResult.mono {requests requests' : List PrivilegeRequest}
    {entry : String × PrivilegeToolDetails} {request : Nat} (h : KeptResult requests entry request)
    (hkept : ∀ q result, requests[request]? = some q → q.stage = .done (.returned result) →
      ∃ q', requests'[request]? = some q' ∧ q'.input = q.input ∧
        q'.stage = .done (.returned result)) : KeptResult requests' entry request := by
  obtain ⟨q, hq, hid, hstage⟩ := h
  obtain ⟨q', hq', hinput, hstage'⟩ := hkept q entry.2 hq hstage
  exact ⟨q', hq', hinput ▸ hid, hstage'⟩

/-- A new request. -/
theorem Kept.execute (h : Kept s) (host : Host) (now : ℚ) (input : PrivilegeExecuteInput)
    (aborted : Bool) : Kept (s.execute host now input aborted) := by
  obtain ⟨result, -, heq⟩ | ⟨request, -, -, heq⟩ | ⟨hcompleted, hflight, new, hnew, heq⟩ :=
    execute_cases s host now input aborted
  · rw [heq]
    exact ⟨h.inFlight, h.completed, h.apart, h.bounded⟩
  · rw [heq]
    exact ⟨h.inFlight, h.completed, h.apart, h.bounded⟩
  · rw [heq]
    have hinput : new.input = input := by
      rcases hnew with ⟨-, rfl⟩ | ⟨active, -, rfl⟩ <;> rfl
    have hold : ∀ {request : Nat} {q}, s.requests[request]? = some q →
        (s.requests ++ [new])[request]? = some q := by
      intro request q hq
      rw [getElem?_append_left (List.getElem?_eq_some_iff.1 hq).1, hq]
    refine ⟨?_, ?_, ?_, ?_⟩
    · intro id request
      dsimp only
      rw [OrderedMap.get?_set]
      constructor
      · intro hid
        split_ifs at hid with hsame
        · cases hid
          refine ⟨new, by simp, by rw [hinput, hsame], fun hmem => ?_⟩
          exact Nat.lt_irrefl _ (h.bounded _ hmem)
        · obtain ⟨q, hq, hqid, hsettled⟩ := (h.inFlight id request).1 hid
          exact ⟨q, hold hq, hqid, hsettled⟩
      · rintro ⟨q, hq, hqid, hsettled⟩
        rcases Nat.lt_or_ge request s.requests.length with hlt | hge
        · rw [getElem?_append_left hlt] at hq
          have hid := (h.inFlight id request).2 ⟨q, hq, hqid, hsettled⟩
          rw [if_neg, hid]
          rintro rfl
          rw [hflight] at hid
          cases hid
        · obtain ⟨hlt, -⟩ := List.getElem?_eq_some_iff.1 hq
          obtain rfl : request = s.requests.length := by
            simp only [length_append, length_singleton] at hlt
            omega
          rw [getElem?_concat_length, some.injEq] at hq
          rw [if_pos (by rw [← hqid, ← hq, hinput])]
    · refine h.completed.imp fun entry request hkept => hkept.mono fun q result hq hstage => ?_
      exact ⟨q, hold hq, rfl, hstage⟩
    · intro id request
      dsimp only
      rw [OrderedMap.get?_set]
      intro hid
      split_ifs at hid with hsame
      · rw [hsame]
        exact hcompleted
      · exact h.apart id request hid
    · intro request hmem
      have := h.bounded request hmem
      simp only [length_append, length_singleton]
      omega

/-- Something happens to a request. -/
theorem Kept.stepRequest (h : Kept s) {request : Nat} {q q' : PrivilegeRequest}
    {handler pending : Bool} {happening : PrivilegeRequest.Happening} {active : Option Nat}
    (hq : s.requests[request]? = some q)
    (hstep : q.step host now handler pending happening = some q') :
    Kept { s with requests := s.requests.set request q', active } := by
  have hlt : request < s.requests.length := (List.getElem?_eq_some_iff.1 hq).1
  have hinput : q'.input = q.input := PrivilegeRequest.step_input hstep
  refine ⟨?_, ?_, h.apart, ?_⟩
  · intro id other
    rw [h.inFlight]
    dsimp only
    by_cases heq : request = other
    · subst heq
      rw [getElem?_set_self hlt, hq]
      simp [hinput]
    · rw [getElem?_set_ne heq]
  · refine h.completed.imp fun entry other hkept => hkept.mono fun d result hd hstage => ?_
    dsimp only
    by_cases heq : request = other
    · subst heq
      rw [hq] at hd
      cases hd
      exact ⟨q', getElem?_set_self hlt, hinput, PrivilegeRequest.step_done hstep hstage⟩
    · exact ⟨d, by rw [getElem?_set_ne heq, hd], rfl, hstage⟩
  · intro other hmem
    simpa using h.bounded other hmem

/-- A call of `execute` goes on after its request, which has returned a result. -/
theorem Kept.settle (h : Kept s) {request : Nat} {q : PrivilegeRequest}
    {result : PrivilegeToolDetails} (hsettled : request ∉ s.settled)
    (hq : s.requests[request]? = some q) (hstage : q.stage = .done (.returned result)) :
    Kept { s with
      inFlightByToolCallId := s.inFlightByToolCallId.delete q.input.toolCallId
      completedByToolCallId :=
        PrivilegeSystem.dropOldest (s.completedByToolCallId.set q.input.toolCallId result)
      settled := s.settled ++ [request] } := by
  have hflight := (h.inFlight q.input.toolCallId request).2 ⟨q, hq, rfl, hsettled⟩
  have hnone := h.apart _ _ hflight
  have hentries := OrderedMap.entries_set_of_none hnone result
  refine ⟨?_, ?_, ?_, ?_⟩
  · intro id other
    dsimp only
    rw [OrderedMap.get?_delete]
    constructor
    · intro hid
      split_ifs at hid with hsame
      obtain ⟨d, hd, hdid, hother⟩ := (h.inFlight id other).1 hid
      refine ⟨d, hd, hdid, fun hmem => ?_⟩
      rcases List.mem_append.1 hmem with hold | hlast
      · exact hother hold
      · obtain rfl := List.mem_singleton.1 hlast
        rw [hq] at hd
        cases hd
        exact hsame hdid.symm
    · rintro ⟨d, hd, hdid, hother⟩
      have hnot : other ∉ s.settled := fun hmem => hother (mem_append_left _ hmem)
      have hid := (h.inFlight id other).2 ⟨d, hd, hdid, hnot⟩
      rw [if_neg, hid]
      -- two requests in flight have different ids
      rintro rfl
      rw [hflight] at hid
      cases hid
      exact hother (mem_append_right _ (mem_singleton_self _))
  · show List.Forall₂ (KeptResult s.requests)
      ((s.completedByToolCallId.set q.input.toolCallId result).entries.drop _) (recent _)
    rw [recent_append, hentries, length_append, length_singleton, h.completed.length_eq]
    exact forall₂_drop _ (rel_append h.completed (.cons ⟨q, hq, rfl, hstage⟩ .nil))
  · intro id other
    dsimp only
    rw [OrderedMap.get?_delete]
    intro hid
    split_ifs at hid with hsame
    rw [OrderedMap.get?_eq_none]
    intro hmem
    obtain ⟨entry, hentry, rfl⟩ := List.mem_map.1 hmem
    have hentry : entry ∈ (s.completedByToolCallId.set q.input.toolCallId result).entries :=
      mem_of_mem_drop hentry
    rw [hentries] at hentry
    rcases List.mem_append.1 hentry with hold | hlast
    · exact OrderedMap.get?_eq_none.1 (h.apart _ _ hid) (mem_map_of_mem hold)
    · rw [List.mem_singleton.1 hlast] at hsame
      exact hsame rfl
  · intro other hmem
    rcases List.mem_append.1 hmem with hold | hlast
    · exact h.bounded other hold
    · rw [List.mem_singleton.1 hlast]
      exact (List.getElem?_eq_some_iff.1 hq).1

/-- **A call with the id of a request that is in flight or kept** makes no request. -/
theorem Kept.deduped (h : Kept s) (host : Host) (now : ℚ) (e : Event) :
    ∀ t, step host s (now, e) = some t → DedupedAt s (now, e) t := by
  intro t hstep
  cases e with
  | execute input aborted =>
    cases hstep
    intro pair hmem hid hknown
    have hq := List.mem_zipIdx_iff_getElem?.1 hmem
    rcases hknown with hflight | hrecent
    · have hget := (h.inFlight input.toolCallId pair.2).2 ⟨pair.1, hq, hid, hflight⟩
      have hcompleted := h.apart _ _ hget
      have heq : s.execute host now input aborted =
          { s with calls := s.calls ++ [.joined pair.2] } := by
        simp [PrivilegeSystem.execute, hcompleted, hget]
      rw [heq]
      exact ⟨rfl, .joined pair.2, by simp, rfl⟩
    · obtain ⟨index, hlt, hindex⟩ := getElem_of_mem hrecent
      have hlt' : index < s.completedByToolCallId.entries.length := h.completed.length_eq ▸ hlt
      obtain ⟨q, hq', hkey, hstage⟩ := h.completed.get hlt' hlt
      rw [get_eq_getElem, hindex, hq] at hq'
      cases hq'
      have hget : s.completedByToolCallId.get? input.toolCallId =
          some (s.completedByToolCallId.entries.get ⟨index, hlt'⟩).2 := by
        rw [OrderedMap.get?_eq_some, ← hid, ← hkey]
        exact getElem_mem hlt'
      have heq : s.execute host now input aborted = { s with calls := s.calls ++
          [.repeated (s.completedByToolCallId.entries.get ⟨index, hlt'⟩).2] } := by
        simp [PrivilegeSystem.execute, hget]
      rw [heq]
      exact ⟨rfl, .repeated (s.completedByToolCallId.entries.get ⟨index, hlt'⟩).2, by simp, hstage⟩
  | settle _ | setHandler _ | signal _ | cancelPending | happen _ _ => trivial

/-! ## Runs -/

theorem Activated.exclusive (h : Activated s) : Exclusive s := by
  intro pair hmem pair' hmem' hopen hopen'
  have hactive := h pair.2 pair.1 (List.mem_zipIdx_iff_getElem?.1 hmem) hopen
  have hactive' := h pair'.2 pair'.1 (List.mem_zipIdx_iff_getElem?.1 hmem') hopen'
  exact Option.some.inj (hactive.symm.trans hactive')

/-- The invariant of the runs whose requests return and whose sessions are created in time. -/
structure SessionInvariant (s : PrivilegeSystem) : Prop where
  activated : Activated s
  kept : Kept s
  held : ∀ q ∈ s.requests, Held q
  unthrown : ∀ q ∈ s.requests, Unthrown q

theorem SessionInvariant.exclusive (h : SessionInvariant s) : Exclusive s := h.activated.exclusive

theorem SessionInvariant.released (h : SessionInvariant s) : Released s := by
  intro q hq hdone _ disposed hmem
  obtain ⟨outcome, hstage⟩ := PrivilegeRequest.stage_of_isDone hdone
  rw [(h.held q hq).sessions, hstage] at hmem
  obtain ⟨-, -, rfl⟩ := List.mem_map.1 hmem
  rfl

theorem held_new (host : Host) (s : PrivilegeSystem) (now : ℚ) (input : PrivilegeExecuteInput) :
    (∀ aborted, Held (s.opened host now input aborted)) ∧
      ∀ active, Held (s.turnedAway host now input active) :=
  ⟨fun _ => ⟨.inl rfl, rfl⟩, fun _ => ⟨.inl rfl, rfl⟩⟩

theorem unthrown_new (host : Host) (s : PrivilegeSystem) (now : ℚ)
    (input : PrivilegeExecuteInput) :
    (∀ aborted, Unthrown (s.opened host now input aborted)) ∧
      ∀ active, Unthrown (s.turnedAway host now input active) :=
  ⟨fun _ => ⟨nofun, nofun⟩, fun _ => ⟨nofun, nofun⟩⟩

/-- **A step** whose requests return and whose sessions are created in time keeps the
invariant. -/
theorem step_sessions {e : ℚ × Event} (hs : SessionInvariant s) (hreturns : Guarded Returns s e)
    (htime : Guarded CreatedInTime s e) (hstep : step host s e = some t) : SessionInvariant t := by
  obtain ⟨now, e⟩ := e
  have hheld := step_forall hstep (fun input aborted _ _ => (held_new host s now input).1 aborted)
    (fun input _ active _ _ _ _ => (held_new host s now input).2 active)
    (fun request happening q _ hconcerns hq hq' hqheld =>
      hqheld.step (htime (request, happening) hconcerns q hq) hq') hs.held
  have hunthrown := step_forall hstep
    (fun input aborted _ _ => (unthrown_new host s now input).1 aborted)
    (fun input _ active _ _ _ _ => (unthrown_new host s now input).2 active)
    (fun request happening q _ hconcerns hq hq' hqunthrown =>
      hqunthrown.step (hreturns (request, happening) hconcerns q hq) hq') hs.unthrown
  refine ⟨step_activated hs.activated hstep, ?_, hheld, hunthrown⟩
  obtain ⟨input, aborted, rfl, rfl⟩ | ⟨request, rfl, h⟩ | ⟨handler, rfl, rfl⟩ |
    ⟨request, happening, -, h⟩ := step_cases hstep
  · exact hs.kept.execute host now input aborted
  · obtain ⟨q, outcome, hsettled, hq, hstage, rfl⟩ := settle_cases h
    cases outcome with
    | returned result => exact hs.kept.settle hsettled hq hstage
    | thrown => exact absurd hstage (hs.unthrown q (mem_of_getElem? hq)).2
  · exact ⟨hs.kept.inFlight, hs.kept.completed, hs.kept.apart, hs.kept.bounded⟩
  · obtain ⟨q, q', hq, hq', rfl⟩ := stepRequest_cases h
    exact hs.kept.stepRequest hq hq'

theorem initial_sessions (handler : Bool) : SessionInvariant (.initial handler) where
  activated := fun _ _ hq => (nomatch hq)
  kept := {
    inFlight := fun id request => by simp [PrivilegeSystem.initial]
    completed := .nil
    apart := fun _ _ hid => by simp [PrivilegeSystem.initial] at hid
    bounded := fun _ hmem => (nomatch hmem) }
  held := fun _ hq => (nomatch hq)
  unthrown := fun _ hq => (nomatch hq)

/-- **Requests are exclusive, run once, and release their sessions, if they return and their
sessions are created in time.**  Along every run in which no request throws, and a session is
created only while its request has none and has not come to its `finally` block, at most one
request has not returned at any time; a call of `execute` with the tool call id of a request in
flight, or among the 100 completed most recently, makes no request and gives what that request
returns; and once a request has returned and no method of its control object is under way, all
its sessions are disposed of. -/
theorem sessions_released_of_inTime (host : Host) (handler : Bool) (es : List (ℚ × Event))
    (hguard : Along (step host) (fun s e _ => Guarded Returns s e ∧ Guarded CreatedInTime s e)
      (.initial handler) es) :
    Along (step host) (fun s e t => Exclusive t ∧ DedupedAt s e t ∧ Released t)
      (.initial handler) es := by
  refine along_of_invariant (I := SessionInvariant) ?_ es _ (initial_sessions handler) hguard
  intro s e t hs hstep ⟨hreturns, htime⟩
  have ht := step_sessions hs hreturns htime hstep
  exact ⟨⟨ht.exclusive, hs.kept.deduped host e.1 e.2 t hstep, ht.released⟩, ht⟩

/-- **At most one request has not returned**, and it is the active one, whatever the terminal, the
handlers and the audit log do. -/
theorem exclusive_always (host : Host) (handler : Bool) (es : List (ℚ × Event)) :
    Along (step host) (fun _ _ t => Exclusive t ∧ Activated t) (.initial handler) es := by
  refine along_of_invariant ?_ es _ (initial_sessions handler).activated (along_true es _)
  intro s e t hs hstep _
  have ht := step_activated hs hstep
  exact ⟨⟨ht.exclusive, ht⟩, ht⟩

/-- The terminal answers `create` after the request was cancelled and has returned. -/
def createdLate : List (ℚ × Event) :=
  [(1, .execute (plainInput "call-1") false), (2, .happen 0 (.advance true)),
    (3, .happen 0 (.control .start)), (4, .cancelPending), (5, .happen 0 (.advance true)),
    (6, .happen 0 (.advance true)), (7, .happen 0 (.advance true)), (8, .happen 0 (.advance true)),
    (9, .happen 0 (.answer 0 true)), (10, .happen 0 (.answer 0 true))]

/-- The promise of `session.wait` is rejected, and the call is repeated. -/
def rejectedWait : List (ℚ × Event) :=
  confirming ++ [(7, .happen 0 (.answer 0 true)), (8, .happen 0 (.answer 0 true)),
    (9, .happen 0 (.handlerSettles .completed)), (10, .happen 0 (.advance true)),
    (11, .happen 0 (.sessionEnds none)), (12, .happen 0 (.advance true)),
    (13, .happen 0 (.advance true)), (14, .settle 0), (15, .execute (plainInput "call-1") false)]

/-- **A session is never disposed of** if it is created late, and a request that throws runs
again. -/
theorem sessions_not_released :
    ¬Along (step plainHost) (fun s e t => Exclusive t ∧ DedupedAt s e t ∧ Released t)
      (.initial true) createdLate ∧
    ¬Along (step plainHost) (fun s e t => Exclusive t ∧ DedupedAt s e t ∧ Released t)
      (.initial true) rejectedWait := by
  decide

/-- The general result at a run with a repeated call. -/
theorem sessions_released_of_inTime_succeeding :
    ((runFrom (step plainHost) (.initial true)
        (succeeding ++ [(30, .execute (plainInput "call-1") false)])).map fun s =>
      (s.requests.map (·.sessions), s.calls.length)) = some ([[true]], 2) ∧
    Along (step plainHost) (fun s e t => Exclusive t ∧ DedupedAt s e t ∧ Released t)
      (.initial true) (succeeding ++ [(30, .execute (plainInput "call-1") false)]) := by
  refine ⟨by decide, ?_⟩
  exact sessions_released_of_inTime plainHost true _ (by decide)

end BeauPi.Privilege
