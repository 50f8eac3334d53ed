import BeauPi.AgentSession.Accounts

/-!
# Messages that are left behind

* `IsIdle`, `NothingLeft` — no run, review or preflight is in progress; every message that was
  accepted is in the transcript and in the session.
* `idle_session_has_all` — **when messages are queued only while a call is still to look at them,
  nothing is left behind in an idle session.**
* `refused_prompt_leaves_message` — a message that is queued for a prompt that is refused stays.
-/

namespace BeauPi.AgentSession.Activity

open Llm Sessions AgentLoop Machine

variable (s : Activity)

/-! ## Idle sessions -/

/-- No run, no review and no preflight is in progress. -/
def IsIdle : Prop := s.calls = [] ∧ s.reviews = 0 ∧ s.promptPreflightCount = 0

/-- Nothing is queued, and what was accepted is in the transcript and in the session. -/
structure NothingLeft : Prop where
  steering : s.steeringQueue.messages = []
  followUp : s.followUpQueue.messages = []
  pending : s.pendingBashMessages = []
  transcript : ∀ message, s.accepted.count message ≤ s.transcript.count message
  session : ∀ message, s.accepted.count message ≤ s.recorded message

variable {s}

/-! ## Idle sessions have everything -/

theorem opened_attended (hasTaskRuntime : Bool) (steeringMode followUpMode : QueueMode)
    (session : EntryTree) :
    (opened hasTaskRuntime steeringMode followUpMode session).Attended where
  connected := rfl
  awaited h := by cases h
  queued h := by cases h
  pending h := absurd rfl h

theorem opened_accounted (hasTaskRuntime : Bool) (steeringMode followUpMode : QueueMode)
    (session : EntryTree) :
    (opened hasTaskRuntime steeringMode followUpMode session).Accounted where
  transcript _ := Nat.zero_le _
  session _ := Nat.zero_le _

/-- In an idle session no call is to look at anything, so nothing is queued. -/
theorem nothingLeft_of_idle (h : s.Attended) (hall : s.Accounted) (hidle : s.IsIdle) :
    s.NothingLeft := by
  obtain ⟨hcalls, -, hprompts⟩ := hidle
  have hprompt : ¬ s.HasStartingPrompt := by
    rintro ⟨call, hmem, htracks, -⟩
    have hpos : 0 < s.promptPreflightCount := List.countP_pos_iff.2 ⟨call, hmem, htracks⟩
    omega
  have hqueues : s.hasQueuedMessages = false := by
    by_contra hq
    rcases h.queued (by simpa using hq) with ⟨call, hmem, -⟩ | hp
    · rw [hcalls] at hmem
      cases hmem
    · exact hprompt hp
  have hpending : s.pendingBashMessages = [] := by
    by_contra hp
    rcases h.pending hp with ⟨call, hmem, -⟩ | hp
    · rw [hcalls] at hmem
      cases hmem
    · exact hprompt hp
  have hrun : s.agentRun = none := by
    by_contra hsome
    obtain ⟨call, hmem, -⟩ := h.awaited (Option.isSome_iff_ne_none.2 hsome)
    rw [hcalls] at hmem
    cases hmem
  simp only [hasQueuedMessages, Bool.or_eq_false_iff, Bool.not_eq_false', List.isEmpty_iff]
    at hqueues
  have hwaiting : ∀ message, s.waitingCount message = 0 := by
    intro message
    simp [waitingCount, hqueues.1, hqueues.2, hpending, hrun]
  refine ⟨hqueues.1, hqueues.2, hpending, fun message => ?_, fun message => ?_⟩
  · have htranscript := hall.transcript message
    rw [hwaiting] at htranscript
    omega
  · have hsession := hall.session message
    simp only [hwaiting, persistingCount, hrun, Option.bind_none, Option.toList_none,
      List.count_nil] at hsession
    omega

/-- **When messages are queued only while a call is still to look at them, nothing is left behind in
an idle session.** -/
theorem idle_session_has_all (hasTaskRuntime : Bool) (steeringMode followUpMode : QueueMode)
    (session : EntryTree)
    (h : Reaches Activity.step IsTimely (opened hasTaskRuntime steeringMode followUpMode session) s)
    (hidle : s.IsIdle) : s.NothingLeft := by
  have hinvariant : s.Attended ∧ s.Accounted := by
    refine reaches_invariant (I := fun s => s.Attended ∧ s.Accounted)
      ⟨opened_attended _ _ _ _, opened_accounted _ _ _ _⟩ ?_ h
    intro u event v hu hG hstep
    obtain ⟨more, hmore⟩ := step_accounts hu.1.connected hG hstep
    exact ⟨step_attended hu.1 hG hstep, hu.2.after hmore⟩
  exact nothingLeft_of_idle hinvariant.1 hinvariant.2 hidle

/-! ## Two sessions -/

/-- A message is queued while the run is in progress, and the run polls it. -/
def servedEvents : List Event :=
  [.prompt request false none true, .decided 0, .ready 0 [],
    .sendCustomMessage notice .steer false, .announced, .persisted, .responded response, .persisted,
    .poll .steer, .announced, .persisted, .responded response, .persisted, .poll .steer,
    .poll .followUp, .runEnded, .handled 0 false, .finished 0]

/-- A message is queued while a prompt is prepared that is then refused. -/
def refusedEvents : List Event :=
  [.prompt request false none false, .decided 0, .sendCustomMessage notice .steer true, .refused 0]

theorem idle_session_has_all_served : ∃ s, runFrom Activity.step emptySession servedEvents = some s ∧
    s.accepted = [request, notice] ∧ s.NothingLeft := by
  have hrun : (runFrom Activity.step emptySession servedEvents).isSome = true := by decide
  obtain ⟨s, hs⟩ := Option.isSome_iff_exists.1 hrun
  have hfacts : (runFrom Activity.step emptySession servedEvents).all fun s =>
      Decidable.decide (s.accepted = [request, notice] ∧ s.calls = [] ∧ s.reviews = 0 ∧
        s.promptPreflightCount = 0) := by decide
  rw [hs] at hfacts
  obtain ⟨haccepted, hidle⟩ := of_decide_eq_true hfacts
  have htimely : Along Activity.step (fun s e _ => s.IsTimely e) emptySession servedEvents := by
    decide
  refine ⟨s, hs, haccepted, idle_session_has_all false .oneAtATime .oneAtATime .empty ?_ hidle⟩
  exact reaches_of_runFrom servedEvents emptySession emptySession s .refl htimely hs

/-- The events that change no context. -/
def Event.IsOrdinary : Event → Prop
  | .compact | .compacted _ _ | .navigateTree | .navigated _ _ _ => False
  | _ => True

/-- **A message that was accepted while a prompt was prepared stays in the queue.** -/
theorem refused_prompt_leaves_message :
    ¬ ∀ (hasTaskRuntime : Bool) (steeringMode followUpMode : QueueMode) (session : EntryTree)
      (s : Activity),
      Reaches Activity.step (fun _ e => e.IsOrdinary)
        (opened hasTaskRuntime steeringMode followUpMode session) s →
      s.IsIdle → s.NothingLeft := by
  intro h
  obtain ⟨s, hs, hidle, hsteering⟩ : ∃ s, runFrom Activity.step emptySession refusedEvents = some s ∧
      s.IsIdle ∧ s.steeringQueue.messages = [notice] :=
    ⟨_, rfl, ⟨rfl, rfl, rfl⟩, rfl⟩
  have hordinary : Along Activity.step (fun _ e _ => e.IsOrdinary) emptySession refusedEvents := by
    simp [refusedEvents, Along, Event.IsOrdinary]
  have hreach := reaches_of_runFrom refusedEvents emptySession emptySession s .refl hordinary hs
  have hnothing := (h false .oneAtATime .oneAtATime .empty s hreach hidle).steering
  rw [hsteering] at hnothing
  cases hnothing

end BeauPi.AgentSession.Activity
