import BeauPi.Harness.Agent

/-!
# Phases of the agent harness

* `Control` — the phase, the abort controller and the run promise.
* `Call.step_control` — what a step of a call does to them.
* `Bookkept` — the invariant of runs in which one operation is in progress at a time.
* `alwaysExclusive_iff` — **operations exclude each other exactly when none is called between
  `agent_end` and the settlement of a run, and `abort` only where a controller is installed**.
-/

namespace BeauPi.Harness

open Llm Sessions List
open Option (bind_eq_some_iff map_eq_some_iff mem_toList some.inj)
open AgentLoop (Loop AgentEvent)

variable {h h' : AgentHarness} {s s' : System} {moment : Moment}

/-! ## What calls have in common -/

/-- The fields that say which operation is in progress. -/
structure Control where
  phase : Phase
  runAbortController : Option Nat
  runPromise : Option Nat
  aborted : List Nat
  resolved : List Nat

/-- The control fields of a harness. -/
def AgentHarness.control (h : AgentHarness) : Control :=
  ⟨h.phase, h.runAbortController, h.runPromise, h.aborted, h.resolved⟩

/-- Nothing changes but the phase, which may become idle. -/
def Control.Unwinds (c c' : Control) : Prop := c' = c ∨ c' = { c with phase := .idle }

theorem Control.Unwinds.refl (c : Control) : c.Unwinds c := Or.inl rfl

theorem Control.Unwinds.trans {c c' c'' : Control} (h : c.Unwinds c') (h' : c'.Unwinds c'') :
    c.Unwinds c'' := by
  rcases h with rfl | rfl
  · exact h'
  · rcases h' with rfl | rfl
    · exact Or.inr rfl
    · exact Or.inr rfl

theorem Flush.step_control {flush : Flush} {input : FlushInput} {progress : Progress Flush}
    (hs : flush.step h input = some (h', progress)) : h'.control = h.control := by
  unfold Flush.step at hs
  split at hs
  · obtain ⟨⟨session, at'⟩, -, heq⟩ := map_eq_some_iff.1 hs
    cases at' <;> cases heq <;> rfl
  · cases hs
    rfl
  · cases hs

theorem handleAgentEvent_control (h : AgentHarness) (event : AgentEvent) :
    h.control.Unwinds (h.handleAgentEvent event).1.control := by
  unfold AgentHarness.handleAgentEvent
  split
  · exact .refl _
  · exact .refl _
  · split
    · exact .refl _
    · exact Or.inr rfl
  · exact .refl _

theorem flushTurn_control (h : AgentHarness) (threw : Bool) :
    (h.flushTurn threw).1.control = h.control := by
  unfold AgentHarness.flushTurn
  split <;> rfl

theorem Handling.step_control {handling : Handling} {input : HandlingInput}
    {progress : Progress Handling} (hs : handling.step h input = some (h', progress)) :
    h.control.Unwinds h'.control := by
  unfold Handling.step at hs
  split at hs
  · obtain ⟨⟨session, at'⟩, -, heq⟩ := map_eq_some_iff.1 hs
    cases at' <;> cases heq <;> exact .refl _
  · obtain ⟨⟨h'', at'⟩, hflush, heq⟩ := map_eq_some_iff.1 hs
    have hcontrol := Flush.step_control hflush
    cases at' <;> cases heq <;> exact Or.inl hcontrol
  · obtain ⟨⟨h'', at'⟩, hflush, heq⟩ := map_eq_some_iff.1 hs
    have hcontrol := Flush.step_control hflush
    cases at' with
    | pending | threw =>
      cases heq
      exact Or.inl hcontrol
    | done =>
      cases heq
      rw [← hcontrol]
      exact Or.inr rfl
  · cases hs
    exact .refl _
  · cases hs
    exact .refl _
  · have hturn := flushTurn_control h false
    rw [some.inj hs] at hturn
    exact Or.inl hturn
  · have hturn := flushTurn_control h true
    rw [some.inj hs] at hturn
    exact Or.inl hturn
  · cases hs
    exact .refl _
  · cases hs
    exact .refl _
  · cases hs

/-! ## Runs -/

/-- Has the run not installed its abort controller yet? -/
def RunStage.inSetup : RunStage → Bool
  | .creating | .updating .. | .starting .. => true
  | _ => false

/-- The run goes on behind its setup. -/
def Unwound (h : AgentHarness) (next : AgentHarness × RunStage) : Prop :=
  h.control.Unwinds next.1.control ∧ next.2.inSetup = false

theorem Unwound.mono {next : AgentHarness × RunStage} (hnext : Unwound h' next)
    (hc : h.control.Unwinds h'.control) : Unwound h next :=
  ⟨hc.trans hnext.1, hnext.2⟩

theorem unwound_close (h : AgentHarness) (completed : Bool) : Unwound h (h.close completed) :=
  ⟨.refl _, rfl⟩

theorem unwound_report (h : AgentHarness) (events : List AgentEvent) :
    Unwound h (h.report events) := by
  cases events with
  | nil => exact unwound_close h true
  | cons event rest => exact ⟨handleAgentEvent_control h event, rfl⟩

theorem unwound_fail (h : AgentHarness) (run : Nat) (model : ModelRef) (moment : Moment) :
    Unwound h (h.fail run model moment) := unwound_report h _

theorem unwound_react (h : AgentHarness) (run : Nat) (model : ModelRef) (moment : Moment)
    (stepped : Loop × List AgentEvent) : Unwound h (h.react run model moment stepped) := by
  unfold AgentHarness.react
  split
  · exact ⟨handleAgentEvent_control h _, rfl⟩
  · split
    · exact unwound_close h _
    · exact unwound_fail h run model moment
    · exact ⟨.refl _, rfl⟩

theorem unwound_resumeLoop (h : AgentHarness) (run : Nat) (loop : Loop) (model : ModelRef)
    (moment : Moment) : Unwound h (h.resumeLoop run loop model moment) := by
  unfold AgentHarness.resumeLoop
  split
  · exact unwound_react h run model moment _
  · exact ⟨.refl _, rfl⟩

variable {run : Nat}

theorem unwound_stepLoop {loop : Loop} {model : ModelRef} {handling : Handling}
    {input : AgentLoop.Input} {next : AgentHarness × RunStage}
    (hs : stepLoop h run loop model handling moment input = some next) : Unwound h next := by
  unfold stepLoop at hs
  split at hs
  · obtain ⟨stepped, -, rfl⟩ := map_eq_some_iff.1 hs
    exact ⟨.refl _, rfl⟩
  · split at hs
    · obtain ⟨stepped, -, rfl⟩ := map_eq_some_iff.1 hs
      exact unwound_react h run model moment stepped
    · cases hs

theorem setQueue_control (h : AgentHarness) (queue : Queue) (name : QueueName) :
    (h.setQueue queue name).control = h.control := by
  cases name <;> rfl

theorem unshift_control (h : AgentHarness) (name : QueueName) (array : Nat)
    (messages : List AgentMessage) : (h.unshift name array messages).control = h.control := by
  unfold AgentHarness.unshift
  dsimp only
  split
  · exact setQueue_control h _ name
  · rfl

/-- What a step of a run does to the control fields. -/
inductive RunSteps (h : AgentHarness) (run : Nat) (stage : RunStage) (h' : AgentHarness) :
    Option RunStage → Prop
  | setup {stage' : RunStage} : stage.inSetup = true → stage'.inSetup = true →
      h'.control = h.control → RunSteps h run stage h' (some stage')
  | installs {stage' : RunStage} : stage.inSetup = true →
      Unwound { h with runAbortController := some run } (h', stage') →
      RunSteps h run stage h' (some stage')
  | onward {stage' : RunStage} : stage.inSetup = false → Unwound h (h', stage') →
      RunSteps h run stage h' (some stage')
  | fails : stage.inSetup = true → h'.control = (h.settle run false).control →
      RunSteps h run stage h' none
  | closes (completed : Bool) : stage.inSetup = false →
      h'.control = ({ h with runAbortController := none }.settle run completed).control →
      RunSteps h run stage h' none

theorem RunStage.step_control {stage : RunStage} {input : RunInput} {next : Option RunStage}
    (hs : stage.step h run moment input = some (h', next)) :
    RunSteps h run stage h' next := by
  unfold RunStage.step at hs
  split at hs
  · -- the turn state is there
    split at hs
    · cases hs
      exact .setup rfl rfl rfl
    · cases hs
      exact .setup rfl rfl rfl
  · cases hs
    exact .fails rfl rfl
  · cases hs
    exact .setup rfl rfl rfl
  · cases hs
    exact .fails rfl rfl
  · -- the loop begins
    cases hs
    exact .installs rfl (unwound_resumeLoop _ run _ _ moment)
  · cases hs
    exact .fails rfl rfl
  · -- an event of the loop is handled
    obtain ⟨⟨h'', progress⟩, hhandling, heq⟩ := map_eq_some_iff.1 hs
    have hcontrol := Handling.step_control hhandling
    cases progress with
    | pending rest =>
      cases heq
      exact .onward rfl ⟨hcontrol, rfl⟩
    | done =>
      cases heq
      exact .onward rfl ((unwound_resumeLoop _ run _ _ moment).mono hcontrol)
    | threw =>
      cases heq
      exact .onward rfl ((unwound_fail _ run _ moment).mono hcontrol)
  · -- the loop makes a step of its own
    obtain ⟨next', hstep, heq⟩ := map_eq_some_iff.1 hs
    cases heq
    exact .onward rfl (unwound_stepLoop hstep)
  · -- a poll
    split at hs
    · cases hs
    · split at hs
      · dsimp only at hs
        split at hs
        · obtain ⟨stepped, -, heq⟩ := bind_eq_some_iff.1 hs
          cases heq
          exact .onward rfl (unwound_react h run _ moment stepped)
        · cases hs
          exact .onward rfl ⟨Or.inl (setQueue_control h _ _), rfl⟩
      · cases hs
  · -- the next turn is prepared
    split at hs
    · cases hs
      refine .onward rfl ⟨.refl _, ?_⟩
      dsimp only
      split <;> rfl
    · cases hs
  · obtain ⟨stepped, -, heq⟩ := bind_eq_some_iff.1 hs
    cases heq
    exact .onward rfl (unwound_react h run _ moment stepped)
  · cases hs
    exact .onward rfl ((unwound_fail _ run _ moment).mono (Or.inl (unshift_control h _ _ _)))
  · obtain ⟨⟨h'', progress⟩, hflush, heq⟩ := map_eq_some_iff.1 hs
    have hcontrol := Flush.step_control hflush
    cases progress with
    | pending | done =>
      cases heq
      exact .onward rfl ⟨Or.inl hcontrol, rfl⟩
    | threw =>
      cases heq
      exact .onward rfl ((unwound_fail _ run _ moment).mono (Or.inl hcontrol))
  · obtain ⟨stepped, -, heq⟩ := bind_eq_some_iff.1 hs
    cases heq
    exact .onward rfl (unwound_react h run _ moment stepped)
  · cases hs
    exact .onward rfl (unwound_fail h run _ moment)
  · -- an event of a failure is handled
    obtain ⟨⟨h'', progress⟩, hhandling, heq⟩ := map_eq_some_iff.1 hs
    have hcontrol := Handling.step_control hhandling
    cases progress with
    | pending rest =>
      cases heq
      exact .onward rfl ⟨hcontrol, rfl⟩
    | done =>
      cases heq
      exact .onward rfl ((unwound_report _ _).mono hcontrol)
    | threw =>
      cases heq
      exact .onward rfl ((unwound_close _ false).mono hcontrol)
  · obtain ⟨⟨h'', progress⟩, hflush, heq⟩ := map_eq_some_iff.1 hs
    have hcontrol := Flush.step_control hflush
    cases progress <;> cases heq <;> exact .onward rfl ⟨Or.inl hcontrol, rfl⟩
  · cases hs
    exact .closes _ rfl rfl
  · cases hs

/-! ## Calls -/

/-- Is the call one of the five operations? -/
def Call.isOperation : Call → Bool
  | .run .. | .compact _ | .navigateTree _ => true
  | _ => false

/-- What a step of a call does to the control fields. -/
inductive CallSteps (h : AgentHarness) (h' : AgentHarness) : Call → Option Call → Prop
  | run {run : Nat} {stage : RunStage} {next : Option RunStage} : RunSteps h run stage h' next →
      CallSteps h h' (.run run stage) (next.map (Call.run run))
  | compact {stage : CompactStage} {next : Option CompactStage} : h.control.Unwinds h'.control →
      CallSteps h h' (.compact stage) (next.map Call.compact)
  | navigateTree {moved : Bool} {next : Option Bool} : h.control.Unwinds h'.control →
      CallSteps h h' (.navigateTree moved) (next.map Call.navigateTree)
  | write {write : PendingSessionWrite} {rest : Appending} {next : Option Appending} :
      h'.control = h.control → CallSteps h h' (.write write rest) (next.map (Call.write write))
  | wait {promise : Option Nat} {runs : List Nat} : h'.control = h.control →
      (∀ run, promise = some run → run ∈ h.resolved) → CallSteps h h' (.wait promise runs) none

variable {call : Call}

theorem Call.step_control {input : CallInput} {next : Option Call}
    (hs : call.step h moment input = some (h', next)) : CallSteps h h' call next := by
  unfold Call.step at hs
  split at hs
  · obtain ⟨⟨h'', stage'⟩, hstep, heq⟩ := map_eq_some_iff.1 hs
    cases heq
    exact .run (RunStage.step_control hstep)
  · cases hs
    exact @CallSteps.compact h h _ (some _) (.refl _)
  · obtain ⟨⟨session, progress⟩, -, heq⟩ := map_eq_some_iff.1 hs
    cases progress with
    | pending | done =>
      cases heq
      exact @CallSteps.compact h _ _ (some _) (.refl _)
    | threw =>
      cases heq
      exact @CallSteps.compact h _ _ none (Or.inr rfl)
  · cases hs
    exact @CallSteps.compact h _ _ none (Or.inr rfl)
  · cases hs
    exact @CallSteps.compact h _ _ none (Or.inr rfl)
  · split at hs
    · cases hs
      exact @CallSteps.navigateTree h _ _ (some _) (.refl _)
    · cases hs
      exact @CallSteps.navigateTree h _ _ none (Or.inr rfl)
  · cases hs
    exact @CallSteps.navigateTree h _ _ none (Or.inr rfl)
  · obtain ⟨⟨session, progress⟩, -, heq⟩ := map_eq_some_iff.1 hs
    cases progress with
    | pending rest =>
      cases heq
      exact @CallSteps.write h _ _ _ (some _) rfl
    | done | threw =>
      cases heq
      exact @CallSteps.write h _ _ _ none rfl
  · split at hs
    · split at hs
      · next number hresolved =>
        cases hs
        refine .wait rfl fun run hrun => ?_
        obtain rfl := some.inj hrun
        simpa using hresolved
      · cases hs
    · cases hs
      exact .wait rfl nofun
  · cases hs

/-! ## Exclusive operations -/

/-- The operations in progress. -/
def System.operations (s : System) : List Call := s.calls.filter Call.isOperation

/-- What must hold of a step: at most one operation is in progress after it, `abort` aborts every
run in progress, and `waitForIdle` resolves after the runs that it was called during. -/
structure Exclusive (s : System) (action : Action) (s' : System) : Prop where
  single : s'.operations.length ≤ 1
  aborts : action = .abort → ∀ run ∈ s.runs, run ∈ s'.harness.aborted
  waits : ∀ index input moment promise runs, action = .step index input moment →
    s.calls[index]? = some (.wait promise runs) → ∀ run ∈ runs, run ∉ s'.runs

/-- No operation is called between `agent_end` and the settlement of a run, and `abort` is called
only when the run in progress has installed its controller. -/
def System.Meets (s : System) : Action → Prop
  | .prompt | .compact | .navigateTree => s.harness.phase = .idle → s.operations = []
  | .abort => ∀ run stage, Call.run run stage ∈ s.calls → stage.inSetup = false
  | _ => True

/-- What the control fields say about the calls under way. -/
structure Bookkept (s : System) : Prop where
  single : s.operations.length ≤ 1
  controller : ∀ run, s.harness.runAbortController = some run →
    ∃ stage, Call.run run stage ∈ s.calls ∧ stage.inSetup = false
  runs : ∀ run stage, Call.run run stage ∈ s.calls → run < s.nextRun ∧
    s.harness.runPromise = some run ∧ run ∉ s.harness.resolved ∧
    (stage.inSetup = false → s.harness.runAbortController = some run) ∧
    (stage.inSetup = true → run ∉ s.harness.aborted)
  old : ∀ run, run ∈ s.harness.aborted ∨ run ∈ s.harness.resolved → run < s.nextRun
  waits : ∀ promise runs, Call.wait promise runs ∈ s.calls → ∀ run ∈ runs, promise = some run

theorem control_eq (hc : h'.control = h.control) : h'.phase = h.phase ∧
    h'.runAbortController = h.runAbortController ∧ h'.runPromise = h.runPromise ∧
    h'.aborted = h.aborted ∧ h'.resolved = h.resolved := by
  unfold AgentHarness.control at hc
  simpa only [Control.mk.injEq] using hc

theorem control_unwinds (hc : h.control.Unwinds h'.control) :
    h'.runAbortController = h.runAbortController ∧ h'.runPromise = h.runPromise ∧
    h'.aborted = h.aborted ∧ h'.resolved = h.resolved := by
  unfold AgentHarness.control Control.Unwinds at hc
  simp only [Control.mk.injEq] at hc
  rcases hc with ⟨-, hfields⟩ | ⟨-, hfields⟩
  · exact hfields
  · exact hfields

/-- Steps that leave the runs as they are. -/
theorem Bookkept.frame (hb : Bookkept s) (hc : s.harness.control.Unwinds s'.harness.control)
    (hnext : s'.nextRun = s.nextRun) (hsingle : s'.operations.length ≤ 1)
    (hruns : ∀ run stage, Call.run run stage ∈ s'.calls ↔ Call.run run stage ∈ s.calls)
    (hwaits : ∀ promise runs, Call.wait promise runs ∈ s'.calls →
      ∀ run ∈ runs, promise = some run) : Bookkept s' := by
  obtain ⟨hcontroller, hpromise, haborted, hresolved⟩ := control_unwinds hc
  refine ⟨hsingle, fun run h => ?_, fun run stage hmem => ?_, fun run h => ?_, hwaits⟩
  · obtain ⟨stage, hmem, hstage⟩ := hb.controller run (hcontroller ▸ h)
    exact ⟨stage, (hruns run stage).2 hmem, hstage⟩
  · rw [hcontroller, hpromise, haborted, hresolved, hnext]
    exact hb.runs run stage ((hruns run stage).1 hmem)
  · rw [haborted, hresolved] at h
    rw [hnext]
    exact hb.old run h

variable {pre post : List Call}

/-- Beside an operation in progress there is no other. -/
theorem Bookkept.alone (hb : Bookkept s) (hsplit : s.calls = pre ++ call :: post)
    (hcall : call.isOperation = true) :
    ∀ c ∈ pre ++ post, c.isOperation = false := by
  have hsingle := hb.single
  rw [System.operations, hsplit, filter_append, filter_cons_of_pos hcall,
    length_append, length_cons] at hsingle
  intro c hc
  rw [← Bool.not_eq_true]
  intro hop
  rcases List.mem_append.1 hc with hpre | hpost
  · have hpositive := length_pos_of_mem (List.mem_filter.2 ⟨hpre, hop⟩)
    omega
  · have hpositive := length_pos_of_mem (List.mem_filter.2 ⟨hpost, hop⟩)
    omega

theorem mem_runs : run ∈ s.runs ↔ ∃ stage, Call.run run stage ∈ s.calls := by
  unfold System.runs
  rw [mem_filterMap]
  constructor
  · rintro ⟨call, hmem, hrun⟩
    cases call with
    | run number stage =>
      obtain rfl := some.inj hrun
      exact ⟨stage, hmem⟩
    | _ => cases hrun
  · rintro ⟨stage, hmem⟩
    exact ⟨_, hmem, rfl⟩

/-- A call that replaces another adds no operation beside it. -/
theorem single_replace {next : Option Call} (hsingle : s.operations.length ≤ 1)
    (hsplit : s.calls = pre ++ call :: post) (hcalls : s'.calls = pre ++ next.toList ++ post)
    (hnext : ∀ c ∈ next, c.isOperation = call.isOperation) : s'.operations.length ≤ 1 := by
  rw [System.operations, hsplit, filter_append, filter_cons, length_append] at hsingle
  rw [System.operations, hcalls, filter_append, filter_append, length_append,
    length_append]
  cases next with
  | none =>
    simp only [Option.toList_none, filter_nil, length_nil]
    split at hsingle
    · rw [length_cons] at hsingle
      omega
    · omega
  | some c =>
    have hsame := hnext c rfl
    rw [Option.toList_some, filter_cons, filter_nil, hsame]
    split at hsingle
    · next hop =>
      rw [length_cons] at hsingle
      rw [if_pos hop, length_singleton]
      omega
    · next hop =>
      rw [if_neg hop, length_nil]
      omega

variable {action : Action}

theorem exclusive_of_single (hsingle : s'.operations.length ≤ 1) (haborts : action ≠ .abort)
    (hwaits : ∀ index input moment, action = .step index input moment → ∀ awaited during,
      s.calls[index]? ≠ some (.wait awaited during)) :
    Exclusive s action s' :=
  ⟨hsingle, fun h => absurd h haborts,
    fun _ _ _ _ _ h hcall => absurd hcall (hwaits _ _ _ h _ _)⟩

/-- A step of a run. -/
theorem Bookkept.stepRun (hb : Bookkept s) {stage : RunStage} {next : Option RunStage}
    (hsplit : s.calls = pre ++ .run run stage :: post)
    (hsteps : RunSteps s.harness run stage s'.harness next)
    (hcalls : s'.calls = pre ++ (next.map (Call.run run)).toList ++ post)
    (hnextRun : s'.nextRun = s.nextRun) : Bookkept s' := by
  have hother := hb.alone hsplit rfl
  have hmem : Call.run run stage ∈ s.calls := by rw [hsplit]; simp
  obtain ⟨hlt, hpromise, hunresolved, hactive, hsetup⟩ := hb.runs run stage hmem
  have hsingle : s'.operations.length ≤ 1 := by
    refine single_replace hb.single hsplit hcalls fun c hc => ?_
    obtain ⟨stage', -, rfl⟩ := map_eq_some_iff.1 hc
    rfl
  have hwaits : ∀ promise runs, Call.wait promise runs ∈ s'.calls →
      ∀ run ∈ runs, promise = some run := by
    intro promise runs hwait
    refine hb.waits promise runs ?_
    rw [hcalls] at hwait
    rw [hsplit]
    cases next <;> simpa using hwait
  -- a run of the new state is the one that made the step
  have hrun : ∀ run' stage', Call.run run' stage' ∈ s'.calls → run' = run ∧ next = some stage' := by
    intro run' stage' hmem'
    rw [hcalls, append_assoc, mem_append, mem_append] at hmem'
    have hne : Call.run run' stage' ∉ pre ++ post := fun h => by
      have hno := hother _ h
      cases hno
    rcases hmem' with h | h | h
    · exact absurd (mem_append_left _ h) hne
    · obtain ⟨stage'', hnext, heq⟩ := map_eq_some_iff.1 (mem_toList.1 h)
      cases heq
      exact ⟨rfl, hnext⟩
    · exact absurd (mem_append_right _ h) hne
  have hnew : ∀ stage', next = some stage' → Call.run run stage' ∈ s'.calls := by
    rintro stage' rfl
    rw [hcalls]
    simp
  -- the controller is that of the run, if it has one
  have hcontroller : ∀ run', s.harness.runAbortController = some run' →
      run' = run ∧ stage.inSetup = false := by
    intro run' h
    obtain ⟨stage', hmem', hstage'⟩ := hb.controller run' h
    rw [hsplit, mem_append, mem_cons] at hmem'
    have hne : Call.run run' stage' ∉ pre ++ post := fun h => by
      have hno := hother _ h
      cases hno
    rcases hmem' with h | h | h
    · exact absurd (mem_append_left _ h) hne
    · cases h
      exact ⟨rfl, hstage'⟩
    · exact absurd (mem_append_right _ h) hne
  refine ⟨hsingle, fun run' h => ?_, fun run' stage' hmem' => ?_, fun run' h => ?_, hwaits⟩
  · -- the controller
    cases hsteps with
    | setup hin hin' hc | fails hin hc =>
      rw [(control_eq hc).2.1] at h
      rw [(hcontroller run' h).2] at hin
      cases hin
    | installs hin hunwound =>
      have hc := (control_unwinds hunwound.1).1
      rw [hc] at h
      obtain rfl := some.inj h
      exact ⟨_, hnew _ rfl, hunwound.2⟩
    | onward hin hunwound =>
      rw [(control_unwinds hunwound.1).1] at h
      obtain ⟨rfl, -⟩ := hcontroller run' h
      exact ⟨_, hnew _ rfl, hunwound.2⟩
    | closes completed hin hc =>
      rw [(control_eq hc).2.1] at h
      cases h
  · -- the runs
    obtain ⟨rfl, hnext⟩ := hrun run' stage' hmem'
    rw [hnextRun]
    cases hsteps with
    | setup hin hin' hc =>
      cases hnext
      obtain ⟨-, hcontroller', hpromise', haborted', hresolved'⟩ := control_eq hc
      refine ⟨hlt, hpromise' ▸ hpromise, hresolved' ▸ hunresolved, fun hno => ?_, fun _ => ?_⟩
      · rw [hno] at hin'
        cases hin'
      · exact haborted' ▸ hsetup hin
    | installs hin hunwound =>
      cases hnext
      obtain ⟨hcontroller', hpromise', -, hresolved'⟩ := control_unwinds hunwound.1
      refine ⟨hlt, hpromise' ▸ hpromise, hresolved' ▸ hunresolved, fun _ => hcontroller',
        fun hyes => ?_⟩
      rw [hunwound.2] at hyes
      cases hyes
    | onward hin hunwound =>
      cases hnext
      obtain ⟨hcontroller', hpromise', -, hresolved'⟩ := control_unwinds hunwound.1
      refine ⟨hlt, hpromise' ▸ hpromise, hresolved' ▸ hunresolved,
        fun _ => hcontroller' ▸ hactive hin, fun hyes => ?_⟩
      rw [hunwound.2] at hyes
      cases hyes
    | fails => cases hnext
    | closes => cases hnext
  · -- the numbers given so far
    rw [hnextRun]
    have hsame : s'.harness.aborted = s.harness.aborted ∧
        (s'.harness.resolved = s.harness.resolved ∨
          s'.harness.resolved = run :: s.harness.resolved) := by
      cases hsteps with
      | setup _ _ hc => exact ⟨(control_eq hc).2.2.2.1, Or.inl (control_eq hc).2.2.2.2⟩
      | installs _ hunwound | onward _ hunwound =>
        obtain ⟨-, -, haborted, hresolved⟩ := control_unwinds hunwound.1
        exact ⟨haborted, Or.inl hresolved⟩
      | fails _ hc | closes completed _ hc => exact ⟨(control_eq hc).2.2.2.1, Or.inr (control_eq
        hc).2.2.2.2⟩
    obtain ⟨haborted, hresolved⟩ := hsame
    rw [haborted] at h
    rcases h with h | h
    · exact hb.old run' (Or.inl h)
    · rcases hresolved with hresolved | hresolved
      · rw [hresolved] at h
        exact hb.old run' (Or.inr h)
      · rw [hresolved, mem_cons] at h
        rcases h with rfl | h
        · exact hlt
        · exact hb.old run' (Or.inr h)

/-- A step of any call. -/
theorem Bookkept.stepCall (hb : Bookkept s) {index : Nat} {input : CallInput}
    (hs : s.step (.step index input moment) = some s') :
    Exclusive s (.step index input moment) s' ∧ Bookkept s' := by
  obtain ⟨pre, call, post, next, hsplit, hcall, hstep, hcalls, hnextRun, -⟩ := System.step_call hs
  have hsteps := Call.step_control hstep
  have hother : call.isOperation = true → ∀ index' input' moment',
      Action.step index input moment = .step index' input' moment' →
      ∀ awaited during, s.calls[index']? ≠ some (.wait awaited during) := by
    intro hop index' input' moment' heq awaited during hwait
    cases heq
    rw [hcall] at hwait
    cases hwait
    cases hop
  -- a call that is no run leaves the runs as they are
  have hframe : call.run? = none → (∀ c ∈ next, c.run? = none) →
      (∀ c ∈ next, c.isOperation = call.isOperation) →
      (∀ promise runs, next ≠ some (.wait promise runs)) →
      s.harness.control.Unwinds s'.harness.control → s'.operations.length ≤ 1 ∧ Bookkept s' := by
    intro hrun hnextRuns hnextOps hnextWaits hc
    have hsingle := single_replace hb.single hsplit hcalls hnextOps
    refine ⟨hsingle, hb.frame hc hnextRun hsingle (fun run stage => ?_) fun promise runs hwait => ?_⟩
    · rw [hcalls, hsplit]
      constructor
      · intro hmem
        rw [append_assoc, mem_append, mem_append] at hmem
        rcases hmem with h | h | h
        · exact mem_append_left _ h
        · have hno := hnextRuns _ (mem_toList.1 h)
          cases hno
        · exact mem_append_right _ (mem_cons_of_mem _ h)
      · intro hmem
        rw [mem_append, mem_cons] at hmem
        rcases hmem with h | h | h
        · simp [h]
        · rw [← h] at hrun
          cases hrun
        · simp [h]
    · refine hb.waits promise runs ?_
      rw [hcalls, append_assoc, mem_append, mem_append] at hwait
      rw [hsplit]
      rcases hwait with h | h | h
      · exact mem_append_left _ h
      · exact absurd (mem_toList.1 h) (hnextWaits promise runs)
      · exact mem_append_right _ (mem_cons_of_mem _ h)
  cases hsteps with
  | run hrunSteps =>
    have hbook := hb.stepRun hsplit hrunSteps hcalls hnextRun
    exact ⟨exclusive_of_single hbook.single nofun (hother rfl), hbook⟩
  | @compact stage next hc | @navigateTree moved next hc =>
    obtain ⟨hsingle, hbook⟩ := hframe rfl (by cases next <;> simp [Call.run?])
      (by cases next <;> simp [Call.isOperation]) (by cases next <;> simp) hc
    exact ⟨exclusive_of_single hsingle nofun (hother rfl), hbook⟩
  | @write w rest next hc =>
    obtain ⟨hsingle, hbook⟩ := hframe rfl (by cases next <;> simp [Call.run?])
      (by cases next <;> simp [Call.isOperation]) (by cases next <;> simp) (Or.inl hc)
    refine ⟨exclusive_of_single hsingle nofun ?_, hbook⟩
    intro index' input' moment' heq awaited during hwait
    cases heq
    rw [hcall] at hwait
    cases hwait
  | @wait promise runs hc hresolved =>
    obtain ⟨hsingle, hbook⟩ := hframe rfl (by simp) (by simp) (by simp) (Or.inl hc)
    refine ⟨⟨hsingle, nofun, ?_⟩, hbook⟩
    intro index' input' moment' promise' runs' heq hwait run hrun hmem
    cases heq
    rw [hcall] at hwait
    cases hwait
    have hpromise := hb.waits promise runs (by rw [hsplit]; simp) run hrun
    obtain ⟨stage, hstage⟩ := mem_runs.1 hmem
    have hunresolved := (hbook.runs run stage hstage).2.2.1
    rw [(control_eq hc).2.2.2.2] at hunresolved
    exact hunresolved (hresolved run hpromise)

/-- A call that starts an operation. -/
theorem Bookkept.start (hb : Bookkept s) (call : Call) (hop : call.isOperation = true)
    (haborts : action ≠ .abort) (hcall : ∀ index input moment, action ≠ .step index input moment)
    (hidle : s.harness.phase = .idle → s'.calls = s.calls ++ [call])
    (hbusy : s.harness.phase ≠ .idle → s'.calls = s.calls)
    (hbook : (s.harness.phase = .idle → s.operations = []) → s'.operations.length ≤ 1 → Bookkept s') :
    (Exclusive s action s' ↔ (s.harness.phase = .idle → s.operations = [])) ∧
      ((s.harness.phase = .idle → s.operations = []) → Bookkept s') := by
  have hiff : s'.operations.length ≤ 1 ↔ (s.harness.phase = .idle → s.operations = []) := by
    by_cases hphase : s.harness.phase = .idle
    · rw [System.operations, hidle hphase, filter_append, filter_cons_of_pos hop,
        filter_nil, length_append, length_singleton]
      change s.operations.length + 1 ≤ 1 ↔ _
      constructor
      · intro hle _
        exact eq_nil_of_length_eq_zero (by omega)
      · intro h
        rw [h hphase]
        simp
    · rw [System.operations, hbusy hphase]
      exact ⟨fun _ h => absurd h hphase, fun _ => hb.single⟩
  refine ⟨⟨fun h => hiff.1 h.single, fun h => ?_⟩, fun h => hbook h (hiff.2 h)⟩
  exact exclusive_of_single (hiff.2 h) haborts
    fun index input moment heq => absurd heq (hcall index input moment)

/-- Steps that change no call and no control field. -/
theorem Bookkept.same (hb : Bookkept s) (haborts : action ≠ .abort)
    (haction : ∀ index input moment, action ≠ .step index input moment)
    (hc : s'.harness.control = s.harness.control) (hcalls : s'.calls = s.calls)
    (hnextRun : s'.nextRun = s.nextRun) : Exclusive s action s' ∧ Bookkept s' := by
  have hsingle : s'.operations.length ≤ 1 := by
    rw [System.operations, hcalls]
    exact hb.single
  refine ⟨exclusive_of_single hsingle haborts fun _ _ _ heq => absurd heq (haction _ _ _), ?_⟩
  refine hb.frame (Or.inl hc) hnextRun hsingle (fun run stage => ?_) fun promise runs hwait => ?_
  · rw [hcalls]
  · exact hb.waits promise runs (hcalls ▸ hwait)

/-- A call beside the operations is added. -/
theorem Bookkept.add (hb : Bookkept s) (haborts : action ≠ .abort)
    (haction : ∀ index input moment, action ≠ .step index input moment)
    (hop : call.isOperation = false) (hc : s'.harness.control = s.harness.control)
    (hcalls : s'.calls = s.calls ++ [call]) (hnextRun : s'.nextRun = s.nextRun)
    (hwaits : ∀ promise runs, call = .wait promise runs → ∀ run ∈ runs, promise = some run) :
    Exclusive s action s' ∧ Bookkept s' := by
  have hsingle : s'.operations.length ≤ 1 := by
    rw [System.operations, hcalls, filter_append, filter_cons_of_neg (by rw [hop]; simp),
      filter_nil, append_nil]
    exact hb.single
  refine ⟨exclusive_of_single hsingle haborts fun _ _ _ heq => absurd heq (haction _ _ _), ?_⟩
  refine hb.frame (Or.inl hc) hnextRun hsingle (fun run stage => ?_) fun promise runs hwait => ?_
  · rw [hcalls, mem_append, mem_singleton]
    constructor
    · rintro (h | h)
      · exact h
      · rw [← h] at hop
        cases hop
    · exact Or.inl
  · rw [hcalls, mem_append, mem_singleton] at hwait
    rcases hwait with h | h
    · exact hb.waits promise runs h
    · exact hwaits promise runs h.symm

/-- Two entries of a list of at most one. -/
theorem Bookkept.unique (hb : Bookkept s) {c c' : Call} (hc : c ∈ s.calls) (hc' : c' ∈ s.calls)
    (hop : c.isOperation = true) (hop' : c'.isOperation = true) : c' = c := by
  obtain ⟨pre, post, hsplit⟩ := append_of_mem hc
  by_contra hne
  have hother := hb.alone hsplit hop c' (by
    rw [hsplit, mem_append, mem_cons] at hc'
    rcases hc' with h | h | h
    · exact mem_append_left _ h
    · exact absurd h hne
    · exact mem_append_right _ h)
  rw [hop'] at hother
  cases hother

/-- While no operation is in progress, no controller is installed. -/
theorem Bookkept.idle (hb : Bookkept s) (hnone : s.operations = []) :
    (∀ run stage, Call.run run stage ∉ s.calls) ∧ s.harness.runAbortController = none := by
  have hno : ∀ run stage, Call.run run stage ∉ s.calls := by
    intro run stage hmem
    have hop := List.mem_filter.2 ⟨hmem, (rfl : (Call.run run stage).isOperation = true)⟩
    rw [← System.operations, hnone] at hop
    cases hop
  refine ⟨hno, ?_⟩
  cases hc : s.harness.runAbortController with
  | none => rfl
  | some run =>
    obtain ⟨stage, hmem, -⟩ := hb.controller run hc
    exact absurd hmem (hno run stage)

/-- A run that starts while no operation is in progress. -/
theorem Bookkept.prompt (hb : Bookkept s) (hs : s.step .prompt = some s') :
    (Exclusive s .prompt s' ↔ s.Meets .prompt) ∧ (s.Meets .prompt → Bookkept s') := by
  obtain rfl := some.inj hs
  refine hb.start (.run s.nextRun .creating) rfl (by simp) (by simp) (fun hidle => ?_)
    (fun hbusy => ?_) fun hmeets hsingle => ?_
  · simp [System.start, hidle]
  · simp [System.start, hbusy]
  by_cases hidle : s.harness.phase = .idle
  · obtain ⟨hno, hcontroller⟩ := hb.idle (hmeets hidle)
    have hnew : ∀ run, run ∈ s.harness.aborted ∨ run ∈ s.harness.resolved → run ≠ s.nextRun := by
      rintro run h rfl
      exact Nat.lt_irrefl _ (hb.old _ h)
    refine ⟨hsingle, ?_, ?_, ?_, ?_⟩
    · intro run h
      simp [System.start, hidle, hcontroller] at h
    · intro run stage hmem
      simp only [System.start, hidle, if_true, mem_append, mem_singleton] at hmem ⊢
      rcases hmem with h | h
      · exact absurd h (hno run stage)
      · cases h
        exact ⟨Nat.lt_succ_self _, rfl, fun h => hnew _ (Or.inr h) rfl,
          fun h => absurd h (by simp [RunStage.inSetup]), fun _ h => hnew _ (Or.inl h) rfl⟩
    · intro run h
      simp only [System.start, hidle, if_true] at h ⊢
      exact Nat.lt_succ_of_lt (hb.old run h)
    · intro promise runs hwait
      simp only [System.start, hidle, if_true, mem_append, mem_singleton] at hwait
      rcases hwait with h | h
      · exact hb.waits promise runs h
      · cases h
  · simp only [System.start, hidle, if_false]
    exact ⟨hb.single, hb.controller, fun run stage hmem =>
      ⟨Nat.lt_succ_of_lt (hb.runs run stage hmem).1, (hb.runs run stage hmem).2⟩,
      fun run h => Nat.lt_succ_of_lt (hb.old run h), hb.waits⟩

/-- A compaction or a navigation that starts while no operation is in progress. -/
theorem Bookkept.startOther (hb : Bookkept s) {phase : Phase} (hop : call.isOperation = true)
    (hrun : call.run? = none) (haborts : action ≠ .abort)
    (haction : ∀ index input moment, action ≠ .step index input moment)
    (hs : s.start phase call = s') :
    (Exclusive s action s' ↔ (s.harness.phase = .idle → s.operations = [])) ∧
      ((s.harness.phase = .idle → s.operations = []) → Bookkept s') := by
  subst hs
  refine hb.start call hop haborts haction (fun hidle => ?_) (fun hbusy => ?_) fun hmeets hsingle => ?_
  · simp [System.start, hidle]
  · simp [System.start, hbusy]
  unfold System.start at hsingle ⊢
  by_cases hidle : s.harness.phase = .idle
  · rw [if_pos hidle] at hsingle ⊢
    obtain ⟨hno, hcontroller⟩ := hb.idle (hmeets hidle)
    refine ⟨hsingle, fun run h => ?_, fun run stage hmem => ?_, hb.old, fun promise runs h => ?_⟩
    · rw [hcontroller] at h
      cases h
    · rw [mem_append, mem_singleton] at hmem
      rcases hmem with h | h
      · exact absurd h (hno run stage)
      · rw [← h] at hrun
        cases hrun
    · rw [mem_append, mem_singleton] at h
      rcases h with h | h
      · exact hb.waits promise runs h
      · rw [← h] at hop
        cases hop
  · rw [if_neg hidle]
    exact hb

/-- `abort` aborts every run in progress exactly when none of them is in its setup. -/
theorem Bookkept.abort (hb : Bookkept s) (hs : s.step .abort = some s') :
    (Exclusive s .abort s' ↔ s.Meets .abort) ∧ (s.Meets .abort → Bookkept s') := by
  obtain rfl := some.inj hs
  have haborts : (∀ run ∈ s.runs, run ∈ s.harness.runAbortController.toList ++ s.harness.aborted) ↔
      s.Meets .abort := by
    constructor
    · intro h run stage hmem
      by_contra hsetup
      rw [Bool.not_eq_false] at hsetup
      rcases List.mem_append.1 (h run (mem_runs.2 ⟨stage, hmem⟩)) with hc | hold
      · obtain ⟨stage', hmem', hstage'⟩ := hb.controller run (mem_toList.1 hc)
        have hsame := hb.unique hmem hmem' rfl rfl
        cases hsame
        rw [hsetup] at hstage'
        cases hstage'
      · exact (hb.runs run stage hmem).2.2.2.2 hsetup hold
    · intro h run hrun
      obtain ⟨stage, hmem⟩ := mem_runs.1 hrun
      rw [(hb.runs run stage hmem).2.2.2.1 (h run stage hmem)]
      simp
  refine ⟨⟨fun h => haborts.1 (h.aborts rfl), fun h => ⟨hb.single, fun _ => haborts.2 h, ?_⟩⟩,
    fun hmeets => ⟨hb.single, hb.controller, fun run stage hmem => ?_, ?_, hb.waits⟩⟩
  · intro index input moment promise runs heq
    exact absurd heq (by simp)
  · obtain ⟨hlt, hpromise, hunresolved, hactive, -⟩ := hb.runs run stage hmem
    refine ⟨hlt, hpromise, hunresolved, hactive, fun hsetup => ?_⟩
    rw [hmeets run stage hmem] at hsetup
    cases hsetup
  · intro run h
    rcases h with h | h
    · rcases List.mem_append.1 h with hc | hold
      · obtain ⟨stage, hmem, -⟩ := hb.controller run (mem_toList.1 hc)
        exact (hb.runs run stage hmem).1
      · exact hb.old run (Or.inl hold)
    · exact hb.old run (Or.inr h)

/-- **A step is exclusive exactly when it meets the condition**, and then the control fields still
say what the calls under way are. -/
theorem Bookkept.step (hb : Bookkept s) (hs : s.step action = some s') :
    (Exclusive s action s' ↔ s.Meets action) ∧ (s.Meets action → Bookkept s') := by
  have htrue : Exclusive s action s' ∧ Bookkept s' → s.Meets action →
      (Exclusive s action s' ↔ s.Meets action) ∧ (s.Meets action → Bookkept s') :=
    fun h hmeets => ⟨⟨fun _ => hmeets, fun _ => h.1⟩, fun _ => h.2⟩
  have hpush : ∀ m name, (s.harness.push m name).control = s.harness.control :=
    fun m name => setQueue_control s.harness _ name
  cases action with
  | step index input moment => exact htrue (hb.stepCall hs) trivial
  | prompt => exact hb.prompt hs
  | compact | navigateTree => exact hb.startOther rfl rfl (by simp) (by simp) (some.inj hs)
  | steer m =>
    unfold System.step at hs
    dsimp only at hs
    split at hs
    · obtain rfl := some.inj hs
      exact htrue (hb.same (by simp) (by simp) rfl rfl rfl) trivial
    · obtain rfl := some.inj hs
      exact htrue (hb.same (by simp) (by simp) (hpush m .steer) rfl rfl) trivial
  | followUp m =>
    unfold System.step at hs
    dsimp only at hs
    split at hs
    · obtain rfl := some.inj hs
      exact htrue (hb.same (by simp) (by simp) rfl rfl rfl) trivial
    · obtain rfl := some.inj hs
      exact htrue (hb.same (by simp) (by simp) (hpush m .followUp) rfl rfl) trivial
  | nextTurn m =>
    obtain rfl := some.inj hs
    exact htrue (hb.same (by simp) (by simp) rfl rfl rfl) trivial
  | write w =>
    unfold System.step at hs
    dsimp only at hs
    split at hs
    · obtain rfl := some.inj hs
      exact htrue (hb.add (by simp) (by simp) rfl rfl rfl rfl (by simp)) trivial
    · obtain rfl := some.inj hs
      exact htrue (hb.same (by simp) (by simp) rfl rfl rfl) trivial
  | abort => exact hb.abort hs
  | waitForIdle =>
    obtain rfl := some.inj hs
    refine htrue (hb.add (by simp) (by simp) rfl rfl rfl rfl fun promise runs h run hrun => ?_)
      trivial
    cases h
    obtain ⟨stage, hmem⟩ := mem_runs.1 hrun
    exact (hb.runs run stage hmem).2.1

/-! ## Runs of the system -/

/-- Every step of a sequence of actions is exclusive; an action that is not possible ends it. -/
def AlwaysExclusive : System → List Action → Prop
  | _, [] => True
  | s, action :: actions =>
    ∀ s', s.step action = some s' → Exclusive s action s' ∧ AlwaysExclusive s' actions

/-- Every step meets the condition. -/
def AlwaysMeets : System → List Action → Prop
  | _, [] => True
  | s, action :: actions =>
    ∀ s', s.step action = some s' → s.Meets action ∧ AlwaysMeets s' actions

theorem alwaysExclusive_of_bookkept (hb : Bookkept s) (actions : List Action) :
    AlwaysExclusive s actions ↔ AlwaysMeets s actions := by
  induction actions generalizing s with
  | nil => exact Iff.rfl
  | cons action actions ih =>
    constructor
    · intro h s' hs
      obtain ⟨hiff, hbook⟩ := hb.step hs
      obtain ⟨hexclusive, hrest⟩ := h s' hs
      have hmeets := hiff.1 hexclusive
      exact ⟨hmeets, (ih (hbook hmeets)).1 hrest⟩
    · intro h s' hs
      obtain ⟨hiff, hbook⟩ := hb.step hs
      obtain ⟨hmeets, hrest⟩ := h s' hs
      exact ⟨hiff.2 hmeets, (ih (hbook hmeets)).2 hrest⟩

theorem bookkept_initial (session : Storage) (model : ModelRef)
    (steeringMode followUpMode : QueueMode) :
    Bookkept (.initial session model steeringMode followUpMode) where
  single := Nat.zero_le _
  controller := fun run h => by cases h
  runs := fun run stage h => by cases h
  old := fun run h => by rcases h with h | h <;> cases h
  waits := fun promise runs h => by cases h

/-- **In every sequence of calls and steps on a new harness, all steps are exclusive exactly when
all meet the condition.** -/
theorem alwaysExclusive_iff (session : Storage) (model : ModelRef)
    (steeringMode followUpMode : QueueMode) (actions : List Action) :
    AlwaysExclusive (.initial session model steeringMode followUpMode) actions ↔
      AlwaysMeets (.initial session model steeringMode followUpMode) actions :=
  alwaysExclusive_of_bookkept (bookkept_initial session model steeringMode followUpMode) actions

theorem AlwaysExclusive.single {actions : List Action} (h : AlwaysExclusive s actions)
    (hs : s.operations.length ≤ 1) (hafter : s.after actions = some s') :
    s'.operations.length ≤ 1 := by
  induction actions generalizing s with
  | nil =>
    obtain rfl := some.inj hafter
    exact hs
  | cons action actions ih =>
    obtain ⟨s'', hstep, hrest⟩ := bind_eq_some_iff.1 hafter
    obtain ⟨hexclusive, hlater⟩ := h s'' hstep
    exact ih hlater hexclusive.single hrest

/-- A step of the only call. -/
def runStep (input : RunInput) : Action := .step 0 (.run input) ⟨"", 0⟩

/-- The listeners of an event are done. -/
def listened : Action := runStep (.handling .resume)

/-- A message is appended, and its listeners are done. -/
def recorded (id : String) : List Action :=
  [.named id, .read "t", .written].map (fun input => runStep (.handling (.append input))) ++
    [listened]

/-- A turn state. -/
def someTurn : TurnState := ⟨[], [], ⟨"p", "m"⟩⟩

/-- A response. -/
def someResponse : AssistantMessage :=
  ⟨some [.text "ok"], "p", "m", .zero, .stop, none, 0⟩

/-- A prompt up to `agent_end`, whose listeners are not done yet. -/
def promptToEnd : List Action :=
  [.prompt, runStep (.created someTurn (.user ⟨some (.str "hi"), 0⟩)), runStep (.resume [])] ++
    [listened, listened, listened] ++ recorded "a" ++
    [runStep .poll, runStep (.loop (.streamEnd someResponse)), listened] ++ recorded "b" ++
    [listened, listened, runStep .prepare,
      runStep (.created someTurn (.user ⟨some (.str ""), 0⟩)),
      runStep (.loop (.stopAfterTurn false)), runStep .poll, runStep .poll]

/-- A second prompt is accepted while the listeners of `agent_end` are awaited, and a run is not
aborted while its turn state is created. -/
theorem phases_overlap :
    (∃ session model mode actions, ¬AlwaysExclusive (.initial session model mode mode) actions ∧
      actions = promptToEnd ++ [.prompt]) ∧
    ∃ session model mode, ¬AlwaysExclusive (.initial session model mode mode) [.prompt, .abort] := by
  refine ⟨⟨.ofEntries [], ⟨"p", "m"⟩, .all, _, fun h => ?_, rfl⟩,
    ⟨.ofEntries [], ⟨"p", "m"⟩, .all, fun h => ?_⟩⟩
  · have hend : ((System.initial (.ofEntries []) ⟨"p", "m"⟩ .all .all).after
        (promptToEnd ++ [.prompt])).map (fun s => s.operations.length) = some 2 := by
      decide
    obtain ⟨s, hs, hlength⟩ := Option.map_eq_some_iff.1 hend
    have hsingle := h.single (Nat.zero_le _) hs
    omega
  · obtain ⟨-, hlater⟩ := h _ rfl
    obtain ⟨hexclusive, -⟩ := hlater _ rfl
    have haborted := hexclusive.aborts rfl 0 (by decide)
    exact absurd haborted (by decide)

end BeauPi.Harness
