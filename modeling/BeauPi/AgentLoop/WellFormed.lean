import BeauPi.AgentLoop.TranscriptSteps

/-!
# The transcript of every run

* `Run.sound` — every run keeps the invariant while no listener rejects.
* `WellFormed` — what holds of a call of the loop that has returned or thrown.
* `run_wellFormed` — it holds for every schedule of the tools, the hooks and the aborts.
-/

namespace BeauPi.AgentLoop

open Llm Sessions List

/-! ## Calls of the loop -/

variable {context prompts : List AgentMessage} {start : Loop}

/-- How a call starts. -/
theorem Started.spec (h : Started context prompts start) :
    start.messages = context ++ prompts ∧ start.newMessages = prompts ∧ start.tasks = [] ∧
      start.pc = .start prompts := by
  cases h with
  | prompt prompts tools sequential => exact ⟨rfl, rfl, rfl, rfl⟩
  | resume hresume =>
    unfold runAgentLoopContinue at hresume
    split at hresume
    · cases hresume
    · split at hresume
      · cases hresume
      · cases hresume
        exact ⟨(append_nil _).symm, rfl, rfl, rfl⟩

theorem transcriptOf_injected (prompts : List AgentMessage) :
    transcriptOf (prompts.map .injected) = prompts := by
  induction prompts with
  | nil => rfl
  | cons m rest ih =>
    calc transcriptOf ((m :: rest).map .injected)
        = m :: transcriptOf (rest.map .injected) := rfl
      _ = m :: rest := by rw [ih]

/-- The prompts are in the transcript before they are announced. -/
theorem Started.sound (h : Started context prompts start) : Sound start [] [] start := by
  obtain ⟨hmessages, hnew, htasks, hpc⟩ := h.spec
  refine ⟨by simp [htasks], ?_, [], ?_, by rw [hpc]; rfl⟩
  · unfold Loop.BatchAt
    rw [hpc, htasks]
    rfl
  · rw [hpc, htasks, hmessages, hnew]
    exact {
      segments := by
        refine ⟨context, [], prompts.map .injected, .caller h, ?_, ?_, ?_⟩
        · rw [transcriptOf_injected, append_nil]
        · rw [nil_append, transcriptOf_injected]
          exact (append_nil _).symm
        · simp [filterMap_map, Segment.turn?, turnEnds, Function.comp_def]
      responses := rfl
      answered := by
        intro turn hturn
        cases hturn
      announced := (append_nil _).symm
      calls := List.Perm.refl _
      closing := by
        intro entry hentry
        cases hentry }

/-- Every run keeps the invariant while no listener rejects. -/
theorem Run.sound {l : Loop} {inputs : List Input} {log : Log}
    (hstart : Started context prompts start) (h : Run start inputs log l)
    (hinputs : ∀ input ∈ inputs, input.listenersAnswer = true) : Sound start inputs log l := by
  induction h with
  | nil => exact hstart.sound
  | @snoc inputs log l l' input events hrun hstep ih =>
    have hbefore := ih fun input hinput => hinputs input (mem_append_left _ hinput)
    exact hbefore.step hrun (hinputs input (mem_append_right _ (mem_singleton_self _))) _ _
      hstep

/-! ## Calls that have ended -/

/-- What holds of a call of the loop that has returned or thrown, with the end of the context that
was not answered. -/
structure WellFormed (start : Loop) (inputs : List Input) (log : Log) (l : Loop)
    (tail : List AgentMessage) : Prop where
  /-- The context is the caller's, or the latest that `prepareNextTurn` put in its place, followed
  by the messages since then: the injected ones, and each response directly followed by its
  results. -/
  context : ∃ base earlier since, ContextBase start inputs base earlier ∧
    l.messages = base ++ transcriptOf since ++ tail ∧
    l.newMessages = transcriptOf (earlier ++ since) ∧
    (earlier ++ since).filterMap Segment.turn? =
      (turnEnds log).map fun turn => (turn.1, turn.2.1)
  /-- Every response of the model is a turn. -/
  responses : responses inputs = (turnEnds log).map Prod.fst
  /-- Every turn is answered. -/
  answered : ∀ turn ∈ turnEnds log, Answered turn
  announced : messageEnds log = l.newMessages
  calls : (toolStarts log).Perm (toolEnds log)

/-- `agent_end` is emitted once, last, with the messages that are returned. -/
def EndsLast (log : Log) (newMessages : List AgentMessage) : Prop :=
  ∃ pre aborted, log = pre ++ [(.agentEnd newMessages, aborted)] ∧
    ∀ entry ∈ pre, entry.1.isAgentEnd = false

theorem PC.frame_tail_length (pc : PC) : pc.frame.tail.length ≤ 1 := by
  cases pc <;> first | exact Nat.zero_le 1 | exact le_rfl

/-- With no call open and nothing else under way the transcript is well formed. -/
theorem Core.wellFormed {l : Loop} {inputs : List Input} {log : Log} {tail : List AgentMessage}
    {closed : Bool} (h : Core start inputs log l.messages l.newMessages l.tasks
      { Frame.idle with tail := tail, closed := closed }) (hopen : openCalls l.tasks = []) :
    WellFormed start inputs log l tail where
  context := by
    obtain ⟨base, earlier, since, hbase, hmessages, hnew, hturns⟩ := h.segments
    exact ⟨base, earlier, since, hbase, hmessages, hnew.trans (append_nil _), hturns⟩
  responses := h.responses.trans (append_nil _)
  answered := h.answered
  announced := by simpa [Frame.idle] using h.announced
  calls := by simpa [Frame.idle, hopen] using h.calls

/-- At every moment of every run the context, the messages and the events agree up to what is under
way.  A run that returns has a well-formed transcript, and so has one in which a callback or the
stream throws, up to the partial message of a response and without an `agent_end`. -/
theorem run_wellFormed {context prompts : List AgentMessage} {start l : Loop} {inputs : List Input}
    {log : Log} (hstart : Started context prompts start) (h : Run start inputs log l)
    (hinputs : ∀ input ∈ inputs, input.listenersAnswer = true) :
    (∃ tail, tail.length ≤ 1 ∧ Core start inputs log l.messages l.newMessages l.tasks
      { l.pc.frame with tail := tail }) ∧
    (l.pc = .returned → WellFormed start inputs log l [] ∧ EndsLast log l.newMessages) ∧
    (l.pc = .rejected → (∃ tail, UnderWay tail ∧ WellFormed start inputs log l tail) ∧
      ∀ entry ∈ log, entry.1.isAgentEnd = false) := by
  have hsound := h.sound hstart hinputs
  refine ⟨?_, ?_, ?_⟩
  · obtain ⟨tail, hcore, htail⟩ := hsound.core
    refine ⟨tail, ?_, hcore⟩
    cases hpc : l.pc <;> rw [hpc] at htail <;>
      first | exact htail ▸ PC.frame_tail_length _ | skip
    obtain ⟨response, rfl⟩ := htail
    cases response <;> simp
  · intro hpc
    have hcore := hsound.at hpc rfl
    exact ⟨Core.wellFormed hcore (hsound.openCalls_of_closed (by rw [hpc]; rfl)), hcore.closing⟩
  · intro hpc
    obtain ⟨tail, hcore, htail⟩ := hsound.core
    have hopen := hsound.batch
    rw [hpc] at hcore htail
    rw [Loop.BatchAt, hpc] at hopen
    exact ⟨⟨tail, htail, Core.wellFormed hcore hopen⟩, hcore.closing⟩

/-! ## Runs of given inputs -/

/-- The state and the log after some inputs. -/
def Loop.exec (l : Loop) (log : Log) : List Input → Option (Loop × Log)
  | [] => some (l, log)
  | input :: inputs =>
    match l.step input with
    | some (l', events) => l'.exec (log ++ entries events l'.aborted) inputs
    | none => none

theorem Run.exec {l l' : Loop} {done inputs : List Input} {log log' : Log}
    (h : Run start done log l) (hexec : l.exec log inputs = some (l', log')) :
    Run start (done ++ inputs) log' l' := by
  induction inputs generalizing l log done with
  | nil =>
    cases hexec
    rw [append_nil]
    exact h
  | cons input inputs ih =>
    rw [Loop.exec] at hexec
    split at hexec
    · next l₁ events hstep =>
      rw [append_cons]
      exact ih (h.snoc hstep) hexec
    · cases hexec

/-- A response with some tool calls. -/
def requesting (calls : List ToolCall) : AssistantMessage where
  content := some (calls.map .toolCall)
  provider := ""
  model := ""
  usage := .zero
  stopReason := if calls = [] then .stop else .toolUse
  errorMessage := none
  timestamp := 0

/-- The listeners of some events in a row are done. -/
def resumes (n : Nat) : List Input := List.replicate n (.resume 0)

/-- A result without content. -/
def bareResult : ToolResult := ⟨none, none, none, none, none, none, none⟩

/-- A prompt, two calls of one tool that finish in reverse order, a context without messages, and a
response without calls. -/
def twoCalls : List Input :=
  resumes 5 ++ [.steering [], .streamEnd (requesting [⟨"a", "t", []⟩, ⟨"b", "t", []⟩])] ++
    resumes 2 ++ [.prepared (.ok ()) none, .prepared (.ok ()) none,
      .task 1 (.returned (.ok bareResult)), .task 1 (.updatesSettled 0), .task 1 (.after none),
      .task 1 .endDelivered, .task 0 (.update bareResult), .task 0 (.updateDelivered 0),
      .task 0 (.returned (.error (.other "x"))), .task 0 (.updatesSettled 0),
      .task 0 (.after none), .task 0 .endDelivered, .joined 0] ++ resumes 4 ++
    [.nextTurn (some ([], [])), .stopAfterTurn false, .steering [], .resume 0,
      .streamEnd (requesting [])] ++ resumes 2 ++
    [.nextTurn none, .stopAfterTurn false, .steering [], .followUps [], .resume 0]

/-- The call of the loop with one prompt and one tool. -/
def promptedOnce : Loop :=
  runAgentLoop [.user ⟨none, 0⟩] [] [⟨"t", false⟩] false

/-- Has the loop returned? -/
def PC.isReturned : PC → Bool
  | .returned => true
  | _ => false

theorem PC.eq_returned {pc : PC} (h : pc.isReturned = true) : pc = .returned := by
  cases pc <;> first | rfl | cases h

theorem PC.eq_rejected {pc : PC} (h : pc.isRejected = true) : pc = .rejected := by
  cases pc <;> first | rfl | cases h

/-- A run with two calls that finish in reverse order, whose context is replaced. -/
theorem run_wellFormed_twoCalls :
    ∃ log l, Run promptedOnce twoCalls log l ∧ l.pc = .returned ∧ l.newMessages.length = 5 ∧
      l.messages.length = 1 ∧ WellFormed promptedOnce twoCalls log l [] ∧
      EndsLast log l.newMessages := by
  have hended : (promptedOnce.exec [] twoCalls).map (fun r =>
      (r.1.pc.isReturned, r.1.newMessages.length, r.1.messages.length)) = some (true, 5, 1) := by
    decide
  obtain ⟨⟨l, log⟩, hrun, hlast⟩ := Option.map_eq_some_iff.1 hended
  obtain ⟨hpc, hlengths⟩ := Prod.mk.inj hlast
  obtain ⟨hnew, hmessages⟩ := Prod.mk.inj hlengths
  have hreached : Run promptedOnce twoCalls log l := Run.nil.exec hrun
  exact ⟨log, l, hreached, PC.eq_returned hpc, hnew, hmessages,
    (run_wellFormed (.prompt _ _ _) hreached (by decide)).2.1 (PC.eq_returned hpc)⟩

/-! ## A context that is replaced, and a hook that throws -/

/-- After a response with a call of a tool that does not exist, `prepareNextTurn` returns a context
without the result of that call. -/
def forgottenResult : List Input :=
  resumes 3 ++ [.steering [], .streamEnd (requesting [⟨"a", "t", []⟩])] ++ resumes 2 ++
    [.prepared (.ok ()) none, .resume 0, .joined 0] ++ resumes 2 ++
    [.nextTurn (some ([.assistant (requesting [⟨"a", "t", []⟩])], [])), .stopAfterTurn true,
      .resume 0]

/-- After a response `prepareNextTurn` throws. -/
def thrownAfterTurn : List Input :=
  resumes 3 ++ [.steering [], .streamEnd (requesting [])] ++ resumes 2 ++ [.callbackThrows]

/-- A response of a run that was not aborted need not be followed by its results in the context, and
a run whose `prepareNextTurn` throws emits no `agent_end`. -/
theorem replaced_context_unanswered :
    (¬ ∀ (start l : Loop) (inputs : List Input) (log : Log), Started [] [] start →
      Run start inputs log l → (∀ input ∈ inputs, input.listenersAnswer = true) →
      l.pc = .returned → l.aborted = false →
      ∀ pre m post, l.messages = pre ++ AgentMessage.assistant m :: post →
        ¬(m.stopReason = .error ∨ m.stopReason = .aborted) →
        ∃ (results : List ToolResultMessage) (rest : List AgentMessage),
          post = results.map AgentMessage.toolResult ++ rest ∧
            results.map ToolResultMessage.key = m.toolCalls.map ToolCall.key) ∧
    ¬ ∀ (start l : Loop) (inputs : List Input) (log : Log), Started [] [] start →
      Run start inputs log l → (∀ input ∈ inputs, input.listenersAnswer = true) →
      l.pc = .returned ∨ l.pc = .rejected → EndsLast log l.newMessages := by
  constructor
  · intro h
    have hended : ((runAgentLoop [] [] [] false).exec [] forgottenResult).map
        (fun r => (r.1.pc.isReturned, r.1.aborted, r.1.messages)) =
        some (true, false, [.assistant (requesting [⟨"a", "t", []⟩])]) := by
      decide
    obtain ⟨⟨l, log⟩, hrun, hlast⟩ := Option.map_eq_some_iff.1 hended
    obtain ⟨hpc, hsignal⟩ := Prod.mk.inj hlast
    obtain ⟨haborted, hmessages⟩ := Prod.mk.inj hsignal
    obtain ⟨results, rest, hpost, hkeys⟩ :=
      h _ l _ log (.prompt [] [] false) (Run.nil.exec hrun) (by decide) (PC.eq_returned hpc)
        haborted [] _ [] hmessages (by decide)
    have hnone : results = [] := map_eq_nil_iff.1 (append_eq_nil_iff.1 hpost.symm).1
    rw [hnone] at hkeys
    exact absurd hkeys (by decide)
  · intro h
    have hended : ((runAgentLoop [] [] [] false).exec [] thrownAfterTurn).map
        (fun r => (r.1.pc.isRejected, r.2.any fun entry => entry.1.isAgentEnd)) =
        some (true, false) := by
      decide
    obtain ⟨⟨l, log⟩, hrun, hlast⟩ := Option.map_eq_some_iff.1 hended
    obtain ⟨hpc, hnone⟩ := Prod.mk.inj hlast
    obtain ⟨pre, aborted, hlog, -⟩ := h _ l _ log (.prompt [] [] false) (Run.nil.exec hrun)
      (by decide) (Or.inr (PC.eq_rejected hpc))
    rw [hlog, any_append] at hnone
    simp [AgentEvent.isAgentEnd] at hnone

end BeauPi.AgentLoop
