import BeauPi.AgentLoop.Transcript
import BeauPi.Machine.Fallible

/-!
# Steps of the agent loop keep the transcript sound

* `Core` lemmas — one for each way in which messages, calls and events change together.
* `Keeps` — the state after a step is sound; one lemma for each helper of `Loop.step`.
* `Sound.step` — every step keeps the invariant, unless a listener rejects.
-/

namespace BeauPi.AgentLoop

open Llm Sessions List Loop
open AgentLoop.Frame (idle)
open ToolResultMessage (key)

/-! ## How the parts of the invariant change -/

variable {start : Loop} {inputs : List Input} {log : Log} {messages newMessages : List AgentMessage}
  {tasks : List Task} {f : Frame} {aborted : Bool}

/-- An event that says nothing about messages, calls or turns. -/
def AgentEvent.isQuiet : AgentEvent → Bool
  | .agentStart | .turnStart | .messageStart _ | .messageUpdate _ | .toolExecutionUpdate .. => true
  | _ => false

section Quiet

variable {e : AgentEvent} (he : e.isQuiet = true) (aborted : Bool)

include he

theorem messageEnds_quiet : messageEnds [(e, aborted)] = [] := by
  cases e <;> first | rfl | cases he

theorem toolStarts_quiet : toolStarts [(e, aborted)] = [] := by
  cases e <;> first | rfl | cases he

theorem toolEnds_quiet : toolEnds [(e, aborted)] = [] := by
  cases e <;> first | rfl | cases he

theorem turnEnds_quiet : turnEnds [(e, aborted)] = [] := by
  cases e <;> first | rfl | cases he

theorem isAgentEnd_quiet : e.isAgentEnd = false := by
  cases e <;> first | rfl | cases he

end Quiet

variable {e : AgentEvent}

theorem not_agentEnd_concat (h : ∀ entry ∈ log, entry.1.isAgentEnd = false)
    (he : e.isAgentEnd = false) :
    ∀ entry ∈ log ++ [(e, aborted)], entry.1.isAgentEnd = false := by
  intro entry hentry
  rcases mem_append.1 hentry with hold | hnew
  · exact h entry hold
  · rw [mem_singleton.1 hnew]
    exact he

variable (h : Core start inputs log messages newMessages tasks f)

include h in
/-- An event that ends neither a turn nor the run. -/
theorem Core.emit {f' : Frame}
    (hturn : turnEnds [(e, aborted)] = []) (hend : e.isAgentEnd = false) (hopen : f.closed = false)
    (hsame : f' = { f with upcoming := f'.upcoming, lag := f'.lag, current := f'.current })
    (hannounced : messageEnds log ++ messageEnds [(e, aborted)] ++ f'.upcoming = newMessages ++ f'.lag)
    (hcalls : (toolStarts log ++ toolStarts [(e, aborted)]).Perm (toolEnds log ++ toolEnds [(e,
      aborted)] ++ f'.current ++ openCalls tasks)) :
    Core start inputs (log ++ [(e, aborted)]) messages newMessages tasks f' where
  segments := by
    rw [turnEnds_append, hturn, append_nil, hsame]
    exact h.segments
  responses := by
    rw [turnEnds_append, hturn, append_nil, hsame]
    exact h.responses
  answered := by
    rw [turnEnds_append, hturn, append_nil]
    exact h.answered
  announced := by
    rw [messageEnds_append]
    exact hannounced
  calls := by
    rw [toolStarts_append, toolEnds_append]
    exact hcalls
  closing := by
    have hclosing := h.closing
    have hopen' : f'.closed = false := by rw [hsame]; exact hopen
    rw [hopen, if_neg Bool.false_ne_true] at hclosing
    rw [hopen', if_neg Bool.false_ne_true]
    exact not_agentEnd_concat hclosing hend

include h in
/-- A quiet event changes nothing. -/
theorem Core.quiet
    (hopen : f.closed = false) (he : e.isQuiet = true) :
    Core start inputs (log ++ [(e, aborted)]) messages newMessages tasks f := by
  refine h.emit (turnEnds_quiet he aborted) (isAgentEnd_quiet he) hopen rfl ?_ ?_
  · rw [messageEnds_quiet he, append_nil]
    exact h.announced
  · rw [toolStarts_quiet he, toolEnds_quiet he, append_nil, append_nil]
    exact h.calls

variable {m : AgentMessage}

include h in
/-- A prompt is announced. -/
theorem Core.prompt
    (hopen : f.closed = false) {rest : List AgentMessage} (hup : f.upcoming = m :: rest) :
    Core start inputs (log ++ [(.messageEnd m, aborted)])
      messages newMessages tasks { f with upcoming := rest } := by
  refine h.emit rfl rfl hopen rfl ?_ ?_
  · have := h.announced
    rw [hup] at this
    simpa [messageEnds] using this
  · simpa [toolStarts, toolEnds] using h.calls

include h in
/-- A message is announced before it is in `newMessages`. -/
theorem Core.announce
    (hopen : f.closed = false) (hup : f.upcoming = []) (m : AgentMessage) :
    Core start inputs (log ++ [(.messageEnd m, aborted)]) messages newMessages tasks
      { f with lag := f.lag ++ [m] } := by
  refine h.emit rfl rfl hopen rfl ?_ ?_
  · have := h.announced
    rw [hup, append_nil] at this
    simp [messageEnds, hup] at this ⊢
    rw [← append_assoc, ← this]
  · simpa [toolStarts, toolEnds] using h.calls

include h in
/-- A call starts. -/
theorem Core.toolStart
    (hopen : f.closed = false) (hcurrent : f.current = []) (call : ToolCall) :
    Core start inputs (log ++ [(.toolExecutionStart call, aborted)]) messages newMessages tasks
      { f with current := [call] } := by
  refine h.emit rfl rfl hopen rfl ?_ ?_
  · simpa [messageEnds] using h.announced
  · have hcalls := h.calls
    rw [hcurrent, append_nil] at hcalls
    change (toolStarts log ++ [call]).Perm (toolEnds log ++ [] ++ [call] ++ openCalls tasks)
    calc (toolStarts log ++ [call]).Perm (toolEnds log ++ openCalls tasks ++ [call]) :=
          hcalls.append_right _
      _ = toolEnds log ++ (openCalls tasks ++ [call]) := append_assoc ..
      _ |>.Perm (toolEnds log ++ ([call] ++ openCalls tasks)) :=
          perm_append_comm.append_left _
      _ = toolEnds log ++ [] ++ [call] ++ openCalls tasks := by simp

include h in
/-- The call that is being prepared ends. -/
theorem Core.toolEnd
    (finalized : Finalized) (hopen : f.closed = false) (hcurrent : f.current = [finalized.toolCall]) :
    Core start inputs (log ++ [(.toolExecutionEnd finalized, aborted)]) messages newMessages tasks
      { f with current := [] } := by
  refine h.emit rfl rfl hopen rfl ?_ ?_
  · simpa [messageEnds] using h.announced
  · have hcalls := h.calls
    rw [hcurrent] at hcalls
    simpa [toolStarts, toolEnds] using hcalls

include h in
/-- The tasks change, and the calls under way stay the same. -/
theorem Core.retask (tasks' : List Task)
    (current : List ToolCall)
    (hopen : (f.current ++ openCalls tasks).Perm (current ++ openCalls tasks')) :
    Core start inputs log messages newMessages tasks' { f with current := current } where
  segments := h.segments
  responses := h.responses
  answered := h.answered
  announced := h.announced
  calls := by
    have := h.calls
    rw [append_assoc] at this ⊢
    exact this.trans (hopen.append_left _)
  closing := h.closing

variable {finalized : Finalized}

include h in
/-- A task ends. -/
theorem Core.taskEnd
    (hopen : f.closed = false) {tasks' : List Task}
    (hended : (openCalls tasks).Perm (finalized.toolCall :: openCalls tasks')) :
    Core start inputs (log ++ [(.toolExecutionEnd finalized, aborted)]) messages newMessages tasks'
      f := by
  have hcalls := h.calls
  have hemit : Core start inputs log messages newMessages tasks'
      { f with current := finalized.toolCall :: f.current } := by
    refine h.retask _ _ ((hended.append_left _).trans ?_)
    exact perm_middle
  refine hemit.emit rfl rfl hopen rfl ?_ ?_
  · simpa [messageEnds] using h.announced
  · have hbefore := hemit.calls
    simpa [toolStarts, toolEnds] using hbefore

/-- A turn ends, and its results go to the context. -/
theorem Core.endTurn {m : AssistantMessage} (results : List ToolResultMessage)
    (h : Core start inputs log messages newMessages tasks
      { idle with tail := [.assistant m], openNew := [.assistant m], awaiting := [m],
                        lag := results.map .toolResult })
    (hanswered : Answered (m, results, aborted)) :
    Core start inputs (log ++ [(.turnEnd m results, aborted)])
      (messages ++ results.map .toolResult) (newMessages ++ results.map .toolResult) tasks
      idle where
  segments := by
    obtain ⟨base, earlier, since, hbase, hmessages, hnew, hturns⟩ := h.segments
    refine ⟨base, earlier, since ++ [.turn m results], hbase, ?_, ?_, ?_⟩
    · simp [hmessages, transcriptOf, Segment.messages, idle]
    · simp [hnew, transcriptOf, Segment.messages, idle]
    · rw [← append_assoc, filterMap_append, hturns]
      simp [turnEnds, Segment.turn?]
  responses := by
    have := h.responses
    simpa [turnEnds, idle] using this
  answered := by
    intro turn hturn
    rw [turnEnds_append, mem_append] at hturn
    rcases hturn with hold | hlast
    · exact h.answered turn hold
    · obtain rfl : turn = (m, results, aborted) := by simpa [turnEnds] using hlast
      exact hanswered
  announced := by
    have := h.announced
    simpa [messageEnds, idle] using this
  calls := by
    have := h.calls
    simpa [toolStarts, toolEnds, idle] using this
  closing := not_agentEnd_concat h.closing rfl

/-- `agent_end` is emitted. -/
theorem Core.endRun (h : Core start inputs log messages newMessages tasks idle) :
    Core start inputs (log ++ [(.agentEnd newMessages, aborted)]) messages newMessages tasks
      { idle with closed := true } where
  segments := by
    have := h.segments
    simpa [turnEnds] using this
  responses := by
    have := h.responses
    simpa [turnEnds] using this
  answered := by
    have := h.answered
    simpa [turnEnds] using this
  announced := by
    have := h.announced
    simpa [messageEnds] using this
  calls := by
    have := h.calls
    simpa [toolStarts, toolEnds] using this
  closing := ⟨log, aborted, rfl, h.closing⟩

/-- A message that was announced goes to the context. -/
theorem Core.inject
    (h : Core start inputs log messages newMessages tasks { idle with lag := [m] }) :
    Core start inputs log (messages ++ [m]) (newMessages ++ [m]) tasks idle where
  segments := by
    obtain ⟨base, earlier, since, hbase, hmessages, hnew, hturns⟩ := h.segments
    refine ⟨base, earlier, since ++ [.injected m], hbase, ?_, ?_, ?_⟩
    · simp [hmessages, transcriptOf, Segment.messages, idle]
    · simp [hnew, transcriptOf, Segment.messages, idle]
    · rw [← append_assoc, filterMap_append, hturns]
      simp [Segment.turn?]
  responses := h.responses
  answered := h.answered
  announced := by
    have := h.announced
    simpa [idle] using this
  calls := h.calls
  closing := h.closing

/-- The response goes to `newMessages`. -/
theorem Core.receive {final : AssistantMessage}
    (h : Core start inputs log messages newMessages tasks (PC.received final).frame) :
    Core start inputs log messages (newMessages ++ [.assistant final]) tasks
      { idle with tail := [.assistant final], openNew := [.assistant final],
                        awaiting := [final] } where
  segments := by
    obtain ⟨base, earlier, since, hbase, hmessages, hnew, hturns⟩ := h.segments
    refine ⟨base, earlier, since, hbase, hmessages, ?_, hturns⟩
    simp [hnew, PC.frame, idle]
  responses := h.responses
  answered := h.answered
  announced := by
    have := h.announced
    simpa [PC.frame, idle] using this
  calls := h.calls
  closing := h.closing

include h in
/-- The end of the context that is no segment yet is replaced. -/
theorem Core.replaceTail
    (pre tail : List AgentMessage) (hmessages : messages = pre ++ f.tail) :
    Core start inputs log (pre ++ tail) newMessages tasks { f with tail := tail } where
  segments := by
    obtain ⟨base, earlier, since, hbase, hsame, hnew, hturns⟩ := h.segments
    have hpre : pre = base ++ transcriptOf since :=
      append_cancel_right (hmessages.symm.trans hsame)
    exact ⟨base, earlier, since, hbase, by rw [hpre], hnew, hturns⟩
  responses := h.responses
  answered := h.answered
  announced := h.announced
  calls := h.calls
  closing := h.closing

include h in
/-- Other inputs than the end of a response bring no response. -/
theorem Core.input {input : Input}
    (hinput : AgentLoop.responses [input] = []) (hsame : input.replacesContext = false) :
    Core start (inputs ++ [input]) log messages newMessages tasks f where
  segments := by
    obtain ⟨base, earlier, since, hbase, hrest⟩ := h.segments
    exact ⟨base, earlier, since, hbase.same hsame, hrest⟩
  responses := by
    rw [responses_append, hinput, append_nil]
    exact h.responses
  answered := h.answered
  announced := h.announced
  calls := h.calls
  closing := h.closing

include h in
/-- A response has ended. -/
theorem Core.respond
    (hawaiting : f.awaiting = []) (final : AssistantMessage) :
    Core start (inputs ++ [.streamEnd final]) log messages newMessages tasks
      { f with awaiting := [final] } where
  segments := by
    obtain ⟨base, earlier, since, hbase, hrest⟩ := h.segments
    exact ⟨base, earlier, since, hbase.same rfl, hrest⟩
  responses := by
    rw [responses_append, h.responses, hawaiting, append_nil]
    rfl
  answered := h.answered
  announced := h.announced
  calls := h.calls
  closing := h.closing

/-- `prepareNextTurn` replaces the context. -/
theorem Core.replaceContext {l : Loop} {context : List AgentMessage} {tools : List Tool}
    (h : Core start inputs log messages l.newMessages tasks idle)
    (hrun : Run start inputs log l) :
    Core start (inputs ++ [.nextTurn (some (context, tools))]) log context l.newMessages tasks
      idle where
  segments := by
    obtain ⟨-, earlier, since, -, -, hnew, hturns⟩ := h.segments
    rw [← append_nil (earlier ++ since)] at hnew hturns
    have hbase : l.newMessages = transcriptOf (earlier ++ since) := by simpa [idle] using hnew
    refine ⟨context, earlier ++ since, [], .replaced hrun hbase, ?_, hnew, hturns⟩
    simp [transcriptOf, idle]
  responses := by
    rw [responses_append]
    exact (append_nil _).trans h.responses
  answered := h.answered
  announced := h.announced
  calls := h.calls
  closing := h.closing

/-! ## The helpers of a step keep the invariant -/

/-- The state after a step is sound, if there is one. -/
def Keeps (start : Loop) (inputs : List Input) (log : Log) (stepped : Stepped) : Prop :=
  ∀ l events, stepped = some (l, events) →
    Sound start inputs (log ++ entries events l.aborted) l

section Keeps

variable {l : Loop} {b : Batch}

theorem keeps_none : Keeps start inputs log none := by
  intro l events h
  cases h

theorem keeps_goto {pc : PC} (htasks : ∀ t ∈ l.tasks, t.Ok)
    (hbatch : Loop.BatchAt { l with pc := pc })
    (h : Core start inputs log l.messages l.newMessages l.tasks pc.frame) :
    Keeps start inputs log (l.goto pc) := by
  intro l' events heq
  cases heq
  rw [entries_nil, append_nil]
  refine ⟨htasks, hbatch, pc.frame.tail, h, ?_⟩
  cases pc <;> first | rfl | exact ⟨none, rfl⟩

theorem keeps_emit {pc : PC} (htasks : ∀ t ∈ l.tasks, t.Ok)
    (hbatch : Loop.BatchAt { l with pc := pc })
    (h : Core start inputs (log ++ [(e, l.aborted)]) l.messages l.newMessages l.tasks pc.frame) :
    Keeps start inputs log (l.emit e pc) := by
  intro l' events heq
  cases heq
  refine ⟨htasks, hbatch, pc.frame.tail, h, ?_⟩
  cases pc <;> first | rfl | exact ⟨none, rfl⟩

theorem keeps_nextPrompt {prompts : List AgentMessage} (htasks : ∀ t ∈ l.tasks, t.Ok)
    (hopen : openCalls l.tasks = [])
    (h : Core start inputs log l.messages l.newMessages l.tasks
      { idle with upcoming := prompts }) :
    Keeps start inputs log (l.nextPrompt prompts) := by
  cases prompts with
  | nil => exact keeps_goto htasks hopen h
  | cons m rest => exact keeps_emit htasks hopen (h.quiet rfl rfl)

theorem keeps_inject {pending : List AgentMessage} (htasks : ∀ t ∈ l.tasks, t.Ok)
    (hopen : openCalls l.tasks = [])
    (h : Core start inputs log l.messages l.newMessages l.tasks idle) :
    Keeps start inputs log (l.inject pending) := by
  cases pending with
  | nil => exact keeps_goto htasks hopen h
  | cons m rest => exact keeps_emit htasks hopen (h.quiet rfl rfl)

theorem keeps_nextTurn {hasMoreToolCalls : Bool} {pending : List AgentMessage}
    (htasks : ∀ t ∈ l.tasks, t.Ok) (hopen : openCalls l.tasks = [])
    (h : Core start inputs log l.messages l.newMessages l.tasks idle) :
    Keeps start inputs log (l.nextTurn hasMoreToolCalls pending) := by
  unfold nextTurn
  split
  · exact keeps_emit htasks hopen (h.quiet rfl rfl)
  · exact keeps_goto htasks hopen h

/-- A turn ends when its results answer its calls. -/
theorem keeps_endTurn {m : AssistantMessage} {results : List ToolResultMessage}
    {hasMoreToolCalls : Bool} (htasks : ∀ t ∈ l.tasks, t.Ok) (hopen : openCalls l.tasks = [])
    (hanswered : Answered (m, results, l.aborted))
    (h : Core start inputs log l.messages l.newMessages l.tasks
      { idle with tail := [.assistant m], openNew := [.assistant m], awaiting := [m],
                        lag := results.map .toolResult }) :
    Keeps start inputs log (l.endTurn m results hasMoreToolCalls) :=
  keeps_emit htasks hopen (Core.endTurn results h hanswered)

theorem keeps_announce {others : List Finalized} {now : ℚ} (htasks : ∀ t ∈ l.tasks, t.Ok)
    (hbatch : Loop.BatchAt
      { l with pc := .announced b (createToolResultMessage finalized now) finalized others })
    (h : Core start inputs log l.messages l.newMessages l.tasks (b.frame b.results [])) :
    Keeps start inputs log (l.announce b finalized others now) :=
  keeps_emit htasks hbatch (h.quiet rfl rfl)

theorem createToolResultMessage_key (finalized : Finalized) (now : ℚ) :
    key (createToolResultMessage finalized now) =
      ToolCall.key finalized.toolCall := rfl

/-- The results of a batch that have been recorded answer its message. -/
theorem Batch.Answers.answered {aborted : Bool}
    (h : b.Answers (b.results.map key) []) (hcut : b.rest ≠ [] → aborted = true) :
    Answered (b.message, b.results, aborted) := by
  unfold Answered
  simp only
  rw [if_neg h.ok]
  refine ⟨b.rest.map ToolCall.key, ?_, fun hne => hcut fun hnil => hne (by rw [hnil]; rfl)⟩
  have hkeys := h.keys
  simpa using hkeys

@[simp] theorem Task.launch_hasEnded (t : Task) : t.launch.hasEnded = t.hasEnded := by
  obtain ⟨call, phase, updates⟩ := t
  cases phase <;> rfl

@[simp] theorem Task.launch_toolCall (t : Task) : t.launch.toolCall = t.toolCall := by
  obtain ⟨call, phase, updates⟩ := t
  cases phase <;> rfl

theorem openCalls_launch (tasks : List Task) :
    openCalls (tasks.map Task.launch) = openCalls tasks := by
  unfold openCalls
  induction tasks with
  | nil => rfl
  | cons t tasks ih =>
    rw [map_cons, filter_cons, filter_cons, Task.launch_hasEnded]
    split
    · rw [map_cons, map_cons, Task.launch_toolCall, ih]
    · exact ih

theorem Task.Ok.launch {t : Task} (h : t.Ok) : t.launch.Ok := by
  unfold Task.launch
  split
  · exact ⟨by simp, rfl, h.updates⟩
  · exact h

/-- The loop over the calls ends. -/
theorem keeps_endCalls (htasks : ∀ t ∈ l.tasks, t.Ok) (hanswers : b.Answers (l.dealt b) [])
    (hclean : l.Clean b) (hcut : b.rest ≠ [] → l.aborted = true)
    (h : Core start inputs log l.messages l.newMessages l.tasks (b.frame b.results [])) :
    Keeps start inputs log (l.endCalls b) := by
  unfold endCalls
  cases hmode : b.mode with
  | truncated | sequential =>
    simp only [dealt, Loop.Clean, hmode] at hanswers hclean
    exact keeps_endTurn htasks (by rw [hclean]; rfl) (hanswers.answered hcut) h
  | parallel =>
    simp only [dealt, Loop.Clean, hmode] at hanswers hclean
    refine keeps_goto ?_ ⟨hmode, ?_, hclean, hcut⟩ ?_
    · intro t ht
      obtain ⟨t, hmem, rfl⟩ := mem_map.1 ht
      exact (htasks t hmem).launch
    · simpa [dealt, hmode, Function.comp_def] using hanswers
    · refine h.retask _ [] ?_
      rw [openCalls_launch]
      exact List.Perm.refl _

/-- The loop over the calls goes on. -/
theorem keeps_nextCall (htasks : ∀ t ∈ l.tasks, t.Ok) (hanswers : b.Answers (l.dealt b) [])
    (hclean : l.Clean b)
    (h : Core start inputs log l.messages l.newMessages l.tasks (b.frame b.results [])) :
    Keeps start inputs log (l.nextCall b) := by
  unfold nextCall
  split
  · next hrest => exact keeps_endCalls htasks hanswers hclean (by simp [hrest]) h
  · next call rest hrest =>
    refine keeps_emit htasks ⟨⟨?_, hanswers.ok⟩, hclean⟩ (h.toolStart rfl rfl call)
    have hkeys := hanswers.keys
    rw [hrest] at hkeys
    simpa [dealt] using hkeys

theorem keeps_nextUnlessAborted (htasks : ∀ t ∈ l.tasks, t.Ok)
    (hanswers : b.Answers (l.dealt b) []) (hclean : l.Clean b)
    (h : Core start inputs log l.messages l.newMessages l.tasks (b.frame b.results [])) :
    Keeps start inputs log (l.nextUnlessAborted b) := by
  unfold nextUnlessAborted
  split
  · next haborted => exact keeps_endCalls htasks hanswers hclean (fun _ => haborted) h
  · exact keeps_nextCall htasks hanswers hclean h

/-- The results of a parallel batch are announced one after the other. -/
theorem keeps_nextResult {all others : List Finalized} {now : ℚ} (htasks : ∀ t ∈ l.tasks, t.Ok)
    (hmode : b.mode = .parallel) (hopen : openCalls l.tasks = [])
    (hanswers : b.Answers (b.results.map key ++
      others.map fun f => ToolCall.key f.toolCall) [])
    (hcut : b.rest ≠ [] → l.aborted = true)
    (h : Core start inputs log l.messages l.newMessages l.tasks (b.frame b.results [])) :
    Keeps start inputs log (l.nextResult b all others now) := by
  unfold nextResult
  split
  · exact keeps_endTurn htasks hopen
      (Batch.Answers.answered (by simpa using hanswers) hcut) h
  · next finalized others =>
    refine keeps_announce htasks ⟨?_, by simp [hmode], by simp [hmode], fun _ => hcut, hopen⟩ h
    rw [createToolResultMessage_key]
    simpa using hanswers

theorem Core.frame_nil {m : AssistantMessage} {mode : BatchMode} {calls : List ToolCall}
    (h : Core start inputs log messages newMessages tasks
      { idle with tail := [.assistant m], openNew := [.assistant m], awaiting := [m] }) :
    Core start inputs log messages newMessages tasks
      (Batch.frame ⟨m, mode, calls, [], []⟩ [] []) := h

/-- A response is answered. -/
theorem keeps_processed {final : AssistantMessage} (htasks : ∀ t ∈ l.tasks, t.Ok)
    (hopen : openCalls l.tasks = [])
    (h : Core start inputs log l.messages l.newMessages l.tasks (PC.received final).frame) :
    Keeps start inputs log (l.processed final) := by
  have hreceived := h.receive
  unfold processed
  dsimp only
  split
  · next hfailed =>
    refine keeps_emit htasks hopen ?_
    have hanswered : Answered (final, [], l.aborted) := by simp [Answered, hfailed]
    have hended := Core.endTurn [] hreceived hanswered
    rw [map_nil, append_nil, append_nil] at hended
    exact hended
  · next hok =>
    split
    · next hcalls =>
      refine keeps_endTurn htasks hopen ?_ hreceived
      unfold Answered
      simp only
      rw [if_neg hok]
      exact ⟨[], by simp [hcalls], by simp⟩
    · unfold answerCalls
      refine keeps_nextCall (by simp) ⟨?_, hok⟩ ?_ ?_
      · unfold dealt
        split <;> simp
      · unfold Loop.Clean
        split <;> rfl
      · refine (hreceived.retask [] [] ?_).frame_nil
        rw [hopen]
        exact List.Perm.refl _

end Keeps

/-! ## The steps of the loop -/

section Steps

variable {l : Loop} {b : Batch}

/-- A result that is recorded counts as dealt with. -/
theorem Batch.Answers.record {result : ToolResultMessage} {others : List (String × String)}
    (h : b.Answers (b.results.map key ++ (key result :: others)) []) :
    Batch.Answers { b with results := b.results ++ [result], finalized := b.finalized ++ [finalized] }
      ((b.results ++ [result]).map key ++ others) [] :=
  ⟨by simpa using h.keys, h.ok⟩

theorem openCalls_append (tasks tasks' : List Task) :
    openCalls (tasks ++ tasks') =
      openCalls tasks ++ openCalls tasks' := by
  simp [openCalls]

/-- A call of a parallel batch that was answered at once is dealt with. -/
theorem keeps_entry (htasks : ∀ t ∈ l.tasks, t.Ok) (hmode : b.mode = .parallel)
    (hanswers : b.Answers (l.dealt b) [finalized.toolCall]) (hclean : l.Clean b)
    (h : Core start inputs log l.messages l.newMessages l.tasks (b.frame b.results [])) :
    Keeps start inputs log
      (nextUnlessAborted
        { l with tasks := l.tasks ++ [⟨finalized.toolCall, .done finalized, []⟩] } b) := by
  refine keeps_nextUnlessAborted ?_ ⟨?_, hanswers.ok⟩ ?_ ?_
  · intro t ht
    rcases mem_append.1 ht with hold | hnew
    · exact htasks t hold
    · rw [mem_singleton.1 hnew]
      exact ⟨by simp, rfl, by simp⟩
  · have hkeys := hanswers.keys
    simpa [dealt, hmode] using hkeys
  · simpa [Loop.Clean, hmode] using hclean
  · refine h.retask _ [] ?_
    have hdone : openCalls [⟨finalized.toolCall, .done finalized, []⟩] = [] := rfl
    rw [openCalls_append, hdone, append_nil]
    exact List.Perm.refl _

/-- A call that was answered at once is announced by a batch that is not parallel. -/
theorem keeps_announce_own {now : ℚ} (htasks : ∀ t ∈ l.tasks, t.Ok)
    (hmode : b.mode = .parallel → False) (hanswers : b.Answers (l.dealt b) [finalized.toolCall])
    (hclean : l.Clean b)
    (h : Core start inputs log l.messages l.newMessages l.tasks (b.frame b.results [])) :
    Keeps start inputs log (l.announce b finalized [] now) := by
  have hnone : l.tasks = [] := by
    unfold Loop.Clean at hclean
    split at hclean
    · next hparallel => exact (hmode hparallel).elim
    · exact hclean
  refine keeps_announce htasks ⟨⟨?_, hanswers.ok⟩, fun _ => rfl, fun _ => hnone,
    fun hparallel => (hmode hparallel).elim, by rw [hnone]; rfl⟩ h
  have hkeys := hanswers.keys
  unfold dealt at hkeys
  split at hkeys
  · next hparallel => exact (hmode hparallel).elim
  · rw [createToolResultMessage_key]
    simpa using hkeys

/-- What is under way at a place other than `rejected`. -/
theorem Sound.at (h : Sound start inputs log l) {pc : PC} (hpc : l.pc = pc)
    (hlive : pc.isRejected = false) :
    Core start inputs log l.messages l.newMessages l.tasks pc.frame := by
  obtain ⟨tail, hcore, htail⟩ := h.core
  rw [hpc] at hcore htail
  cases pc <;> first | (subst htail; exact hcore) | cases hlive

/-- No call is open after `agent_end`. -/
theorem Sound.openCalls_of_closed (h : Sound start inputs log l)
    (hclosed : l.pc.frame.closed = true) : openCalls l.tasks = [] := by
  have hbatch := h.batch
  unfold Loop.BatchAt at hbatch
  cases hpc : l.pc <;> rw [hpc] at hbatch hclosed <;>
    first | exact hbatch | simp [PC.frame, Batch.frame] at hclosed

/-- The listeners of the last event are done. -/
theorem Sound.resume (h : Sound start inputs log l) (now : ℚ) :
    Keeps start (inputs ++ [.resume now]) log (l.resume now) := by
  have htasks := h.tasks
  have hbatch := h.batch
  have hcore : ∀ {pc}, l.pc = pc → pc.isRejected = false →
      Core start (inputs ++ [.resume now]) log l.messages l.newMessages l.tasks pc.frame :=
    fun hpc hlive => (h.at hpc hlive).input rfl rfl
  unfold Loop.BatchAt at hbatch
  unfold Loop.resume
  split
  case h_1 prompts hpc =>
    rw [hpc] at hbatch
    exact keeps_emit htasks hbatch ((hcore hpc rfl).quiet rfl rfl)
  case h_2 prompts hpc =>
    rw [hpc] at hbatch
    exact keeps_emit htasks hbatch ((hcore hpc rfl).quiet rfl rfl)
  case h_3 prompts hpc =>
    rw [hpc] at hbatch
    exact keeps_nextPrompt htasks hbatch (hcore hpc rfl)
  case h_4 m rest hpc =>
    rw [hpc] at hbatch
    exact keeps_emit htasks hbatch ((hcore hpc rfl).prompt rfl rfl)
  case h_5 rest hpc =>
    rw [hpc] at hbatch
    exact keeps_nextPrompt htasks hbatch (hcore hpc rfl)
  case h_6 pending hpc =>
    rw [hpc] at hbatch
    exact keeps_inject htasks hbatch (hcore hpc rfl)
  case h_7 m rest hpc =>
    rw [hpc] at hbatch
    exact keeps_emit htasks hbatch ((hcore hpc rfl).announce rfl rfl m)
  case h_8 m rest hpc =>
    rw [hpc] at hbatch
    exact keeps_inject htasks hbatch (hcore hpc rfl).inject
  case h_9 final hpc =>
    rw [hpc] at hbatch
    exact keeps_emit htasks hbatch ((hcore hpc rfl).announce rfl rfl _)
  case h_10 final hpc =>
    rw [hpc] at hbatch
    exact keeps_processed htasks hbatch (hcore hpc rfl)
  case h_11 hpc =>
    rw [hpc] at hbatch
    exact keeps_emit htasks hbatch (hcore hpc rfl).endRun
  case h_12 b call hpc =>
    rw [hpc] at hbatch
    split
    · exact keeps_emit htasks hbatch ((hcore hpc rfl).toolEnd _ rfl rfl)
    · exact keeps_none
  case h_13 b finalized hpc =>
    rw [hpc] at hbatch
    split
    · next hmode => exact keeps_entry htasks hmode hbatch.1 hbatch.2 (hcore hpc rfl)
    · next hmode => exact keeps_announce_own htasks hmode hbatch.1 hbatch.2 (hcore hpc rfl)
  case h_14 b result finalized others hpc =>
    rw [hpc] at hbatch
    refine keeps_emit htasks hbatch ?_
    have hannounced : Core start _ (log ++ [(_, l.aborted)]) _ _ _ _ :=
      (hcore hpc rfl).announce rfl rfl (.toolResult result)
    simpa [PC.frame, Batch.frame] using hannounced
  case h_15 b result finalized others hpc =>
    rw [hpc] at hbatch
    obtain ⟨hanswers, hothers, htruncated, hcut, hopen⟩ := hbatch
    have hrecorded : Core start (inputs ++ [.resume now]) log l.messages l.newMessages l.tasks
        (b.frame (b.results ++ [result]) []) := hcore hpc rfl
    dsimp only
    split
    · next hmode =>
      refine keeps_nextCall htasks ?_ ?_ hrecorded
      · rw [hothers (by simp [hmode])] at hanswers
        simpa [dealt, hmode] using hanswers.record
      · simpa [Loop.Clean, hmode] using htruncated hmode
    · next hmode =>
      refine keeps_nextUnlessAborted (by simp) ?_ ?_ ?_
      · rw [hothers (by simp [hmode])] at hanswers
        simpa [dealt, hmode] using hanswers.record
      · simp [Loop.Clean, hmode]
      · refine hrecorded.retask [] [] ?_
        rw [hopen]
        exact List.Perm.refl _
    · next hmode =>
      exact keeps_nextResult htasks hmode hopen (by simpa using hanswers.record) (hcut hmode)
        hrecorded
  case h_16 hpc =>
    rw [hpc] at hbatch
    have hclosed : Core _ _ _ _ _ _ PC.finished.frame := hcore hpc rfl
    exact keeps_goto htasks hbatch hclosed
  case h_17 => exact keeps_none

/-! ## Tasks -/

@[simp] theorem finalizeExecutedToolCall_toolCall (call : ToolCall) (executed : Executed)
    (after : HookAnswer AfterToolCallResult) :
    (finalizeExecutedToolCall call executed after).toolCall = call := by
  unfold finalizeExecutedToolCall
  split <;> rfl

/-- What a step of a task emits and changes. -/
theorem Task.Ok.step {t t' : Task} {input : TaskInput} {events : List AgentEvent} (h : t.Ok)
    (hinput : input.listenersAnswer = true) (hs : t.step input = some (t', events)) :
    t'.Ok ∧ t'.toolCall = t.toolCall ∧
      ((t'.hasEnded = t.hasEnded ∧
          (events = [] ∨ t.hasEnded = false ∧ ∃ e, events = [e] ∧ e.isQuiet = true)) ∨
        (t.hasEnded = false ∧ t'.hasEnded = true ∧
          ∃ finalized, events = [.toolExecutionEnd finalized] ∧
            finalized.toolCall = t.toolCall)) := by
  obtain ⟨call, phase, updates⟩ := t
  obtain ⟨hown, halive, hupdates⟩ := h
  have hset : ∀ index, ∀ status ∈ updates.set index .delivered, status ≠ .rejected := by
    intro index status hmem
    rcases mem_or_eq_of_mem_set hmem with hold | rfl
    · exact hupdates status hold
    · simp
  cases input with
  | update partialResult =>
    cases phase <;> simp only [Task.step, Option.some.injEq, Prod.mk.injEq, reduceCtorEq] at hs
    obtain ⟨rfl, rfl⟩ := hs
    refine ⟨⟨by simp, rfl, ?_⟩, rfl, Or.inl ⟨rfl, Or.inr ⟨rfl, _, rfl, rfl⟩⟩⟩
    intro status hmem
    rcases mem_append.1 hmem with hold | hnew
    · exact hupdates status hold
    · rw [mem_singleton.1 hnew]
      simp
  | updateDelivered index =>
    simp only [Task.step, Task.settleUpdate] at hs
    split at hs
    · obtain ⟨rfl, rfl⟩ := Prod.mk.inj (Option.some.inj hs)
      exact ⟨⟨hown, halive, hset index⟩, rfl, Or.inl ⟨rfl, Or.inl rfl⟩⟩
    · cases hs
  | updateRejected index => cases hinput
  | returned result =>
    cases phase <;> simp only [Task.step, Option.some.injEq, Prod.mk.injEq, reduceCtorEq] at hs
    obtain ⟨rfl, rfl⟩ := hs
    exact ⟨⟨by simp, rfl, hupdates⟩, rfl, Or.inl ⟨rfl, Or.inl rfl⟩⟩
  | updatesSettled durationMs =>
    cases phase <;> simp only [Task.step, reduceCtorEq] at hs
    split at hs
    · obtain ⟨rfl, rfl⟩ := Prod.mk.inj (Option.some.inj hs)
      exact ⟨⟨by simp, rfl, hupdates⟩, rfl, Or.inl ⟨rfl, Or.inl rfl⟩⟩
    · cases hs
  | updatesReject =>
    cases phase <;> simp only [Task.step, reduceCtorEq] at hs
    split at hs
    · next hrejected =>
      obtain ⟨status, hmem, hstatus⟩ := any_eq_true.1 hrejected
      exact absurd (by simpa using hstatus) (hupdates status hmem)
    · cases hs
  | after answer =>
    cases phase <;> simp only [Task.step, Option.some.injEq, Prod.mk.injEq, reduceCtorEq] at hs
    obtain ⟨rfl, rfl⟩ := hs
    refine ⟨⟨by simp, rfl, hupdates⟩, rfl, Or.inr ⟨rfl, rfl, _, rfl, by simp⟩⟩
  | endDelivered =>
    cases phase <;> simp only [Task.step, Option.some.injEq, Prod.mk.injEq, reduceCtorEq] at hs
    obtain ⟨rfl, rfl⟩ := hs
    exact ⟨⟨by simpa using hown, rfl, hupdates⟩, rfl, Or.inl ⟨rfl, Or.inl rfl⟩⟩
  | endRejected => cases hinput

variable {tasks : List Task}

/-- The batch does not depend on how far its tasks are. -/
theorem batchAt_retask (h : l.BatchAt) (hcalls : tasks.map (·.toolCall) = l.tasks.map (·.toolCall))
    (hopen : openCalls l.tasks = [] → openCalls tasks = []) :
    Loop.BatchAt { l with tasks := tasks } := by
  obtain ⟨messages, tools, sequential, newMessages, aborted, tasks', pc⟩ := l
  have hempty : tasks' = [] → tasks = [] := by
    rintro rfl
    exact map_eq_nil_iff.1 hcalls
  have hdealt : ∀ b, dealt ⟨messages, tools, sequential, newMessages, aborted, tasks, pc⟩ b =
      dealt ⟨messages, tools, sequential, newMessages, aborted, tasks', pc⟩ b := by
    intro b
    have hkeys := congrArg (List.map ToolCall.key) hcalls
    rw [map_map, map_map] at hkeys
    unfold dealt
    split
    · exact hkeys
    · rfl
  have hclean : ∀ b, Loop.Clean ⟨messages, tools, sequential, newMessages, aborted, tasks', pc⟩ b →
      Loop.Clean ⟨messages, tools, sequential, newMessages, aborted, tasks, pc⟩ b := by
    intro b hclean
    unfold Loop.Clean at hclean ⊢
    split
    · next hmode => simpa [hmode] using hclean
    · next hmode =>
      split at hclean
      · next hparallel => exact (hmode hparallel).elim
      · exact hempty hclean
  cases pc with
  | preparing b | ended b => exact ⟨(hdealt b).symm ▸ h.1, hclean b h.2⟩
  | running b call =>
    obtain ⟨hmode, hanswers, t, rfl, hcall⟩ := h
    obtain ⟨t', ht', hcall'⟩ := map_eq_singleton_iff.1 hcalls
    exact ⟨hmode, hanswers, t', ht', hcall'.trans hcall⟩
  | joining b => exact ⟨h.1, (hdealt b).symm ▸ h.2.1, h.2.2⟩
  | announced | recorded =>
    exact ⟨h.1, h.2.1, fun hmode => hempty (h.2.2.1 hmode), h.2.2.2.1, hopen h.2.2.2.2⟩
  | _ => exact hopen h

/-- An abort excuses calls that are not dealt with. -/
theorem batchAt_abort (h : l.BatchAt) : Loop.BatchAt { l with aborted := true } := by
  obtain ⟨messages, tools, sequential, newMessages, aborted, tasks, pc⟩ := l
  cases pc with
  | joining b => exact ⟨h.1, h.2.1, h.2.2.1, fun _ => rfl⟩
  | announced | recorded =>
    exact ⟨h.1, h.2.1, h.2.2.1, fun _ _ => rfl, h.2.2.2.2⟩
  | _ => exact h

variable {index : Nat}

/-- A list taken apart where it is changed. -/
theorem exists_set {α : Type} {xs : List α} {x : α} (hget : xs[index]? = some x) (y : α) :
    ∃ pre post, xs = pre ++ x :: post ∧ xs.set index y = pre ++ y :: post := by
  obtain ⟨hindex, rfl⟩ := List.getElem?_eq_some_iff.1 hget
  refine ⟨xs.take index, xs.drop (index + 1), ?_, ?_⟩
  · rw [← drop_eq_getElem_cons hindex, take_append_drop]
  · exact set_eq_take_append_cons_drop.trans (if_pos hindex)

/-- The call of a task that has ended is no longer open. -/
theorem openCalls_set {t t' : Task} (hget : tasks[index]? = some t)
    (hcall : t'.toolCall = t.toolCall) :
    (t'.hasEnded = t.hasEnded → openCalls (tasks.set index t') = openCalls tasks) ∧
      (t.hasEnded = false → t'.hasEnded = true →
        (openCalls tasks).Perm (t.toolCall :: openCalls (tasks.set index t'))) := by
  obtain ⟨pre, post, hold, hnew⟩ := exists_set hget t'
  rw [hnew, hold]
  constructor
  · intro hsame
    cases hended : t.hasEnded <;> simp [openCalls, hsame, hended, hcall]
  · intro hopen hended
    simp only [openCalls, filter_append, filter_cons, hopen, hended, map_append,
      Bool.not_false, Bool.not_true, if_true, Bool.false_eq_true, if_false, map_cons]
    exact perm_middle

theorem openCalls_eq_nil :
    openCalls tasks = [] ↔ ∀ t ∈ tasks, t.hasEnded = true := by
  simp [openCalls, filter_eq_nil_iff]

theorem Sound.task (h : Sound start inputs log l) {input : TaskInput}
    (hinput : input.listenersAnswer = true) :
    Keeps start (inputs ++ [.task index input]) log (l.step (.task index input)) := by
  intro l' events hs
  obtain ⟨t, hget, hs⟩ := Option.bind_eq_some_iff.1 hs
  obtain ⟨⟨t', events'⟩, hstep, hs⟩ := Option.bind_eq_some_iff.1 hs
  cases hs
  obtain ⟨hok, hcall, hcases⟩ := (h.tasks t (mem_of_getElem? hget)).step hinput hstep
  obtain ⟨hsame, hended⟩ := openCalls_set hget hcall
  obtain ⟨tail, hcore, htail⟩ := h.core
  have hinputs : Core start (inputs ++ [.task index input]) _ _ _ _ _ := hcore.input rfl rfl
  have htasks : ∀ u ∈ l.tasks.set index t', u.Ok := by
    intro u hu
    rcases mem_or_eq_of_mem_set hu with hold | rfl
    · exact h.tasks u hold
    · exact hok
  have hcalls : (l.tasks.set index t').map (·.toolCall) = l.tasks.map (·.toolCall) := by
    obtain ⟨pre, post, hold, hnew⟩ := exists_set hget t'
    rw [hnew]
    conv_rhs => rw [hold]
    simp [hcall]
  have hnone : openCalls l.tasks = [] → openCalls (l.tasks.set index t') = [] := by
    intro hopen
    rcases hcases with ⟨heq, -⟩ | ⟨hfalse, -⟩
    · rw [hsame heq, hopen]
    · rw [openCalls_eq_nil.1 hopen t (mem_of_getElem? hget)] at hfalse
      cases hfalse
  have hlive : t.hasEnded = false → l.pc.frame.closed = false := by
    intro hrunning
    rw [← Bool.not_eq_true]
    intro hclosed
    have hall := openCalls_eq_nil.1 (h.openCalls_of_closed hclosed) t (mem_of_getElem? hget)
    rw [hrunning] at hall
    cases hall
  refine ⟨htasks, batchAt_retask h.batch hcalls hnone, tail, ?_, htail⟩
  rcases hcases with ⟨heq, hevents⟩ | ⟨hfalse, htrue, finalized, rfl, hown⟩
  · have hretask := hinputs.retask (l.tasks.set index t') l.pc.frame.current
      (by rw [hsame heq])
    rcases hevents with rfl | ⟨hrunning, e, rfl, hquiet⟩
    · rw [entries_nil, append_nil]
      exact hretask
    · exact hretask.quiet (hlive hrunning) hquiet
  · exact hinputs.taskEnd (hlive hfalse) (hown ▸ hended hfalse htrue)

end Steps

/-! ## Every step -/

section Steps

variable {l : Loop} {b : Batch}

include h in
/-- The end of the context is what is under way. -/
theorem Core.messages_eq
    (htail : f.tail = [m]) : messages = messages.dropLast ++ f.tail := by
  obtain ⟨base, earlier, since, -, hmessages, -⟩ := h.segments
  rw [hmessages, htail]
  simp

/-- A callback throws, or the stream does. -/
theorem Sound.callbackThrows (h : Sound start inputs log l) :
    Keeps start (inputs ++ [.callbackThrows]) log (l.step .callbackThrows) := by
  unfold Loop.step
  dsimp only
  split
  · next hcalling =>
    intro l' events hs
    cases hs
    rw [entries_nil, append_nil]
    have hbatch := h.batch
    unfold Loop.BatchAt at hbatch
    have hrejected : ∀ {pc}, l.pc = pc → pc.isRejected = false →
        (pc.frame = { idle with tail := pc.frame.tail }) → UnderWay pc.frame.tail →
        ∃ tail, Core start (inputs ++ [.callbackThrows]) log l.messages l.newMessages l.tasks
          { idle with tail := tail } ∧ UnderWay tail := by
      intro pc hpc hlive hframe htail
      exact ⟨pc.frame.tail, hframe ▸ (h.at hpc hlive).input rfl rfl, htail⟩
    refine ⟨h.tasks, ?_, ?_⟩
    · cases hpc : l.pc <;> rw [hpc] at hbatch hcalling <;>
        first | exact hbatch | cases hcalling
    · cases hpc : l.pc <;> rw [hpc] at hcalling <;>
        first | exact hrejected hpc rfl rfl ⟨none, rfl⟩ |
          exact hrejected hpc rfl rfl ⟨some _, rfl⟩ | cases hcalling
  · exact keeps_none

/-- The outcomes of tasks are those of their calls. -/
theorem outcomes_spec (htasks : ∀ t ∈ l.tasks, t.Ok) {outcomes : List Finalized}
    (h : l.outcomes? = some outcomes) :
    outcomes.map (·.toolCall) = l.tasks.map (·.toolCall) ∧ openCalls l.tasks = [] := by
  have hdone : ∀ t ∈ l.tasks, ∀ finalized, t.outcome? = some finalized →
      finalized.toolCall = t.toolCall ∧ t.hasEnded = true := by
    intro t ht finalized hfinalized
    unfold Task.outcome? at hfinalized
    split at hfinalized
    · next f hphase =>
      cases hfinalized
      exact ⟨(htasks t ht).own _ (Or.inr hphase), by simp [Task.hasEnded, hphase]⟩
    · cases hfinalized
  have hall := Machine.mapM_eq_some h
  constructor
  · have hmem := (forall₂_and_left _ _).2 ⟨fun t (ht : t ∈ l.tasks) => ht, hall⟩
    exact Machine.map_eq_of_forall₂
      (hmem.imp fun t finalized hboth => (hdone t hboth.1 finalized hboth.2).1.symm)
  · rw [openCalls_eq_nil]
    intro t ht
    obtain ⟨finalized, -, hfinalized⟩ := Machine.exists_of_forall₂_right hall.flip ht
    exact (hdone t ht finalized hfinalized).2

/-- The task or the tasks awaited are done. -/
theorem Sound.joined (h : Sound start inputs log l) (now : ℚ) :
    Keeps start (inputs ++ [.joined now]) log (l.step (.joined now)) := by
  have hbatch := h.batch
  unfold Loop.BatchAt at hbatch
  unfold Loop.step
  dsimp only
  split
  · next b call finalized hpc houtcomes =>
    rw [hpc] at hbatch
    obtain ⟨hmode, hanswers, t, htask, hcall⟩ := hbatch
    obtain ⟨hcalls, hopen⟩ := outcomes_spec h.tasks houtcomes
    have hown : finalized.toolCall = call := by
      rw [htask] at hcalls
      simpa [hcall] using hcalls
    refine keeps_announce h.tasks ⟨⟨?_, hanswers.ok⟩, fun _ => rfl, by simp [hmode],
      by simp [hmode], hopen⟩ ((h.at hpc rfl).input rfl rfl)
    rw [createToolResultMessage_key, hown]
    simpa using hanswers.keys
  · next b outcomes hpc houtcomes =>
    rw [hpc] at hbatch
    obtain ⟨hmode, hanswers, hresults, hcut⟩ := hbatch
    obtain ⟨hcalls, hopen⟩ := outcomes_spec h.tasks houtcomes
    refine keeps_nextResult h.tasks hmode hopen ⟨?_, hanswers.ok⟩ hcut ((h.at hpc rfl).input rfl rfl)
    have hkeys := congrArg (List.map ToolCall.key) hcalls
    rw [map_map, map_map] at hkeys
    have hdealt := hanswers.keys
    rw [dealt, hmode] at hdealt
    rw [hresults, map_nil, nil_append]
    exact (congrArg (· ++ [].map ToolCall.key ++ b.rest.map ToolCall.key) hkeys).trans hdealt
  · exact keeps_none

/-- A call is prepared. -/
theorem Sound.prepared (h : Sound start inputs log l) (args : Except Thrown Unit)
    (before : HookAnswer BeforeToolCallResult) :
    Keeps start (inputs ++ [.prepared args before]) log (l.step (.prepared args before)) := by
  have hbatch := h.batch
  unfold Loop.BatchAt at hbatch
  unfold Loop.step
  dsimp only
  split
  · next b call hpc =>
    rw [hpc] at hbatch
    obtain ⟨hanswers, hclean⟩ := hbatch
    have hcore : Core start (inputs ++ [.prepared args before]) log l.messages l.newMessages l.tasks
      (b.frame b.results [call]) := (h.at hpc rfl).input rfl rfl
    split
    · exact keeps_none
    · next result _ _ =>
      exact keeps_emit h.tasks ⟨hanswers, hclean⟩
        (hcore.toolEnd ⟨call, result, true⟩ rfl rfl)
    · next hmode _ =>
      rw [dealt, hmode] at hanswers
      rw [Loop.Clean, hmode] at hclean
      refine keeps_goto ?_ ⟨hmode, hanswers, _, rfl, rfl⟩ ?_
      · intro t ht
        rw [mem_singleton.1 ht]
        exact ⟨by simp, rfl, by simp⟩
      · refine hcore.retask _ [] ?_
        rw [hclean]
        exact List.Perm.refl _
    · next hmode _ =>
      refine keeps_nextUnlessAborted ?_ ⟨?_, hanswers.ok⟩ ?_ ?_
      · intro t ht
        rcases mem_append.1 ht with hold | hnew
        · exact h.tasks t hold
        · rw [mem_singleton.1 hnew]
          exact ⟨by simp, rfl, by simp⟩
      · have hkeys := hanswers.keys
        simpa [dealt, hmode] using hkeys
      · simpa [Loop.Clean, hmode] using hclean
      · refine hcore.retask _ [] ?_
        rw [openCalls_append]
        exact perm_append_comm
  · exact keeps_none

/-- Every step keeps the invariant, unless a listener rejects. -/
theorem Sound.step (h : Sound start inputs log l) (hrun : Run start inputs log l) {input : Input}
    (hinput : input.listenersAnswer = true) :
    Keeps start (inputs ++ [input]) log (l.step input) := by
  have hbatch := h.batch
  unfold Loop.BatchAt at hbatch
  cases input with
  | resume now => exact h.resume now
  | listenerRejects => cases hinput
  | callbackThrows => exact h.callbackThrows
  | steering messages =>
    unfold Loop.step
    dsimp only
    split
    · next hpc =>
      rw [hpc] at hbatch
      exact keeps_inject h.tasks hbatch ((h.at hpc rfl).input rfl rfl)
    · next hpc =>
      rw [hpc] at hbatch
      exact keeps_nextTurn h.tasks hbatch ((h.at hpc rfl).input rfl rfl)
    · exact keeps_none
  | followUps messages =>
    unfold Loop.step
    dsimp only
    split
    · next hpc =>
      rw [hpc] at hbatch
      have hcore : Core _ (inputs ++ [.followUps messages]) _ _ _ _ idle := (h.at hpc rfl).input rfl rfl
      split
      · exact keeps_emit h.tasks hbatch hcore.endRun
      · exact keeps_nextTurn h.tasks hbatch hcore
    · exact keeps_none
  | streamStart message =>
    unfold Loop.step
    dsimp only
    split
    · next hpc =>
      rw [hpc] at hbatch
      have hcore : Core _ (inputs ++ [.streamStart message]) _ _ _ _ idle := (h.at hpc rfl).input rfl rfl
      have hstarted := hcore.replaceTail l.messages [.assistant message]
        (append_nil _).symm
      exact keeps_emit h.tasks hbatch (hstarted.quiet rfl rfl)
    · exact keeps_none
  | streamUpdate message =>
    unfold Loop.step
    dsimp only
    split
    · next hpc =>
      rw [hpc] at hbatch
      exact keeps_goto h.tasks hbatch ((h.at hpc rfl).input rfl rfl)
    · next hpc =>
      rw [hpc] at hbatch
      have hcore : Core _ (inputs ++ [.streamUpdate message]) _ _ _ _ _ :=
        (h.at hpc rfl).input rfl rfl
      have hreplaced := hcore.replaceTail _ [.assistant message] (hcore.messages_eq rfl)
      exact keeps_emit h.tasks hbatch (hreplaced.quiet rfl rfl)
    · exact keeps_none
  | streamEnd final =>
    unfold Loop.step
    dsimp only
    split
    · next hpc =>
      rw [hpc] at hbatch
      have hcore : Core _ _ _ _ _ _ idle := h.at hpc rfl
      have hended := (hcore.respond rfl final).replaceTail l.messages
        [.assistant final] (append_nil _).symm
      exact keeps_emit h.tasks hbatch (hended.quiet rfl rfl)
    · next hpc =>
      rw [hpc] at hbatch
      have hcore := h.at hpc rfl
      have hended := (hcore.respond rfl final).replaceTail _ [.assistant final]
        (hcore.messages_eq rfl)
      exact keeps_emit h.tasks hbatch (hended.announce rfl rfl _)
    · exact keeps_none
  | prepared args before => exact h.prepared args before
  | nextTurn context =>
    unfold Loop.step
    dsimp only
    split
    · next hpc =>
      rw [hpc] at hbatch
      have hcore : Core _ _ _ _ _ _ idle := h.at hpc rfl
      split
      · exact keeps_goto h.tasks hbatch (hcore.replaceContext hrun)
      · exact keeps_goto h.tasks hbatch (hcore.input rfl rfl)
    · exact keeps_none
  | stopAfterTurn stop =>
    unfold Loop.step
    dsimp only
    split
    · next hpc =>
      rw [hpc] at hbatch
      have hcore : Core _ (inputs ++ [.stopAfterTurn stop]) _ _ _ _ idle :=
        (h.at hpc rfl).input rfl rfl
      split
      · exact keeps_emit h.tasks hbatch hcore.endRun
      · exact keeps_goto h.tasks hbatch hcore
    · exact keeps_none
  | joined now => exact h.joined now
  | joinRejects =>
    unfold Loop.step
    dsimp only
    have hnone : l.tasks.any Task.isRejected = false := by
      rw [any_eq_false]
      intro t ht
      rw [(h.tasks t ht).alive]
      exact Bool.false_ne_true
    split
    · simpa [hnone] using keeps_none
    · simpa [hnone] using keeps_none
    · exact keeps_none
  | abort =>
    intro l' events hs
    cases hs
    obtain ⟨tail, hcore, htail⟩ := h.core
    rw [entries_nil, append_nil]
    exact ⟨h.tasks, batchAt_abort h.batch, tail, hcore.input rfl rfl, htail⟩
  | task index input => exact h.task hinput

end Steps

end BeauPi.AgentLoop
