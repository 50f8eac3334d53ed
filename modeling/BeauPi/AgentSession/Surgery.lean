import BeauPi.AgentSession.Exclusion

/-!
# Runs while the context is changed

`compact` and `navigateTree` await a summary.  Meanwhile the session is not streaming, and
`compact` does not listen to the agent, so **a run that is started then is not persisted**.

* `PersistedBy` — the entries of a run hold the messages that it has ended, each below the one
  before.
* `IsAnswered` — every result of a tool is below the message that calls it.
* `Excluded` — no run is in progress while the context is changed; all runs are persisted.
* `Separate`, `step_separate` — the invariant of exclusive runs.
* `surgery_excludes_runs` — **when runs and changes of the context exclude each other at their start,
  they do so to the end, and every message is persisted.**
-/

namespace BeauPi.AgentSession.Activity

open Llm Sessions AgentLoop Machine List

/-! ## Entries of a run -/

/-- The entries of a run hold the messages that it has ended, but the one that is being persisted,
each below the one before. -/
def PersistedBy (tree : EntryTree) (run : AgentRun) : Prop :=
  (∃ messages, run.ended = messages ++ run.persisting.toList ∧
    run.persisted.map tree.value? = messages.map fun message => some (some message)) ∧
    run.persisted.Pairwise fun i j => i < j ∧ tree.Above i j

/-- A message that calls the tool is above the result. -/
def IsAnsweredAt (tree : EntryTree) (i : Nat) (result : ToolResultMessage) : Prop :=
  ∃ j call, tree.Above j i ∧ tree.value? j = some (some call) ∧
    callsTool result.toolCallId call = true

/-- Every result of a tool is below the message that calls it. -/
def IsAnswered (tree : EntryTree) : Prop :=
  ∀ i result, tree.value? i = some (some (.toolResult result)) → IsAnsweredAt tree i result

/-- No run is in progress while the context is changed; every run has persisted its messages, and
every result is below its call. -/
structure Excluded (s : Activity) : Prop where
  noRun : s.surgeries ≠ [] → s.agentRun = none
  ended : ∀ run ∈ s.runs, run.persisting = none ∧ PersistedBy s.session run
  current : ∀ run ∈ s.agentRun, PersistedBy s.session run
  results : IsAnswered s.session

/-- The persisted entries of the active run are above the leaf. -/
def IsOnBranch (tree : EntryTree) (run : AgentRun) : Prop :=
  ∀ i ∈ run.persisted, ∃ leaf, tree.leaf = some leaf ∧ tree.Above i leaf

/-- The invariant of exclusive runs. -/
structure Separate (s : Activity) : Prop where
  typed : s.Typed
  awaited : s.Awaited
  quiet : s.surgeries ≠ [] → s.calls = []
  connected : s.connected = true ∨ .compact ∈ s.surgeries
  ended : ∀ run ∈ s.runs, run.persisting = none ∧ PersistedBy s.session run
  current : ∀ run ∈ s.agentRun, PersistedBy s.session run ∧ IsOnBranch s.session run
  allowed : ∀ run ∈ s.agentRun, ∀ message ∈ run.persisting,
    isPlain message = true ∨ ∃ call ∈ run.ended, ∀ result, message = .toolResult result →
      callsTool result.toolCallId call = true
  results : IsAnswered s.session

variable {s t : Activity} {i : Nat} {tree : EntryTree} {run : AgentRun}

/-! ## Entries that are appended -/

/-- What holds of a value is kept when another one is appended. -/
theorem PersistedBy.append (h : PersistedBy tree run) (value : Option AgentMessage) :
    PersistedBy (tree.append value) run := by
  obtain ⟨⟨messages, hended, hvalues⟩, hpairs⟩ := h
  refine ⟨⟨messages, hended, ?_⟩, hpairs.imp fun hij => ⟨hij.1, hij.2.append value⟩⟩
  rw [← hvalues]
  refine map_congr_left fun i hi => ?_
  have hmem : tree.value? i ∈ messages.map fun message => some (some message) :=
    hvalues ▸ mem_map_of_mem hi
  obtain ⟨message, -, hvalue⟩ := mem_map.1 hmem
  rw [← hvalue]
  exact BranchTree.value?_append_of_some hvalue.symm value

theorem IsOnBranch.append (h : IsOnBranch tree run) (value : Option AgentMessage) :
    IsOnBranch (tree.append value) run := by
  intro i hi
  obtain ⟨leaf, hleaf, habove⟩ := h i hi
  exact ⟨tree.nodes.length, rfl, BranchTree.above_append hleaf habove value⟩

theorem IsAnsweredAt.append {result : ToolResultMessage} (h : IsAnsweredAt tree i result)
    (value : Option AgentMessage) : IsAnsweredAt (tree.append value) i result := by
  obtain ⟨j, call, habove, hvalue, hcalls⟩ := h
  exact ⟨j, call, habove.append value, BranchTree.value?_append_of_some hvalue value, hcalls⟩

/-- A result may be appended below its call. -/
theorem IsAnswered.append {value : Option AgentMessage} (h : IsAnswered tree)
    (hnew : ∀ result, value = some (.toolResult result) →
      IsAnsweredAt (tree.append value) tree.nodes.length result) :
    IsAnswered (tree.append value) := by
  intro i result hresult
  rcases BranchTree.value?_append_cases hresult with hold | ⟨rfl, hvalue⟩
  · exact (h i result hold).append value
  · exact hnew result hvalue.symm

theorem IsAnswered.append_plain {value : Option AgentMessage} (h : IsAnswered tree)
    (hplain : ∀ message, value = some message → isPlain message = true) :
    IsAnswered (tree.append value) := by
  refine h.append fun result hvalue => ?_
  cases hplain _ hvalue

theorem appendAll_keeps {P : EntryTree → Prop} {values : List (Option AgentMessage)}
    (hstep : ∀ tree, P tree → ∀ value ∈ values, P (tree.append value)) (h : P tree) :
    P (appendAll tree values) := by
  unfold appendAll
  induction values generalizing tree with
  | nil => exact h
  | cons value values ih =>
    exact ih (fun tree htree other hmem => hstep tree htree other (mem_cons_of_mem _ hmem))
      (hstep tree h value (mem_cons_self ..))

theorem PersistedBy.appendAll (h : PersistedBy tree run) (values : List (Option AgentMessage)) :
    PersistedBy (appendAll tree values) run :=
  appendAll_keeps (P := fun tree => PersistedBy tree run)
    (fun _ htree value _ => htree.append value) h

theorem IsOnBranch.appendAll (h : IsOnBranch tree run) (values : List (Option AgentMessage)) :
    IsOnBranch (appendAll tree values) run :=
  appendAll_keeps (P := fun tree => IsOnBranch tree run)
    (fun _ htree value _ => htree.append value) h

/-! ## The leaf is moved -/

variable {leaf : Option Nat}

theorem above_moveTo (hleaf : ∀ l, leaf = some l → l < tree.nodes.length) {j k : Nat}
    (h : tree.Above j k) : (tree.moveTo leaf hleaf).Above j k := by
  induction h with
  | self => exact .self _
  | child hparent _ ih => exact .child hparent ih

theorem PersistedBy.moveTo (hleaf : ∀ l, leaf = some l → l < tree.nodes.length)
    (h : PersistedBy tree run) : PersistedBy (tree.moveTo leaf hleaf) run :=
  ⟨h.1, h.2.imp fun hij => ⟨hij.1, above_moveTo hleaf hij.2⟩⟩

theorem IsAnswered.moveTo (hleaf : ∀ l, leaf = some l → l < tree.nodes.length)
    (h : IsAnswered tree) : IsAnswered (tree.moveTo leaf hleaf) := by
  intro i result hresult
  obtain ⟨j, call, habove, hvalue, hcalls⟩ := h i result hresult
  exact ⟨j, call, above_moveTo hleaf habove, hvalue, hcalls⟩

/-! ## Exclusive steps -/

/-- While a run is active no change of the context is in progress. -/
theorem Separate.free (h : s.Separate) (hrun : s.agentRun = some run) : s.surgeries = [] := by
  by_contra hsurgeries
  obtain ⟨call, hmem, -⟩ := h.awaited (by rw [hrun]; rfl)
  rw [h.quiet hsurgeries] at hmem
  cases hmem

theorem Separate.noRun (h : s.Separate) (hsurgeries : s.surgeries ≠ []) : s.agentRun = none := by
  cases hrun : s.agentRun with
  | none => rfl
  | some run => exact absurd (h.free hrun) hsurgeries

variable {message : AgentMessage}

/-- A message that ends was handed in, or is the result of a call that has ended. -/
theorem allowed_of_ended (h : isPlain message = true ∨ isResponse run message = true) :
    isPlain message = true ∨ ∃ call ∈ run.ended ++ [message], ∀ result,
      message = .toolResult result → callsTool result.toolCallId call = true := by
  cases message with
  | toolResult result =>
    rcases h with hplain | hresponse
    · cases hplain
    · obtain ⟨call, hmem, hcalls⟩ := any_eq_true.1 hresponse
      refine .inr ⟨call, mem_append_left _ hmem, ?_⟩
      rintro other ⟨⟩
      exact hcalls
  | _ => exact .inl rfl

/-- The entries of a run are above the one that it persists next. -/
theorem PersistedBy.persist (h : PersistedBy tree run) (hbranch : IsOnBranch tree run)
    (hpersisting : run.persisting = some message) :
    PersistedBy (tree.append (some message))
      { run with persisting := none, persisted := run.persisted ++ [tree.nodes.length] } := by
  obtain ⟨⟨messages, hended, hvalues⟩, hpairs⟩ := h.append (some message)
  refine ⟨⟨messages ++ [message], ?_, ?_⟩, ?_⟩
  · simpa [hpersisting] using hended
  · rw [map_append, hvalues, map_append]
    simp
  · rw [pairwise_append]
    refine ⟨hpairs, pairwise_singleton _ _, ?_⟩
    intro i hi j hj
    obtain ⟨leaf, hleaf, habove⟩ := hbranch i hi
    rw [mem_singleton.1 hj]
    exact ⟨Nat.lt_of_le_of_lt habove.le (tree.leaf_lt leaf hleaf),
      BranchTree.above_append hleaf habove _⟩

theorem IsOnBranch.persist (hbranch : IsOnBranch tree run) :
    IsOnBranch (tree.append (some message))
      { run with persisting := none, persisted := run.persisted ++ [tree.nodes.length] } := by
  intro i hi
  rcases mem_append.1 hi with hi | hi
  · exact hbranch.append (some message) i hi
  · rw [mem_singleton.1 hi]
    exact ⟨tree.nodes.length, rfl, .self _⟩

/-- A result is persisted below its call. -/
theorem IsAnswered.persist (h : IsAnswered tree) (hpersisted : PersistedBy tree run)
    (hbranch : IsOnBranch tree run) (hpersisting : run.persisting = some message)
    (hallowed : isPlain message = true ∨ ∃ call ∈ run.ended, ∀ result, message = .toolResult result
      → callsTool result.toolCallId call = true) :
    IsAnswered (tree.append (some message)) := by
  rcases hallowed with hplain | ⟨call, hmem, hcalls⟩
  · refine h.append_plain ?_
    rintro other ⟨⟩
    exact hplain
  · refine h.append ?_
    rintro result ⟨⟩
    have hcall := hcalls result rfl
    obtain ⟨⟨messages, hended, hvalues⟩, -⟩ := hpersisted
    rw [hended, hpersisting] at hmem
    rcases mem_append.1 hmem with hmem | hmem
    · have hvalue : some (some call) ∈ run.persisted.map tree.value? :=
        hvalues ▸ mem_map_of_mem hmem
      obtain ⟨j, hj, hvalue⟩ := mem_map.1 hvalue
      obtain ⟨leaf, hleaf, habove⟩ := hbranch j hj
      exact ⟨j, call, BranchTree.above_append hleaf habove _,
        BranchTree.value?_append_of_some hvalue _, hcall⟩
    · -- a result calls no tool
      rw [mem_singleton.1 hmem] at hcall
      cases hcall

/-- Every change keeps the invariant. -/
theorem Separate.change (h : s.Separate) (hkeeps : s.Keeps t) (hchange : s.Change t) :
    t.Separate := by
  have hconnected : t.connected = true ∨ .compact ∈ t.surgeries := by
    rw [hkeeps.connected, hkeeps.surgeries]
    exact h.connected
  cases hchange with
  | appended values plain session hrun runs awaited quiet =>
    refine ⟨hkeeps.typed h.typed, awaited, fun hs => quiet (h.quiet (hkeeps.surgeries ▸ hs)),
      hconnected, ?_, ?_, ?_, ?_⟩
    · rw [runs, session]
      exact fun run hmem => ⟨(h.ended run hmem).1, (h.ended run hmem).2.appendAll values⟩
    · rw [hrun, session]
      exact fun run hmem =>
        ⟨(h.current run hmem).1.appendAll values, (h.current run hmem).2.appendAll values⟩
    · rw [hrun]
      exact h.allowed
    · rw [session]
      refine appendAll_keeps (P := IsAnswered) (fun tree htree value hmem => ?_) h.results
      refine htree.append_plain ?_
      rintro message rfl
      exact plain message hmem
  | started messages session idle hrun runs awaited quiet =>
    refine ⟨hkeeps.typed h.typed, awaited, fun hs => ?_, hconnected, ?_, ?_, ?_, ?_⟩
    · rw [hkeeps.surgeries] at hs
      exact absurd (quiet (h.quiet hs)) hs
    · rw [runs, session]
      exact h.ended
    · rw [hrun]
      rintro run ⟨⟩
      exact ⟨⟨⟨[], rfl, rfl⟩, .nil⟩, by simp [IsOnBranch]⟩
    · rw [hrun]
      rintro run ⟨⟩ message hmessage
      cases hmessage
    · rw [session]
      exact h.results
  | moved run run' session before after persisting ended persisted runs calls =>
    obtain ⟨hpersisted, hbranch⟩ := h.current run before
    refine ⟨hkeeps.typed h.typed, ?_, ?_, hconnected, ?_, ?_, ?_, ?_⟩
    · intro _
      rw [calls]
      exact h.awaited (by rw [before]; rfl)
    · rw [calls, hkeeps.surgeries]
      exact h.quiet
    · rw [runs, session]
      exact h.ended
    · rw [after, session]
      rintro other ⟨⟩
      unfold PersistedBy IsOnBranch
      rw [persisting, ended, persisted]
      exact ⟨hpersisted, hbranch⟩
    · rw [after]
      rintro other ⟨⟩
      rw [persisting, ended]
      exact h.allowed run before
    · rw [session]
      exact h.results
  | ended run run' message session before rest after persisting ended persisted allowed runs calls =>
    obtain ⟨⟨⟨messages, hended, hvalues⟩, hpairs⟩, hbranch⟩ := h.current run before
    have hlistens : s.connected = true := by
      rcases h.connected with hconnected | hcompact
      · exact hconnected
      · rw [h.free before] at hcompact
        cases hcompact
    rw [hlistens, if_pos rfl] at persisting
    rw [rest, Option.toList_none, append_nil] at hended
    refine ⟨hkeeps.typed h.typed, ?_, ?_, hconnected, ?_, ?_, ?_, ?_⟩
    · intro _
      rw [calls]
      exact h.awaited (by rw [before]; rfl)
    · rw [calls, hkeeps.surgeries]
      exact h.quiet
    · rw [runs, session]
      exact h.ended
    · rw [after, session]
      rintro other ⟨⟩
      unfold PersistedBy IsOnBranch
      rw [persisting, ended, persisted]
      exact ⟨⟨⟨messages, by rw [hended]; rfl, hvalues⟩, hpairs⟩, hbranch⟩
    · rw [after]
      rintro other ⟨⟩ other hother
      rw [persisting] at hother
      obtain rfl := Option.some.inj hother
      rw [ended]
      exact allowed_of_ended (allowed h.typed)
    · rw [session]
      exact h.results
  | persisted run message before persisting after =>
    subst after
    obtain ⟨hpersisted, hbranch⟩ := h.current run before
    refine ⟨hkeeps.typed h.typed, fun _ => h.awaited (by rw [before]; rfl), h.quiet, h.connected,
      ?_, ?_, ?_, ?_⟩
    · exact fun other hmem => ⟨(h.ended other hmem).1, (h.ended other hmem).2.append _⟩
    · rintro other ⟨⟩
      exact ⟨hpersisted.persist hbranch persisting, hbranch.persist⟩
    · rintro other ⟨⟩ waiting hwaiting
      cases hwaiting
    · exact h.results.persist hpersisted hbranch persisting (h.allowed run before message persisting)
  | runEnded run session before rest after runs quiet =>
    refine ⟨hkeeps.typed h.typed, ?_, ?_, hconnected, ?_, ?_, ?_, ?_⟩
    · intro hsome
      rw [after] at hsome
      cases hsome
    · rw [hkeeps.surgeries]
      exact fun hs => quiet (h.quiet hs)
    · rw [runs, session]
      intro other hmem
      rcases mem_append.1 hmem with hmem | hmem
      · exact h.ended other hmem
      · rw [mem_singleton.1 hmem]
        exact ⟨rest, (h.current run before).1⟩
    · rw [after]
      rintro other ⟨⟩
    · rw [after]
      rintro other ⟨⟩
    · rw [session]
      exact h.results

/-! ## Changes of the context -/

/-- While no run is active, entries and leaf may change. -/
theorem Separate.rewrite (h : s.Separate) (hrun : s.agentRun = none) {tree : EntryTree}
    (hover : ∀ run, PersistedBy s.session run → PersistedBy tree run) (hresults : IsAnswered tree)
    {surgeries : List Surgery} {connected : Bool} (hquiet : surgeries ≠ [] → s.calls = [])
    (hconnected : connected = true ∨ .compact ∈ surgeries) :
    Separate { s with session := tree, surgeries := surgeries, connected := connected } := by
  refine ⟨⟨h.typed.prompts, h.typed.steering, h.typed.followUp, h.typed.pending, h.typed.waiting⟩,
    h.awaited, hquiet, hconnected, fun run hmem => ⟨(h.ended run hmem).1, hover run (h.ended run hmem).2⟩,
    ?_, ?_, hresults⟩
  · intro run hmem
    rw [hrun] at hmem
    cases hmem
  · intro run hmem
    rw [hrun] at hmem
    cases hmem

/-- A change of the context is over. -/
theorem Separate.during {surgery : Surgery} (h : s.Separate) (hi : s.surgeries[i]? = some surgery) :
    s.agentRun = none ∧ s.calls = [] := by
  have hsurgeries : s.surgeries ≠ [] := by
    intro hnil
    rw [hnil] at hi
    cases hi
  exact ⟨h.noRun hsurgeries, h.quiet hsurgeries⟩

theorem Separate.compacted (h : s.Separate) (hi : s.surgeries[i]? = some .compact)
    (succeeds : Bool) : (s.compacted i succeeds).Separate := by
  obtain ⟨hrun, hcalls⟩ := h.during hi
  cases succeeds with
  | false => exact h.rewrite hrun (fun _ hpersisted => hpersisted) h.results (fun _ => hcalls) (.inl rfl)
  | true =>
    exact h.rewrite hrun (fun _ hpersisted => hpersisted.append none)
      (h.results.append_plain (by simp)) (fun _ => hcalls) (.inl rfl)

theorem Separate.navigated (h : s.Separate) (hi : s.surgeries[i]? = some .navigateTree)
    (summarized : Bool) (leaf : Option (Option (Fin s.session.nodes.length))) :
    (s.navigated i summarized leaf).Separate := by
  obtain ⟨hrun, hcalls⟩ := h.during hi
  have hconnected : s.connected = true ∨ .compact ∈ s.surgeries.eraseIdx i := by
    rcases h.connected with hconnected | hcompact
    · exact .inl hconnected
    · exact .inr (mem_eraseIdx_of_ne hcompact hi (by simp))
  cases leaf with
  | none => exact h.rewrite hrun (fun _ hpersisted => hpersisted) h.results (fun _ => hcalls) hconnected
  | some leaf =>
    cases summarized with
    | false =>
      exact h.rewrite hrun (fun _ hpersisted => hpersisted.moveTo _) (h.results.moveTo _)
        (fun _ => hcalls) hconnected
    | true =>
      exact h.rewrite hrun (fun _ hpersisted => (hpersisted.moveTo _).append none)
        ((h.results.moveTo _).append_plain (by simp)) (fun _ => hcalls) hconnected

/-- The context is changed only while no call is in progress. -/
theorem Separate.surgery {event : Event} (h : s.Separate) (hG : s.IsExclusive event)
    (hevent : event.IsSurgery) (hstep : s.step event = some t) : t.Separate := by
  cases event with
  | compact =>
    cases hstep
    exact ⟨⟨h.typed.prompts, h.typed.steering, h.typed.followUp, h.typed.pending, h.typed.waiting⟩,
      h.awaited, fun _ => hG, .inr (by simp [Activity.compact]), h.ended, h.current, h.allowed,
      h.results⟩
  | compacted i succeeds =>
    rw [Activity.step] at hstep
    split at hstep
    next hi =>
      cases hstep
      exact h.compacted hi succeeds
    next => cases hstep
  | navigateTree =>
    rw [Activity.step] at hstep
    split at hstep
    next => cases hstep
    next =>
      cases hstep
      refine ⟨⟨h.typed.prompts, h.typed.steering, h.typed.followUp, h.typed.pending,
        h.typed.waiting⟩, h.awaited, fun _ => hG, ?_, h.ended, h.current, h.allowed, h.results⟩
      rcases h.connected with hconnected | hcompact
      · exact .inl hconnected
      · exact .inr (mem_append_left _ hcompact)
  | navigated i summarized leaf =>
    unfold Activity.step at hstep
    dsimp only at hstep
    split at hstep
    next hi =>
      split at hstep
      next =>
        cases hstep
        exact h.navigated hi summarized none
      next =>
        cases hstep
        exact h.navigated hi summarized (some none)
      next =>
        split at hstep
        next =>
          cases hstep
          exact h.navigated hi summarized _
        next => cases hstep
    next => cases hstep
  | _ => exact hevent.elim

/-- **Every exclusive step keeps runs and changes of the context apart.** -/
theorem step_separate {event : Event} (h : s.Separate) (hevent : event.IsTyped)
    (hG : s.IsExclusive event) (hstep : s.step event = some t) : t.Separate := by
  by_cases hsurgery : event.IsSurgery
  · exact h.surgery hG hsurgery hstep
  · obtain ⟨hkeeps, hchange⟩ := step_change h.typed h.awaited hevent hG hsurgery hstep
    exact h.change hkeeps hchange

theorem opened_separate (hasTaskRuntime : Bool) (steeringMode followUpMode : QueueMode)
    {session : EntryTree} (hsession : IsAnswered session) :
    (opened hasTaskRuntime steeringMode followUpMode session).Separate where
  typed := ⟨by simp [opened], by simp [opened], by simp [opened], by simp [opened],
    by simp [opened]⟩
  awaited h := by cases h
  quiet h := absurd rfl h
  connected := .inl rfl
  ended := by simp [opened]
  current := by simp [opened]
  allowed := by simp [opened]
  results := hsession

/-- **When runs and changes of the context exclude each other at their start, no run is in progress
while the context is changed, and every message of a run is persisted below those before.** -/
theorem surgery_excludes_runs (hasTaskRuntime : Bool) (steeringMode followUpMode : QueueMode)
    (session : EntryTree) (hsession : IsAnswered session)
    (h : Reaches Activity.step (fun s e => e.IsTyped ∧ s.IsExclusive e)
      (opened hasTaskRuntime steeringMode followUpMode session) s) : s.Excluded := by
  have hseparate : s.Separate := by
    refine reaches_invariant (I := Separate) (opened_separate _ _ _ hsession) ?_ h
    intro u event v hu hG hstep
    exact step_separate hu hG.1 hG.2 hstep
  exact ⟨hseparate.noRun, hseparate.ended, fun run hmem => (hseparate.current run hmem).1,
    hseparate.results⟩

/-! ## Two sessions -/

/-- A response that calls a tool. -/
def calling : AgentMessage :=
  .assistant ⟨some [.toolCall ⟨"call-1", "read", []⟩], "p", "m", .zero, .toolUse, none, 0⟩

/-- The result of the call. -/
def called : AgentMessage :=
  .toolResult ⟨"call-1", "read", some [.text "text"], none, none, none, false, none, none, 0⟩

/-- A run with a tool call, and a compaction after it. -/
def orderlyEvents : List Event :=
  [.prompt request false none true, .decided 0, .ready 0 [], .announced, .persisted,
    .responded calling, .persisted, .responded called, .persisted, .responded response, .persisted,
    .runEnded, .handled 0 false, .finished 0, .compact, .compacted 0 true]

/-- A background wake starts a run while the context is compacted. -/
def wakeEvents : List Event :=
  [.compact, .sendCustomMessage notice .steer true, .announced, .responded response, .runEnded,
    .compacted 0 true]

theorem surgery_excludes_runs_orderly :
    ∃ s, runFrom Activity.step emptySession orderlyEvents = some s ∧ s.runs.length = 1 ∧
      s.session.nodes.length = 5 ∧ s.Excluded := by
  have hrun : (runFrom Activity.step emptySession orderlyEvents).isSome = true := by decide
  obtain ⟨s, hs⟩ := Option.isSome_iff_exists.1 hrun
  have hfacts : (runFrom Activity.step emptySession orderlyEvents).all fun s =>
      Decidable.decide (s.runs.length = 1 ∧ s.session.nodes.length = 5) := by decide
  rw [hs] at hfacts
  obtain ⟨hruns, hentries⟩ := of_decide_eq_true hfacts
  have hexclusive : Along Activity.step (fun s e _ => e.IsTyped ∧ s.IsExclusive e) emptySession
      orderlyEvents := by decide
  have hreach := reaches_of_runFrom orderlyEvents emptySession emptySession s .refl hexclusive hs
  refine ⟨s, hs, hruns, hentries, surgery_excludes_runs false .oneAtATime .oneAtATime .empty ?_ hreach⟩
  intro i result hresult
  cases hresult

/-- **A run that is started while the context is compacted is in progress with the compaction, and
is never persisted.** -/
theorem wake_during_compaction_is_lost :
    ¬ ∀ (hasTaskRuntime : Bool) (steeringMode followUpMode : QueueMode) (session : EntryTree)
      (s : Activity), IsAnswered session →
      Reaches Activity.step (fun _ e => e.IsTyped)
        (opened hasTaskRuntime steeringMode followUpMode session) s → s.Excluded := by
  intro h
  obtain ⟨s, hs, run, hmem, hended, hpersisting, hpersisted⟩ :
      ∃ s, runFrom Activity.step emptySession wakeEvents = some s ∧ ∃ run ∈ s.runs,
        run.ended = [notice, response] ∧ run.persisting = none ∧ run.persisted = [] :=
    ⟨_, rfl, _, mem_singleton.2 rfl, rfl, rfl, rfl⟩
  have htyped : Along Activity.step (fun _ e _ => e.IsTyped) emptySession wakeEvents := by
    decide
  have hreach := reaches_of_runFrom wakeEvents emptySession emptySession s .refl htyped hs
  have hempty : IsAnswered (.empty : EntryTree) := by
    intro i result hresult
    cases hresult
  have hexcluded := h false .oneAtATime .oneAtATime .empty s hempty hreach
  obtain ⟨-, ⟨messages, heq, hvalues⟩, -⟩ := hexcluded.ended run hmem
  rw [hended, hpersisting] at heq
  rw [hpersisted] at hvalues
  have hnil : messages = [] := by simpa using hvalues.symm
  rw [hnil] at heq
  cases heq

end BeauPi.AgentSession.Activity
