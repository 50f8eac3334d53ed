import BeauPi.Harness.Held
import BeauPi.Harness.Phases
import BeauPi.Harness.Writes

/-!
# Queued messages of the agent harness

* `RunStage.step_adds` — what a step of a run adds to the session.
* `Ledger` — the messages queued, cleared and recorded so far.
* `Accounted.step` — a step that keeps the queued messages of all runs leaves them accounted for.
* `accounted_after` — **no queued message is lost while nothing throws where a run holds one, except
  for the notification of a poll whose queue was not replaced**.
-/

namespace BeauPi.Harness

open Llm Sessions List
open Option (bind_eq_some_iff map_eq_some_iff mem_toList some.inj)
open AgentLoop (Loop AgentEvent)
open Harness.System (start)

variable {h h' : AgentHarness} {s s' : System} {moment : Moment} {own run : Nat}

/-! ## Queued messages in the session -/

/-- The messages of entries. -/
def messagesOf (entries : List TreeEntry) : List AgentMessage :=
  entries.filterMap TreeEntry.message?

/-- What the entry of an append says. -/
def Appending.body : Appending → TreeBody
  | .naming body => body
  | .reading _ body => body
  | .writing entry => entry.body

/-- An append that records a message is that of an entry with this message. -/
def Handling.named : Handling → Prop
  | .appending m rest => rest.body = .message m
  | _ => True

/-- The append of a run that records a message is that of an entry with this message. -/
def RunStage.named : RunStage → Prop
  | .looping _ _ handling => handling.named
  | _ => True

theorem named_handleAgentEvent (h : AgentHarness) (event : AgentEvent) :
    (h.handleAgentEvent event).2.named := by
  unfold AgentHarness.handleAgentEvent
  split
  · exact rfl
  · trivial
  · split <;> trivial
  · trivial

theorem named_report (h : AgentHarness) (events : List AgentEvent) :
    (h.report events).2.named := by
  cases events <;> trivial

theorem named_react (h : AgentHarness) (run : Nat) (model : ModelRef) (moment : Moment)
    (stepped : Loop × List AgentEvent) : (h.react run model moment stepped).2.named := by
  unfold AgentHarness.react
  split
  · exact named_handleAgentEvent h _
  · split
    · trivial
    · exact named_report h _
    · trivial

theorem named_resumeLoop (h : AgentHarness) (run : Nat) (loop : Loop) (model : ModelRef)
    (moment : Moment) : (h.resumeLoop run loop model moment).2.named := by
  unfold AgentHarness.resumeLoop
  split
  · exact named_react h run model moment _
  · trivial

variable {handling : Handling} {input : HandlingInput}

theorem Handling.step_named {rest : Handling} (hnamed : handling.named)
    (hs : handling.step h input = some (h', .pending rest)) :
    rest.named := by
  unfold Handling.step at hs
  split at hs
  · obtain ⟨⟨session, at'⟩, hstep, heq⟩ := map_eq_some_iff.1 hs
    cases at' with
    | pending rest =>
      cases heq
      unfold Appending.step at hstep
      split at hstep
      · split at hstep
        · cases hstep
        · cases hstep
          exact hnamed
      · split at hstep <;> cases hstep
        exact hnamed
      · cases hstep
      · cases hstep
      · cases hstep
    | done =>
      cases heq
      trivial
    | threw => cases heq
  · next threw flush _ =>
    obtain ⟨⟨h'', progress⟩, -, heq⟩ := map_eq_some_iff.1 hs
    cases progress with
    | pending rest =>
      cases heq
      trivial
    | done =>
      cases threw <;> cases heq
      trivial
    | threw => cases heq
  · obtain ⟨⟨h'', progress⟩, -, heq⟩ := map_eq_some_iff.1 hs
    cases progress <;> cases heq <;> trivial
  · cases hs
  · cases hs
  · have hturn := some.inj hs
    unfold AgentHarness.flushTurn at hturn
    split at hturn <;> cases hturn <;> trivial
  · have hturn := some.inj hs
    unfold AgentHarness.flushTurn at hturn
    split at hturn <;> cases hturn
    trivial
  · cases hs
    trivial
  · cases hs
  · cases hs

variable {stage : RunStage}

/-- A step of a run keeps that its append records the message of its event. -/
theorem RunStage.step_named {input : RunInput} (hnamed : stage.named) {next : RunStage}
    (hs : stage.step h run moment input = some (h', some next)) :
    next.named := by
  unfold RunStage.step at hs
  split at hs
  · split at hs <;> cases hs <;> trivial
  · cases hs
  · cases hs
    trivial
  · cases hs
  · next turn messages more =>
    have hresume := named_resumeLoop { h with runAbortController := some run } run
      (AgentLoop.runAgentLoop (messages ++ more) turn.messages turn.tools false) turn.model moment
    cases hs
    exact hresume
  · cases hs
  · next loop model handling input =>
    obtain ⟨⟨h'', progress⟩, hstep, heq⟩ := map_eq_some_iff.1 hs
    cases progress with
    | pending rest =>
      cases heq
      exact Handling.step_named hnamed hstep
    | done =>
      have hresume := named_resumeLoop h'' run
        { loop with aborted := h''.aborted.contains run } model moment
      cases heq
      exact hresume
    | threw =>
      have hfail := named_report h'' (failureEvents (createFailureMessage model
        (h''.aborted.contains run) moment.errorMessage moment.now))
      cases heq
      exact hfail
  · next loop model handling input =>
    obtain ⟨next', hstep, heq⟩ := map_eq_some_iff.1 hs
    unfold stepLoop at hstep
    split at hstep
    · obtain ⟨stepped, -, rfl⟩ := map_eq_some_iff.1 hstep
      cases heq
      exact hnamed
    · split at hstep
      · obtain ⟨stepped, -, rfl⟩ := map_eq_some_iff.1 hstep
        have hreact := named_react h run model moment stepped
        cases heq
        exact hreact
      · cases hstep
  · next loop model handling =>
    split at hs
    · cases hs
    · split at hs
      · dsimp only at hs
        split at hs
        · obtain ⟨stepped, -, heq⟩ := bind_eq_some_iff.1 hs
          have hreact := named_react h run model moment stepped
          cases heq
          exact hreact
        · cases hs
          trivial
      · cases hs
  · split at hs
    · cases hs
      cases Flush.next h.pendingSessionWrites <;> trivial
    · cases hs
  · next loop model name array messages more =>
    obtain ⟨stepped, -, heq⟩ := bind_eq_some_iff.1 hs
    have hreact := named_react h run model moment stepped
    cases heq
    exact hreact
  · next loop model name array messages =>
    cases hs
    exact named_report _ _
  · next loop model flush input =>
    obtain ⟨⟨h'', progress⟩, -, heq⟩ := map_eq_some_iff.1 hs
    cases progress <;> cases heq <;> trivial
  · next loop model turn _ =>
    obtain ⟨stepped, -, heq⟩ := bind_eq_some_iff.1 hs
    have hreact := named_react h run turn.model moment stepped
    cases heq
    exact hreact
  · cases hs
    exact named_report _ _
  · next rest handling input =>
    obtain ⟨⟨h'', progress⟩, -, heq⟩ := map_eq_some_iff.1 hs
    cases progress with
    | pending | threw =>
      cases heq
      trivial
    | done =>
      have hreport := named_report h'' rest
      cases heq
      exact hreport
  · obtain ⟨⟨h'', progress⟩, -, heq⟩ := map_eq_some_iff.1 hs
    cases progress <;> cases heq <;> trivial
  · cases hs
  · cases hs

/-- What a step adds to the session, with the messages that it records in order. -/
def Adds (session session' : Storage) (records : List AgentMessage) : Prop :=
  ∃ added, session'.entries = session.entries ++ added ∧
    records.Sublist (messagesOf added)

variable {session session' : Storage}

theorem AppendSteps.adds {append next : Option Appending}
    (hs : AppendSteps session append session' next) : Adds session session' [] := by
  cases hs with
  | written _ => exact ⟨[_], rfl, nil_sublist _⟩
  | _ => exact ⟨[], (append_nil _).symm, nil_sublist _⟩

/-- An append that is done has added its entry. -/
theorem Appending.step_adds {rest : Appending} {m : AgentMessage} (hbody : rest.body = .message m)
    {progress : Progress Appending} (hs : rest.step session .written = some (session', progress)) :
    Adds session session' [m] := by
  cases rest with
  | writing entry =>
    cases hs
    have hmessage : entry.message? = some m := by
      rw [TreeEntry.message?, show entry.body = _ from hbody]
    refine ⟨[entry], rfl, ?_⟩
    rw [messagesOf, filterMap_cons_some hmessage]
    exact List.Sublist.refl _
  | _ => cases hs

theorem Handling.step_adds (hnamed : handling.named) (pc : AgentLoop.PC)
    {progress : Progress Handling} (hs : handling.step h input = some (h', progress)) :
    Adds h.session h'.session (handling.records own pc input) := by
  unfold Handling.records
  split
  · next m rest =>
    obtain ⟨⟨session, at'⟩, hstep, heq⟩ := map_eq_some_iff.1 hs
    obtain ⟨added, hentries, hsub⟩ := Appending.step_adds hnamed hstep
    have hsession : h'.session = session := by cases at' <;> cases heq <;> rfl
    refine ⟨added, hsession ▸ hentries, List.Sublist.trans ?_ hsub⟩
    unfold AgentLoop.PC.recording
    split
    · split
      · exact List.Sublist.refl _
      · exact nil_sublist _
    · exact List.Sublist.refl _
    · exact nil_sublist _
  · exact (Handling.step_append hs).adds

/-- A step of a run adds the queued messages that it records to the session. -/
theorem RunStage.step_adds {input : RunInput} (hnamed : stage.named) {next : Option RunStage}
    (hs : stage.step h run moment input = some (h', next)) :
    Adds h.session h'.session (stage.records own input) := by
  unfold RunStage.records
  split
  · next loop model handling input =>
    obtain ⟨⟨h'', progress⟩, hstep, heq⟩ := map_eq_some_iff.1 hs
    have hadds := @Handling.step_adds _ _ own _ _ hnamed loop.pc _ hstep
    have hsession : h'.session = h''.session := by
      cases progress with
      | pending rest => cases heq; rfl
      | done =>
        have hresume := fresh_resumeLoop h'' run
          { loop with aborted := h''.aborted.contains run } model moment
        cases heq
        exact hresume.1
      | threw =>
        have hfail := fresh_fail h'' run model moment
        cases heq
        exact hfail.1
    rw [hsession]
    exact hadds
  · exact (RunStage.step_append hs).adds

/-! ## Accounts -/

/-- The messages that were queued, those that `abort` has reported as cleared, those that a run has
recorded, and the numbers of the runs' own prompts. -/
structure Ledger where
  queued : List AgentMessage
  cleared : List AgentMessage
  persisted : List AgentMessage
  own : Nat → Nat

/-- The ledger after an action. -/
def Ledger.step (l : Ledger) (s : System) : Action → Ledger
  | .steer m =>
    if s.harness.phase = .idle then l else { l with queued := l.queued ++ [m] }
  | .followUp m =>
    if s.harness.phase = .idle then l else { l with queued := l.queued ++ [m] }
  | .nextTurn m => { l with queued := l.queued ++ [m] }
  | .abort =>
    { l with cleared :=
        l.cleared ++ s.harness.steerQueue.messages ++ s.harness.followUpQueue.messages }
  | .step index (.run input) _ =>
    match s.calls[index]? with
    | some (.run run stage) =>
      { l with
        persisted := l.persisted ++ stage.records (l.own run) input
        own := Function.update l.own run (stage.owned (l.own run) input) }
    | _ => l
  | _ => l

/-- The ledger after a sequence of actions. -/
def Ledger.after (l : Ledger) (s : System) : List Action → Ledger
  | [] => l
  | action :: actions =>
    match s.step action with
    | none => l
    | some s' => (l.step s action).after s' actions

/-- Before any call. -/
def Ledger.empty : Ledger := ⟨[], [], [], fun _ => 0⟩

/-- The queued messages that a call holds. -/
def Call.queued (own : Nat → Nat) : Call → List AgentMessage
  | .run run stage => stage.queued (own run)
  | _ => []

/-- The queued messages that the runs in progress hold. -/
def System.held (s : System) (own : Nat → Nat) : List AgentMessage :=
  s.calls.flatMap (Call.queued own)

/-- Does an action keep the queued messages of all runs? -/
def System.keeps (s : System) (own : Nat → Nat) : Action → Bool
  | .step index (.run input) _ =>
    match s.calls[index]? with
    | some (.run run stage) => stage.keeps s.harness (own run) input
    | _ => true
  | _ => true

/-- All actions of a sequence keep the queued messages. -/
def alwaysKeeps (l : Ledger) (s : System) : List Action → Bool
  | [] => true
  | action :: actions =>
    match s.step action with
    | none => true
    | some s' => s.keeps l.own action && alwaysKeeps (l.step s action) s' actions

/-- Each queued message is in its queue, was cleared, was recorded once, or is held by a run in
progress. -/
structure Accounted (session : Storage) (l : Ledger) (s : System) : Prop where
  books : l.queued.Perm
    (s.harness.waiting ++ l.cleared ++ l.persisted ++ s.held l.own)
  stored : Adds session s.harness.session l.persisted
  named : ∀ run stage, .run run stage ∈ s.calls → stage.named
  nodup : s.runs.Nodup
  old : ∀ run ∈ s.runs, run < s.nextRun

variable {session : Storage} {l l' : Ledger}

theorem Adds.nil (session : Storage) : Adds session session [] :=
  ⟨[], (append_nil _).symm, nil_sublist _⟩

variable {records : List AgentMessage}

theorem Adds.trans {session'' : Storage} {records' : List AgentMessage}
    (h : Adds session session' records) (h' : Adds session' session'' records') :
    Adds session session'' (records ++ records') := by
  obtain ⟨added, hentries, hsub⟩ := h
  obtain ⟨added', hentries', hsub'⟩ := h'
  refine ⟨added ++ added', by rw [hentries', hentries, append_assoc], ?_⟩
  rw [messagesOf, filterMap_append]
  exact hsub.append hsub'

theorem moveTo_adds {id timestamp : String} {entryId : Option String} {summary : Option MoveSummary}
    (hs : session.moveTo id timestamp entryId summary = .ok session') :
    Adds session session' [] := by
  obtain ⟨moved, hmoved, hs⟩ := Machine.bind_eq_ok.1 hs
  have hadds : Adds session moved [] := by
    unfold Storage.setLeafId at hmoved
    split at hmoved
    · split at hmoved
      · cases hmoved
        exact ⟨[_], rfl, nil_sublist _⟩
      · cases hmoved
    · cases hmoved
      exact ⟨[_], rfl, nil_sublist _⟩
  cases summary with
  | none =>
    cases hs
    exact hadds
  | some m =>
    cases hs
    exact hadds.trans ⟨[_], rfl, nil_sublist _⟩

variable {call : Call} {next : Option Call}

/-- A step of a call that is no run. -/
theorem Call.step_other {input : CallInput} (hcall : call.run? = none)
    (hs : call.step h moment input = some (h', next)) :
    h'.waiting = h.waiting ∧ Adds h.session h'.session [] ∧ ∀ c ∈ next, c.run? = none := by
  have hadds : call.isNavigation = false → Adds h.session h'.session [] :=
    fun hnavigation => (Call.step_append hnavigation hs).1.adds
  unfold Call.step at hs
  split at hs
  · cases hcall
  · cases hs
    exact ⟨rfl, Adds.nil _, by simp [Call.run?]⟩
  · have hadds := hadds rfl
    obtain ⟨⟨session, progress⟩, hstep, heq⟩ := map_eq_some_iff.1 hs
    cases progress <;> cases heq <;> exact ⟨rfl, hadds, by simp [Call.run?]⟩
  · cases hs
    exact ⟨rfl, Adds.nil _, by simp⟩
  · cases hs
    exact ⟨rfl, Adds.nil _, by simp⟩
  · split at hs
    · next hmove =>
      cases hs
      exact ⟨rfl, moveTo_adds hmove, by simp [Call.run?]⟩
    · cases hs
      exact ⟨rfl, Adds.nil _, by simp⟩
  · cases hs
    exact ⟨rfl, Adds.nil _, by simp⟩
  · have hadds := hadds rfl
    obtain ⟨⟨session, progress⟩, hstep, heq⟩ := map_eq_some_iff.1 hs
    cases progress <;> cases heq <;> exact ⟨rfl, hadds, by simp [Call.run?]⟩
  · split at hs
    · split at hs
      · cases hs
        exact ⟨rfl, Adds.nil _, by simp⟩
      · cases hs
    · cases hs
      exact ⟨rfl, Adds.nil _, by simp⟩
  · cases hs

variable {pre post : List Call}

/-- A step of a call, with what it records. -/
theorem Accounted.stepCall (ha : Accounted session l s) (hsplit : s.calls = pre ++ call :: post)
    (hcalls : s'.calls = pre ++ next.toList ++ post) (hnextRun : s'.nextRun = s.nextRun)
    (hqueued : l'.queued = l.queued) (hcleared : l'.cleared = l.cleared)
    (hpersisted : l'.persisted = l.persisted ++ records)
    (hown : ∀ c ∈ pre ++ post, c.queued l'.own = c.queued l.own)
    (hmoves : (s'.harness.waiting ++ next.toList.flatMap (Call.queued l'.own) ++ records).Perm
      (s.harness.waiting ++ call.queued l.own))
    (hadds : Adds s.harness.session s'.harness.session records)
    (hnamed : ∀ run stage, Call.run run stage ∈ next → stage.named)
    (hruns : (next.toList.filterMap Call.run?).Sublist call.run?.toList) :
    Accounted session l' s' := by
  have hsub : s'.runs.Sublist s.runs := by
    rw [System.runs, System.runs, hcalls, hsplit, append_assoc, filterMap_append,
      filterMap_append, filterMap_append, filterMap_cons]
    refine (List.Sublist.refl _).append ?_
    cases hrun : call.run? with
    | none =>
      rw [hrun] at hruns
      rw [List.sublist_nil.1 hruns]
      exact List.Sublist.refl _
    | some run =>
      rw [hrun] at hruns
      exact hruns.append (List.Sublist.refl _)
  have hheld : ∀ calls : List Call, (∀ c ∈ calls, c ∈ pre ++ post) →
      calls.flatMap (Call.queued l'.own) = calls.flatMap (Call.queued l.own) := by
    intro calls hcalls
    exact flatMap_congr fun c hc => hown c (hcalls c hc)
  refine ⟨?_, ?_, fun run stage hmem => ?_, ha.nodup.sublist hsub, fun run hrun => ?_⟩
  · have hbooks := ha.books
    rw [perm_iff_count] at hbooks hmoves ⊢
    intro m
    have hm := hmoves m
    rw [hqueued, hbooks m, hcleared, hpersisted, System.held, System.held, hcalls, hsplit]
    simp only [flatMap_append, flatMap_cons, count_append] at hm ⊢
    rw [hheld pre (fun c hc => mem_append_left _ hc),
      hheld post (fun c hc => mem_append_right _ hc)]
    omega
  · rw [hpersisted]
    exact ha.stored.trans hadds
  · rw [hcalls, append_assoc, mem_append, mem_append] at hmem
    rcases hmem with hmem | hmem | hmem
    · exact ha.named run stage (by rw [hsplit]; exact mem_append_left _ hmem)
    · exact hnamed run stage (mem_toList.1 hmem)
    · refine ha.named run stage ?_
      rw [hsplit]
      exact mem_append_right _ (mem_cons_of_mem _ hmem)
  · rw [hnextRun]
    exact ha.old run (hsub.subset hrun)

/-- The number of a run belongs to one call. -/
theorem Accounted.apart (ha : Accounted session l s) {run : Nat}
    (hsplit : s.calls = pre ++ Call.run run stage :: post) (n : Nat) :
    ∀ c ∈ pre ++ post, c.queued (Function.update l.own run n) = c.queued l.own := by
  intro c hc
  cases c with
  | run run' stage' =>
    have hnodup := ha.nodup
    have hrun : (Call.run run stage).run? = some run := rfl
    rw [System.runs, hsplit, filterMap_append, filterMap_cons_some hrun,
      nodup_middle, nodup_cons] at hnodup
    have hmem : run' ∈ pre.filterMap Call.run? ++ post.filterMap Call.run? := by
      rw [← filterMap_append]
      exact List.mem_filterMap.2 ⟨_, hc, rfl⟩
    have hne : run' ≠ run := by
      rintro rfl
      exact hnodup.1 hmem
    change stage'.queued (Function.update l.own run n run') = stage'.queued (l.own run')
    rw [Function.update_of_ne hne]
  | _ => rfl

/-- Steps that touch no call, except that one may be added that holds nothing. -/
theorem Accounted.add (ha : Accounted session l s) (call : Option Call)
    (hsession : s'.harness.session = s.harness.session)
    (hcalls : s'.calls = s.calls ++ call.toList) (hown : l'.own = l.own)
    (hpersisted : l'.persisted = l.persisted) (hheld : call.toList.flatMap (Call.queued l.own) = [])
    (hbooks : (l.queued ++ (s'.harness.waiting ++ l'.cleared)).Perm
      (l'.queued ++ (s.harness.waiting ++ l.cleared)))
    (hnamed : ∀ run stage, Call.run run stage ∈ call → stage.named)
    (hruns : ∀ c ∈ call, ∀ run ∈ c.run?, run = s.nextRun ∧ s.nextRun < s'.nextRun)
    (hnextRun : s.nextRun ≤ s'.nextRun) : Accounted session l' s' := by
  have hrunsEq : s'.runs = s.runs ++ call.toList.filterMap Call.run? := by
    rw [System.runs, System.runs, hcalls, filterMap_append]
  have hadded : ∀ run ∈ call.toList.filterMap Call.run?,
      run = s.nextRun ∧ s.nextRun < s'.nextRun := by
    intro run hrun
    obtain ⟨c, hc, hrun⟩ := List.mem_filterMap.1 hrun
    exact hruns c (mem_toList.1 hc) run hrun
  refine ⟨?_, ?_, fun run stage hmem => ?_, ?_, fun run hrun => ?_⟩
  · have hold := ha.books
    rw [perm_iff_count] at hbooks hold ⊢
    intro m
    have hm := hbooks m
    have holdm := hold m
    rw [System.held, hcalls, hown, hpersisted, flatMap_append, hheld]
    simp only [System.held, count_append, count_nil] at hm holdm ⊢
    omega
  · rw [hsession, hpersisted]
    exact ha.stored
  · rw [hcalls, mem_append] at hmem
    rcases hmem with hmem | hmem
    · exact ha.named run stage hmem
    · exact hnamed run stage (mem_toList.1 hmem)
  · rw [hrunsEq, nodup_append]
    refine ⟨ha.nodup, ?_, fun run hrun other hother => ?_⟩
    · cases call with
      | none => exact nodup_nil
      | some c => cases hc : c.run? <;> simp [hc]
    · have hlt := ha.old run hrun
      have heq := (hadded other hother).1
      omega
  · rw [hrunsEq, mem_append] at hrun
    rcases hrun with hrun | hrun
    · exact Nat.lt_of_lt_of_le (ha.old run hrun) hnextRun
    · obtain ⟨rfl, hlt⟩ := hadded run hrun
      exact hlt

theorem push_waiting (h : AgentHarness) (m : AgentMessage) (name : QueueName) :
    (h.push m name).waiting.Perm (h.waiting ++ [m]) := by
  have hset : (h.push m name).waiting.Perm
      ((h.queue name).messages ++ [m] ++ h.others name) := setQueue_perm h _ name
  have hwaiting := waiting_perm h name
  rw [perm_iff_count] at hset hwaiting ⊢
  intro m'
  rw [hset m', count_append, count_append, count_append, hwaiting m',
    count_append]
  omega

/-- A message that is pushed is queued. -/
theorem Accounted.pushed (ha : Accounted session l s) (m : AgentMessage) (name : QueueName) :
    Accounted session { l with queued := l.queued ++ [m] }
      { s with harness := s.harness.push m name } := by
  have hwaiting := push_waiting s.harness m name
  refine ha.add none (push_session s.harness m name) (append_nil _).symm rfl rfl rfl ?_
    (by simp) (by simp) (Nat.le_refl _)
  rw [perm_iff_count] at hwaiting ⊢
  intro m'
  have hm := hwaiting m'
  simp only [count_append] at hm ⊢
  omega

/-- A call that is no run holds nothing. -/
theorem Call.queued_other (hnone : call.run? = none) (own : Nat → Nat) : call.queued own = [] := by
  cases call with
  | run run stage => cases hnone
  | _ => rfl

/-- The queues stay as they are, and at most a call that is no run is added. -/
theorem Accounted.quiet (ha : Accounted session l s) (call : Option Call)
    (hsession : s'.harness.session = s.harness.session) (hcalls : s'.calls = s.calls ++ call.toList)
    (hwaiting : s'.harness.waiting = s.harness.waiting) (hnextRun : s'.nextRun = s.nextRun)
    (hnone : ∀ c ∈ call, c.run? = none) : Accounted session l s' := by
  refine ha.add call hsession hcalls rfl rfl ?_ (by rw [hwaiting]) (fun run stage hmem => ?_)
    (fun c hc run hrun => ?_) (Nat.le_of_eq hnextRun.symm)
  · exact List.flatMap_eq_nil_iff.2 fun c hc => Call.queued_other (hnone c (mem_toList.1 hc)) _
  · cases hnone _ hmem
  · rw [hnone c hc] at hrun
    cases hrun

/-- `compact` and `navigateTree` start, or reject. -/
theorem Accounted.started (ha : Accounted session l s) (phase : Phase) (hnone : call.run? = none) :
    Accounted session l (s.start phase call) := by
  by_cases hidle : s.harness.phase = .idle
  · exact ha.quiet (some call) (by simp [start, hidle]) (by simp [start, hidle])
      (by simp [start, hidle, AgentHarness.waiting]) (by simp [start, hidle])
      (by simpa using hnone)
  · exact ha.quiet none (by simp [start, hidle]) (by simp [start, hidle]) (by simp [start, hidle])
      (by simp [start, hidle]) (by simp)

/-- A step of a run. -/
theorem Accounted.stepRun (ha : Accounted session l s) {input : RunInput}
    (hsplit : s.calls = pre ++ .run run stage :: post)
    (hkeeps : stage.keeps s.harness (l.own run) input = true)
    (hstep : (Call.run run stage).step s.harness moment (.run input) = some (s'.harness, next))
    (hcalls : s'.calls = pre ++ next.toList ++ post) (hnextRun : s'.nextRun = s.nextRun) :
    Accounted session { l with
      persisted := l.persisted ++ stage.records (l.own run) input
      own := Function.update l.own run (stage.owned (l.own run) input) } s' := by
  obtain ⟨⟨harness, stage'⟩, hrun, heq⟩ := map_eq_some_iff.1 hstep
  have hqueued := RunStage.step_queued hkeeps hrun
  have hnamed := ha.named run stage (by rw [hsplit]; simp)
  have hadds := @RunStage.step_adds _ _ _ (l.own run) _ _ _ hnamed _ hrun
  obtain rfl : harness = s'.harness := congrArg Prod.fst heq
  obtain rfl : stage'.map (Call.run run) = next := congrArg Prod.snd heq
  refine ha.stepCall hsplit hcalls hnextRun rfl rfl rfl (ha.apart hsplit _) ?_ hadds
    (fun run' stage'' hmem => ?_) ?_
  · have hheld : (stage'.map (Call.run run)).toList.flatMap (Call.queued
        (Function.update l.own run (stage.owned (l.own run) input))) =
        queuedNext (stage.owned (l.own run) input) stage' := by
      cases stage' with
      | none => rfl
      | some stage' => simp [Call.queued, queuedNext]
    rw [hheld]
    exact hqueued
  · obtain ⟨stage', rfl, hsame⟩ := map_eq_some_iff.1 hmem
    cases hsame
    exact RunStage.step_named hnamed hrun
  · cases stage' with
    | none => exact nil_sublist _
    | some stage' => exact List.Sublist.refl _

/-- A step of another call. -/
theorem Accounted.stepOther (ha : Accounted session l s) {input : CallInput}
    (hsplit : s.calls = pre ++ call :: post) (hcall : call.run? = none)
    (hstep : call.step s.harness moment input = some (s'.harness, next))
    (hcalls : s'.calls = pre ++ next.toList ++ post) (hnextRun : s'.nextRun = s.nextRun) :
    Accounted session l s' := by
  obtain ⟨hwaiting, hadds, hnone⟩ := Call.step_other hcall hstep
  refine ha.stepCall hsplit hcalls hnextRun rfl rfl (append_nil _).symm (fun _ _ => rfl) ?_ hadds
    (fun run stage hmem => ?_) ?_
  · have hnext : next.toList.flatMap (Call.queued l.own) = [] :=
      List.flatMap_eq_nil_iff.2 fun c hc => Call.queued_other (hnone c (mem_toList.1 hc)) _
    rw [hwaiting, hnext, Call.queued_other hcall, append_nil]
  · cases hnone _ hmem
  · cases next with
    | none => exact nil_sublist _
    | some c => simp [hnone c rfl]

/-- **A step that keeps the queued messages leaves all of them accounted for.** -/
theorem Accounted.step (ha : Accounted session l s) {action : Action}
    (hkeeps : s.keeps l.own action = true) (hs : s.step action = some s') :
    Accounted session (l.step s action) s' := by
  cases action with
  | step index input moment =>
    obtain ⟨pre, call, post, next, hsplit, hcall, hstep, hcalls, hnextRun, -⟩ := System.step_call hs
    cases call with
    | run run stage =>
      cases input with
      | run input =>
        unfold System.keeps at hkeeps
        unfold Ledger.step
        dsimp only at hkeeps ⊢
        rw [hcall] at hkeeps ⊢
        exact ha.stepRun hsplit hkeeps hstep hcalls hnextRun
      | _ => cases hstep
    | _ =>
      have hledger : l.step s (.step index input moment) = l := by
        cases input with
        | run input =>
          unfold Ledger.step
          dsimp only
          rw [hcall]
        | _ => rfl
      rw [hledger]
      exact ha.stepOther hsplit rfl hstep hcalls hnextRun
  | prompt =>
    by_cases hidle : s.harness.phase = .idle
    · obtain rfl := some.inj hs
      refine ha.add (some (.run s.nextRun .creating)) ?_ ?_ rfl rfl rfl ?_ ?_ ?_ ?_
      · simp [start, hidle]
      · simp [start, hidle]
      · simp [start, hidle, AgentHarness.waiting, Ledger.step]
      · intro run stage hmem
        cases hmem
        trivial
      · intro c hc run hrun
        cases hc
        cases hrun
        simp [start, hidle]
      · simp [start, hidle]
    · obtain rfl := some.inj hs
      refine ha.add none ?_ ?_ rfl rfl rfl ?_ (by simp) (by simp) ?_
      · simp [start, hidle]
      · simp [start, hidle]
      · simp [start, hidle, Ledger.step]
      · simp [start, hidle]
  | compact =>
    obtain rfl := some.inj hs
    exact ha.started _ rfl
  | navigateTree =>
    obtain rfl := some.inj hs
    exact ha.started _ rfl
  | steer m | followUp m =>
    unfold System.step at hs
    unfold Ledger.step
    dsimp only at hs ⊢
    split_ifs at hs ⊢
    · obtain rfl := some.inj hs
      exact ha
    · obtain rfl := some.inj hs
      exact ha.pushed m _
  | nextTurn m =>
    obtain rfl := some.inj hs
    refine ha.add none rfl (append_nil _).symm rfl rfl rfl ?_ (by simp) (by simp)
      (Nat.le_refl _)
    rw [perm_iff_count]
    intro m'
    simp only [AgentHarness.waiting, Ledger.step, count_append]
    omega
  | write w =>
    unfold System.step at hs
    dsimp only at hs
    split at hs
    · obtain rfl := some.inj hs
      exact ha.quiet (some (.write w (.naming w.body))) rfl rfl rfl rfl (by simp [Call.run?])
    · obtain rfl := some.inj hs
      exact ha.quiet none rfl (append_nil _).symm rfl rfl (by simp)
  | abort =>
    obtain rfl := some.inj hs
    refine ha.add none rfl (append_nil _).symm rfl rfl rfl ?_ (by simp) (by simp)
      (Nat.le_refl _)
    rw [perm_iff_count]
    intro m
    simp only [AgentHarness.waiting, Ledger.step, count_append, count_nil]
    omega
  | waitForIdle =>
    obtain rfl := some.inj hs
    exact ha.quiet (some (.wait s.harness.runPromise s.runs)) rfl rfl rfl rfl (by simp [Call.run?])

theorem Accounted.after (ha : Accounted session l s) {actions : List Action}
    (hkeeps : alwaysKeeps l s actions = true) (hs : s.after actions = some s') :
    Accounted session (l.after s actions) s' := by
  induction actions generalizing l s with
  | nil =>
    obtain rfl := some.inj hs
    exact ha
  | cons action actions ih =>
    obtain ⟨s'', hstep, hrest⟩ := bind_eq_some_iff.1 hs
    unfold alwaysKeeps at hkeeps
    unfold Ledger.after
    rw [hstep] at hkeeps ⊢
    obtain ⟨hfirst, hlater⟩ := Bool.and_eq_true_iff.1 hkeeps
    exact ih (ha.step hfirst hstep) hlater hrest

theorem accounted_initial (session : Storage) (model : ModelRef)
    (steeringMode followUpMode : QueueMode) :
    Accounted session .empty (.initial session model steeringMode followUpMode) where
  books := List.Perm.refl _
  stored := Adds.nil session
  named := fun run stage hmem => by cases hmem
  nodup := nodup_nil
  old := fun run hrun => by cases hrun

/-- Without a run in progress no queued message is held. -/
theorem held_nil (hruns : s.runs = []) (own : Nat → Nat) : s.held own = [] := by
  refine List.flatMap_eq_nil_iff.2 fun c hc => ?_
  cases c with
  | run run stage =>
    have hmem : run ∈ s.runs := List.mem_filterMap.2 ⟨_, hc, rfl⟩
    rw [hruns] at hmem
    cases hmem
  | _ => rfl

/-- **While nothing throws where a run holds a queued message, each queued message is in its queue,
was cleared by `abort`, was recorded in the session exactly once, or is held by a run in progress;
after the runs it is one of the first three.** -/
theorem accounted_after (session : Storage) (model : ModelRef)
    (steeringMode followUpMode : QueueMode) {actions : List Action}
    (hkeeps : alwaysKeeps .empty (.initial session model steeringMode followUpMode) actions = true)
    (hs : (System.initial session model steeringMode followUpMode).after actions = some s') :
    ∃ l : Ledger,
      l = Ledger.empty.after (.initial session model steeringMode followUpMode) actions ∧
      l.queued.Perm (s'.harness.waiting ++ l.cleared ++ l.persisted ++ s'.held l.own) ∧
      Adds session s'.harness.session l.persisted ∧ (s'.runs = [] → s'.held l.own = []) := by
  have ha := (accounted_initial session model steeringMode followUpMode).after hkeeps hs
  exact ⟨_, rfl, ha.books, ha.stored, fun hruns => held_nil hruns _⟩

/-- A message for the next turn. -/
def someNote : AgentMessage := .user ⟨some (.str "note"), 0⟩

/-- A prompt after a message for the next turn, up to the hook `before_agent_start`. -/
def promptWithNote : List Action :=
  [.nextTurn someNote, .prompt, runStep (.created someTurn (.user ⟨some (.str "hi"), 0⟩)),
    runStep (.resume [])]

/-- The message for the next turn is recorded. -/
def noteRecorded : List Action :=
  promptWithNote ++ [runStep (.resume []), listened, listened, listened] ++ recorded "a"

/-- The message is recorded once. -/
theorem accounted_after_noteRecorded :
    ∃ s', (System.initial (.ofEntries []) ⟨"p", "m"⟩ .all .all).after noteRecorded = some s' ∧
      ∃ l : Ledger,
        l = Ledger.empty.after (.initial (.ofEntries []) ⟨"p", "m"⟩ .all .all) noteRecorded ∧
        l.queued.Perm (s'.harness.waiting ++ l.cleared ++ l.persisted ++ s'.held l.own) ∧
        Adds (.ofEntries []) s'.harness.session l.persisted ∧
        (s'.runs = [] → s'.held l.own = []) := by
  have hafter : ((System.initial (.ofEntries []) ⟨"p", "m"⟩ .all .all).after
      noteRecorded).isSome = true := by decide
  obtain ⟨s', hs⟩ := Option.isSome_iff_exists.1 hafter
  exact ⟨s', hs, accounted_after (.ofEntries []) ⟨"p", "m"⟩ .all .all (by decide) hs⟩

/-- The hook `before_agent_start` throws, and the message is lost. -/
theorem note_lost : ¬∀ (session : Storage) (model : ModelRef) (mode : QueueMode)
    (actions : List Action) (s' : System),
    (System.initial session model mode mode).after actions = some s' → s'.runs = [] →
    ∃ l : Ledger, l = Ledger.empty.after (.initial session model mode mode) actions ∧
      ∃ persisted, l.queued.Perm (s'.harness.waiting ++ l.cleared ++ persisted) ∧
        Adds session s'.harness.session persisted := by
  intro h
  obtain ⟨l, rfl, persisted, hbooks, added, hentries, hsub⟩ :=
    h (.ofEntries []) ⟨"p", "m"⟩ .all (promptWithNote ++ [runStep .rejects]) _ rfl rfl
  obtain rfl : [] = added := hentries
  obtain rfl := List.sublist_nil.1 hsub
  have hlength := hbooks.length_eq
  exact absurd hlength (by decide)

end BeauPi.Harness
