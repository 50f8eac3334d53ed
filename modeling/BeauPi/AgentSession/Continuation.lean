import BeauPi.AgentSession.Recovery
import BeauPi.Sessions.Paths
import Mathlib.Data.List.Chain
import Mathlib.Tactic.Common

/-!
# What automatic recovery continues from

* `Turn`, `ValidRun` — the messages of a run of the agent.
* `AfterRun` — the states after the runs of one call of `_runAgentPrompt`.
* `CanContinue` — `agent.continue` does not throw.
* `Meets`, `ErrorsOnly` — the condition under which recovery goes on and ends.
* `recovery_continues` — it continues from a message that is not an assistant's, or from a queued
  one, and ends after at most `2 * maxRetries + 1` continuations.
-/

namespace BeauPi.AgentSession

open Llm Sessions AgentLoop Compaction List

/-! ## Runs of the agent -/

/-- A turn: what is announced before the response, the response, and the results of its calls. -/
structure Turn where
  injected : List (AgentMessage × Stamp)
  response : AssistantMessage × Stamp
  results : List (ToolResultMessage × Stamp)
  deriving DecidableEq, Repr

/-- The messages of a turn. -/
def Turn.messages (turn : Turn) : List (AgentMessage × Stamp) :=
  turn.injected ++ (.assistant turn.response.1, turn.response.2) ::
    turn.results.map fun result => (.toolResult result.1, result.2)

/-- The messages of a run. -/
def runMessages (run : List Turn) : List (AgentMessage × Stamp) := run.flatMap Turn.messages

/-- Did a response end in an error, or was it aborted?  A run ends then. -/
def Turn.fails (turn : Turn) : Bool :=
  turn.response.1.stopReason = .error || turn.response.1.stopReason = .aborted

/-- A run that starts with some messages: every response follows a message that is not an
assistant's, and a failed response ends the run. -/
structure ValidRun (messages : List AgentMessage) (run : List Turn) : Prop where
  nonempty : run ≠ []
  injected : ∀ turn ∈ run, ∀ message ∈ turn.injected, message.1.isAssistant = false
  begins : ∀ turn ∈ run.head?, turn.injected = [] →
    ∃ last, messages.getLast? = some last ∧ last.isAssistant = false
  connected : run.IsChain fun turn next => turn.results ≠ [] ∨ next.injected ≠ []
  ends : ∀ turn ∈ run.dropLast, turn.fails = false
  unanswered : ∀ turn ∈ run, turn.fails = true → turn.results = []

/-! ## The states after runs -/

section States

variable (config : Config)

/-- Is a response neither an error nor an overflow? -/
def isGood (message : AssistantMessage) : Bool :=
  message.stopReason ≠ .error && !isContextOverflow config message config.contextWindow

/-- Does a run have a good response, or a message that was queued? -/
def breaks (run : List Turn) : Bool :=
  run.any fun turn => isGood config turn.response.1 || !turn.injected.isEmpty

/-- An overflow that is no error is not recovered from, and has no results. -/
def ErrorsOnly (run : List Turn) : Prop :=
  ∀ turn ∈ run, isContextOverflow config turn.response.1 config.contextWindow = true →
    turn.response.1.stopReason = .error ∨
      isRecoverable config turn.response.1 = false ∧ turn.results = []

/-- The kept messages of a compaction, without a last one that ended in an error. -/
def keptMessages (path : List SessionEntry) (firstKeptEntryId : String) : List AgentMessage :=
  dropLastIf isErroredAssistant
    ((keptFrom firstKeptEntryId path).flatMap sessionEntryToContextMessages)

/-- Do messages end with one of an assistant? -/
def endsWithAssistant (messages : List AgentMessage) : Bool :=
  messages.getLast?.any (·.isAssistant)

/-- A compaction has a new id, and if it is to recover from an overflow, the kept messages do not
end with one of an assistant. -/
structure Meets (session : LiveSession) (post : LiveSession.PostRun) : Prop where
  fresh : ∀ data stamp, post.compaction = some (data, stamp) →
    ∀ entry ∈ session.path, entry.id ≠ stamp.id
  kept : ∀ message data stamp, session.lastAssistantMessage = some message →
    isRecoverable config message = true → session.overflowRecoveryAttempted = false →
    session.isFromBeforeCompaction message = false → post.compaction = some (data, stamp) →
    endsWithAssistant (keptMessages session.path data.firstKeptEntryId) = false

/-- The states after the runs of a call of `_runAgentPrompt`, with the number of continuations since
the last good response or queued message. -/
inductive AfterRun : LiveSession → Nat → Prop
  | prompt (session : LiveSession) (run : List Turn) (valid : ValidRun session.messages run)
    (prompts : ∀ turn ∈ run.head?, turn.injected ≠ []) (errorsOnly : ErrorsOnly config run) :
    AfterRun (session.receiveAll (runMessages run)) 0
  | continued {session : LiveSession} {n : Nat} (after : AfterRun session n)
    (post : LiveSession.PostRun) (meets : Meets config session post)
    (continues : (session.handlePostAgentRun config post).2 = true) (run : List Turn)
    (valid : ValidRun (session.handlePostAgentRun config post).1.messages run)
    (errorsOnly : ErrorsOnly config run) :
    AfterRun ((session.handlePostAgentRun config post).1.receiveAll (runMessages run))
      (if breaks config run || post.queued then 0 else n + 1)

end States

/-- `agent.continue` does not throw: there is a message, and the last one is not an assistant's or a
message is queued. -/
def CanContinue (messages : List AgentMessage) (queued : Bool) : Prop :=
  messages ≠ [] ∧ (endsWithAssistant messages = false ∨ queued = true)

/-! ## Lists of messages -/

section Lists

variable {messages : List AgentMessage} {kind : AgentMessage → Bool}

variable {message : AgentMessage}

theorem dropLastIf_concat (h : kind message = true) :
    dropLastIf kind (messages ++ [message]) = messages := by
  simp [dropLastIf, h]

theorem dropLastIf_of_not (h : kind message = false) :
    dropLastIf kind (messages ++ [message]) = messages ++ [message] := by
  simp [dropLastIf, h]

/-- A message that stays is put in front. -/
theorem dropLastIf_cons (h : kind message = false) :
    dropLastIf kind (message :: messages) = message :: dropLastIf kind messages := by
  rcases eq_nil_or_concat messages with rfl | ⟨rest, last, rfl⟩
  · simp [dropLastIf, h]
  · rw [concat_eq_append, ← cons_append]
    cases hkind : kind last with
    | true => rw [dropLastIf_concat hkind, dropLastIf_concat hkind]
    | false => rw [dropLastIf_of_not hkind, dropLastIf_of_not hkind, cons_append]

@[simp] theorem endsWithAssistant_nil : endsWithAssistant [] = false := rfl

theorem endsWithAssistant_cons (h : message.isAssistant = false)
    (hrest : endsWithAssistant messages = false) :
    endsWithAssistant (message :: messages) = false := by
  cases messages with
  | nil => simpa [endsWithAssistant] using h
  | cons next rest => simpa [endsWithAssistant] using hrest

@[simp] theorem endsWithAssistant_concat (message : AgentMessage) :
    endsWithAssistant (messages ++ [message]) = message.isAssistant := by
  simp [endsWithAssistant]

end Lists

/-! ## Messages that are received -/

namespace LiveSession

section Receive

variable (session : LiveSession) (message : AgentMessage) (stamp : Stamp)

@[simp] theorem persist_messages :
    (session.persist message stamp).messages = session.messages := by
  unfold persist
  split <;> rfl

@[simp] theorem persist_retryAttempt :
    (session.persist message stamp).retryAttempt = session.retryAttempt := by
  unfold persist
  split <;> rfl

@[simp] theorem persist_overflowRecoveryAttempted :
    (session.persist message stamp).overflowRecoveryAttempted =
      session.overflowRecoveryAttempted := by
  unfold persist
  split <;> rfl

@[simp] theorem persist_lastAssistantMessage :
    (session.persist message stamp).lastAssistantMessage = session.lastAssistantMessage := by
  unfold persist
  split <;> rfl

@[simp] theorem receive_messages :
    (session.receive (message, stamp)).messages = session.messages ++ [message] := by
  cases message with
  | assistant response =>
    unfold receive handleMessageEnd
    dsimp only
    split <;> simp [handleMessageStart]
  | _ => simp [receive, handleMessageEnd, handleMessageStart]

/-- Messages that are received are pushed. -/
theorem receiveAll_messages (messages : List (AgentMessage × Stamp)) :
    (session.receiveAll messages).messages = session.messages ++ messages.map (·.1) := by
  induction messages generalizing session with
  | nil => simp [receiveAll]
  | cons message messages ih =>
    have hrest := ih (session.receive message)
    simp only [receiveAll, foldl_cons] at hrest ⊢
    rw [hrest, receive_messages, map_cons, append_assoc, singleton_append]

theorem receiveAll_append (first second : List (AgentMessage × Stamp)) :
    session.receiveAll (first ++ second) = (session.receiveAll first).receiveAll second := by
  simp [receiveAll]

/-- What recovery knows is the same, but that a user message takes the mark of a recovery away. -/
structure Kept (session next : LiveSession) : Prop where
  last : next.lastAssistantMessage = session.lastAssistantMessage
  retryAttempt : next.retryAttempt = session.retryAttempt
  recovery : next.overflowRecoveryAttempted = true → session.overflowRecoveryAttempted = true

variable {session message} {next : LiveSession}

theorem Kept.refl : Kept session session := ⟨rfl, rfl, id⟩

theorem Kept.trans {third : LiveSession} (h : Kept session next) (h' : Kept next third) :
    Kept session third :=
  ⟨h'.last.trans h.last, h'.retryAttempt.trans h.retryAttempt,
    fun hr => h.recovery (h'.recovery hr)⟩

theorem receive_kept (h : message.isAssistant = false) :
    Kept session (session.receive (message, stamp)) := by
  cases message with
  | assistant response => cases h
  | user _ => constructor <;> simp [receive, handleMessageEnd, handleMessageStart]
  | _ => constructor <;> simp [receive, handleMessageEnd, handleMessageStart]

theorem receiveAll_kept {messages : List (AgentMessage × Stamp)}
    (h : ∀ message ∈ messages, message.1.isAssistant = false) :
    Kept session (session.receiveAll messages) := by
  induction messages generalizing session with
  | nil => exact .refl
  | cons message messages ih =>
    have hfirst : Kept session (session.receive message) :=
      receive_kept message.2 (h message (mem_cons_self))
    exact hfirst.trans (ih fun m hm => h m (mem_cons_of_mem _ hm))

/-- A response that is an error leaves the state of recovery, and any other one resets it. -/
theorem receive_response (session : LiveSession) (response : AssistantMessage) (stamp : Stamp) :
    (session.receive (.assistant response, stamp)).lastAssistantMessage = some response ∧
      (response.stopReason = .error →
        (session.receive (.assistant response, stamp)).retryAttempt = session.retryAttempt ∧
        (session.receive (.assistant response, stamp)).overflowRecoveryAttempted =
          session.overflowRecoveryAttempted) := by
  unfold receive handleMessageEnd
  dsimp only
  by_cases h : response.stopReason = .error <;> simp [h, handleMessageStart]

end Receive

end LiveSession

/-! ## After a run -/

section Runs

variable {config : Config} {messages : List AgentMessage} {init : List Turn} {turn : Turn}

theorem endsWithAssistant_append {rest : List AgentMessage} (hne : rest ≠ [])
    (h : ∀ message ∈ rest, message.isAssistant = false) :
    endsWithAssistant (messages ++ rest) = false := by
  obtain ⟨rest, last, rfl⟩ := (eq_nil_or_concat rest).resolve_left hne
  have hlast : last.isAssistant = false := h last (by simp)
  rw [concat_eq_append, ← append_assoc, endsWithAssistant_concat, hlast]

/-- What the agent sends when it asks for the last response of a run. -/
def sentLast (messages : List AgentMessage) (init : List Turn) (turn : Turn) : List AgentMessage :=
  messages ++ (runMessages init ++ turn.injected).map (·.1)

/-- **The last response of a run follows a message that is not an assistant's.** -/
theorem ValidRun.sentLast (h : ValidRun messages (init ++ [turn])) :
    sentLast messages init turn ≠ [] ∧ endsWithAssistant (sentLast messages init turn) = false := by
  unfold AgentSession.sentLast
  by_cases hinjected : turn.injected = []
  · rw [hinjected, append_nil]
    rcases eq_nil_or_concat init with rfl | ⟨init, previous, rfl⟩
    · obtain ⟨last, hlast, hnot⟩ := h.begins turn (by simp) hinjected
      constructor
      · intro hnil
        simp only [runMessages, flatMap_nil, map_nil, append_nil] at hnil
        simp [hnil] at hlast
      · simp [runMessages, endsWithAssistant, hlast, hnot]
    · -- the turn before has results, which stand at the end
      have hresults : previous.results ≠ [] := by
        have hchain := h.connected
        rw [concat_eq_append, append_assoc, singleton_append,
          isChain_append_cons_cons] at hchain
        exact hchain.2.1.resolve_right (absurd hinjected)
      have hmap : (runMessages (init.concat previous)).map (·.1) =
          (runMessages init ++ previous.injected).map (·.1) ++
            (.assistant previous.response.1 ::
              previous.results.map fun result => .toolResult result.1) := by
        simp [runMessages, Turn.messages, Function.comp_def]
      rw [hmap, append_cons, ← append_assoc, ← append_assoc]
      refine ⟨by simp, endsWithAssistant_append (by simpa using hresults) ?_⟩
      simp only [mem_map]
      rintro _ ⟨result, _, rfl⟩
      rfl
  · have hturn := h.injected turn (by simp)
    rw [map_append, ← append_assoc]
    refine ⟨by simp [hinjected], endsWithAssistant_append (by simpa using hinjected) ?_⟩
    simp only [mem_map]
    rintro _ ⟨message, hmem, rfl⟩
    exact hturn message hmem

/-- The messages after a run. -/
theorem receiveAll_run (session : LiveSession) :
    (session.receiveAll (runMessages (init ++ [turn]))).messages =
      sentLast session.messages init turn ++ .assistant turn.response.1 ::
        turn.results.map fun result => .toolResult result.1 := by
  simp [LiveSession.receiveAll_messages, sentLast, runMessages, Turn.messages, Function.comp_def]

/-- The last response of a run is the one that recovery looks at. -/
theorem receiveAll_last (session : LiveSession) :
    (session.receiveAll (runMessages (init ++ [turn]))).lastAssistantMessage =
      some turn.response.1 := by
  have hsplit : runMessages (init ++ [turn]) =
      (runMessages init ++ turn.injected) ++ [(.assistant turn.response.1, turn.response.2)] ++
        turn.results.map fun result => (.toolResult result.1, result.2) := by
    simp [runMessages, Turn.messages]
  rw [hsplit, LiveSession.receiveAll_append, LiveSession.receiveAll_append]
  rw [(LiveSession.receiveAll_kept _).last]
  · exact (LiveSession.receive_response _ _ _).1
  · simp only [mem_map]
    rintro _ ⟨result, _, rfl⟩
    rfl

/-- **A run without a good response and without queued messages has one turn.** -/
theorem ValidRun.single {run : List Turn} (h : ValidRun messages run)
    (herrors : ErrorsOnly config run) (hbreaks : breaks config run = false) :
    ∃ turn, run = [turn] ∧ turn.injected = [] := by
  have hturn : ∀ turn ∈ run, isGood config turn.response.1 = false ∧ turn.injected = [] := by
    intro turn hmem
    have := (any_eq_false.1 hbreaks) turn hmem
    simpa using this
  match run, h with
  | [], h => exact absurd rfl h.nonempty
  | [turn], _ => exact ⟨turn, rfl, (hturn turn (by simp)).2⟩
  | turn :: next :: rest, h =>
    exfalso
    have hfails : turn.fails = false := h.ends turn (by simp)
    have herror : turn.response.1.stopReason ≠ .error := by
      intro heq
      simp [Turn.fails, heq] at hfails
    have hoverflow : isContextOverflow config turn.response.1 config.contextWindow = true := by
      have hgood := (hturn turn (by simp)).1
      simpa [isGood, herror] using hgood
    have hresults : turn.results = [] :=
      ((herrors turn (by simp) hoverflow).resolve_left herror).2
    have hnext : next.injected = [] := (hturn next (by simp)).2
    have hconnected := (isChain_cons_cons.1 h.connected).1
    rcases hconnected with hne | hne
    · exact hne hresults
    · exact hne hnext

end Runs

/-! ## What recovery does -/

/-- The entries of the context, after a compaction with a new id. -/
theorem contextEntries_compaction {path : List SessionEntry} {entry : SessionEntry}
    {data : CompactionData} (hdata : entry.compaction? = some data)
    (hfresh : ∀ e ∈ path, e.id ≠ entry.id) :
    contextEntries (path ++ [entry]) = entry :: keptFrom data.firstKeptEntryId path := by
  have hlast : lastCompaction? (path ++ [entry]) = some entry := by
    simp [lastCompaction?, isCompaction_of_data hdata]
  have hnone : path.findIdx? (fun e => decide (e.id = entry.id)) = none := by
    rw [findIdx?_eq_none_iff]
    intro e he
    simpa using hfresh e he
  have hfind : (path ++ [entry]).findIdx? (fun e => decide (e.id = entry.id)) =
      some path.length := by
    simp [findIdx?_append, hnone, findIdx?_cons]
  unfold contextEntries
  rw [hlast]
  simp only [hdata, hfind]
  simp

namespace LiveSession

section Recovery

variable {config : Config} {session : LiveSession} {post : PostRun} {message : AssistantMessage}
  {willRetry : Bool}

@[simp] theorem runAutoCompaction_retryAttempt :
    (session.runAutoCompaction config post willRetry).1.retryAttempt = session.retryAttempt := by
  unfold runAutoCompaction
  split
  · split <;> rfl
  · rfl

@[simp] theorem runAutoCompaction_overflowRecoveryAttempted :
    (session.runAutoCompaction config post willRetry).1.overflowRecoveryAttempted =
      session.overflowRecoveryAttempted := by
  unfold runAutoCompaction
  split
  · split <;> rfl
  · rfl

/-- A compaction that is not to be followed by a retry continues with queued messages only. -/
theorem runAutoCompaction_continues
    (h : (session.runAutoCompaction config post false).2 = true) : post.queued = true := by
  unfold runAutoCompaction at h
  split at h
  · simpa using h
  · cases h

/-- The messages after a compaction are as before, or its summary and what it keeps. -/
theorem runAutoCompaction_messages
    (hfresh : ∀ data stamp, post.compaction = some (data, stamp) →
      ∀ entry ∈ session.path, entry.id ≠ stamp.id) :
    session.runAutoCompaction config post willRetry = (session, false) ∨
      ∃ data stamp summary, post.compaction = some (data, stamp) ∧
        summary.isAssistant = false ∧
        (session.runAutoCompaction config post willRetry).1.messages = summary ::
          if willRetry then keptMessages session.path data.firstKeptEntryId
          else (keptFrom data.firstKeptEntryId session.path).flatMap
            sessionEntryToContextMessages := by
  unfold runAutoCompaction
  cases hmodel : config.model with
  | none => exact .inl rfl
  | some model =>
    cases hcompaction : post.compaction with
    | none => exact .inl rfl
    | some result =>
      obtain ⟨data, stamp⟩ := result
      have hcontext : contextMessages (session.append (.compaction data) stamp).path =
          createCompactionSummaryMessage data.summary data.tokensBefore stamp.timestamp ::
            (keptFrom data.firstKeptEntryId session.path).flatMap
              sessionEntryToContextMessages := by
        unfold contextMessages append
        dsimp only
        rw [contextEntries_compaction rfl (hfresh data stamp hcompaction), flatMap_cons]
        rfl
      refine .inr ⟨data, stamp,
        createCompactionSummaryMessage data.summary data.tokensBefore stamp.timestamp, rfl, rfl, ?_⟩
      cases willRetry with
      | false => simpa using hcontext
      | true =>
        simp only [if_true, hcontext]
        exact dropLastIf_cons rfl

/-- Recovery from an overflow starts: the response is removed, and the attempt is marked. -/
def startRecovery (session : LiveSession) : LiveSession :=
  { session with
    overflowRecoveryAttempted := true
    messages := dropLastIf (·.isAssistant) session.messages }

/-- The check for a compaction does nothing, compacts, or recovers from an overflow. -/
theorem checkCompaction_cases (config : Config) (session : LiveSession) (post : PostRun)
    (message : AssistantMessage) (skip : Bool) :
    session.checkCompaction config post message skip = (session, false) ∨
      session.checkCompaction config post message skip =
        session.runAutoCompaction config post false ∨
      isRecoverable config message = true ∧ session.overflowRecoveryAttempted = false ∧
        session.isFromBeforeCompaction message = false ∧
        session.checkCompaction config post message skip =
          session.startRecovery.runAutoCompaction config post true := by
  unfold checkCompaction
  split
  · exact .inl rfl
  next henabled =>
    split
    · exact .inl rfl
    · split
      · exact .inl rfl
      next hstale =>
        split
        next hoverflow =>
          split
          · exact .inr (.inl rfl)
          next hstop =>
            split
            · exact .inl rfl
            next hattempted =>
              refine .inr (.inr ⟨?_, by simpa using hattempted, by simpa using hstale, rfl⟩)
              simp only [Bool.and_eq_true] at hoverflow
              simp [isRecoverable, hoverflow.1, hoverflow.2, hstop, by simpa using henabled]
        · split
          · exact .inr (.inl rfl)
          · exact .inl rfl

/-- A retry is the next one of those that are allowed. -/
theorem prepareRetry_cases (config : Config) (session : LiveSession) (post : PostRun) :
    session.prepareRetry config post = (session, false) ∨
      session.prepareRetry config post =
        ({ session with
            messages := dropLastIf (·.isAssistant) session.messages, retryAttempt := 0 }, false) ∨
      session.retryAttempt + 1 ≤ config.retry.maxRetries ∧
        session.prepareRetry config post =
          ({ session with
              messages := dropLastIf (·.isAssistant) session.messages
              retryAttempt := session.retryAttempt + 1 }, true) := by
  unfold prepareRetry
  split
  · exact .inl rfl
  · split
    · exact .inl rfl
    next hmax =>
      split
      · exact .inr (.inl rfl)
      · exact .inr (.inr ⟨by omega, rfl⟩)

/-- The session for the check of `settle`. -/
def forgetRetries (session : LiveSession) (message : AssistantMessage) : LiveSession :=
  if message.stopReason = .error then { session with retryAttempt := 0 } else session

@[simp] theorem forgetRetries_messages :
    (session.forgetRetries message).messages = session.messages := by
  unfold forgetRetries
  split <;> rfl

@[simp] theorem forgetRetries_path : (session.forgetRetries message).path = session.path := by
  unfold forgetRetries
  split <;> rfl

@[simp] theorem forgetRetries_overflowRecoveryAttempted :
    (session.forgetRetries message).overflowRecoveryAttempted =
      session.overflowRecoveryAttempted := by
  unfold forgetRetries
  split <;> rfl

theorem settle_eq : session.settle config post message =
    (((session.forgetRetries message).checkCompaction config post message true).1,
      ((session.forgetRetries message).checkCompaction config post message true).2 ||
        post.queued) := rfl

/-- **Settling a run continues from a message that is not an assistant's, or from a queued one.** -/
theorem settle_canContinue (hne : session.messages ≠ [])
    (hrest : isRecoverable config message = true →
      dropLastIf (·.isAssistant) session.messages ≠ [])
    (hfresh : ∀ data stamp, post.compaction = some (data, stamp) →
      ∀ entry ∈ session.path, entry.id ≠ stamp.id)
    (hkept : ∀ data stamp, isRecoverable config message = true →
      session.overflowRecoveryAttempted = false → session.isFromBeforeCompaction message = false →
      post.compaction = some (data, stamp) →
      endsWithAssistant (keptMessages session.path data.firstKeptEntryId) = false)
    (h : (session.settle config post message).2 = true) :
    CanContinue (session.settle config post message).1.messages post.queued := by
  rw [settle_eq] at h ⊢
  rcases checkCompaction_cases config (session.forgetRetries message) post message true with
    heq | heq | ⟨hrecoverable, hattempted, hstale, heq⟩
  · rw [heq] at h ⊢
    exact ⟨by simpa using hne, .inr (by simpa using h)⟩
  · rw [heq] at h ⊢
    have hqueued : post.queued = true := by
      rcases Bool.or_eq_true_iff.1 h with hcontinues | hqueued
      · exact runAutoCompaction_continues hcontinues
      · exact hqueued
    refine ⟨?_, .inr hqueued⟩
    rcases @runAutoCompaction_messages config (session.forgetRetries message) post false (by simpa
      using hfresh) with
      hsame | ⟨data, stamp, summary, _, _, hmessages⟩
    · simpa [hsame] using hne
    · simp [hmessages]
  · rw [heq] at h ⊢
    have hpath : (session.forgetRetries message).startRecovery.path = session.path := by
      simp [startRecovery]
    rcases @runAutoCompaction_messages config (session.forgetRetries message).startRecovery post
      true (by simpa [hpath] using hfresh) with
      hsame | ⟨data, stamp, summary, hcompaction, hsummary, hmessages⟩
    · rw [hsame] at h ⊢
      refine ⟨?_, .inr (by simpa using h)⟩
      simpa [startRecovery] using hrest hrecoverable
    · have hend : endsWithAssistant (keptMessages session.path data.firstKeptEntryId) = false := by
        refine hkept data stamp hrecoverable (by simpa using hattempted) ?_ hcompaction
        unfold isFromBeforeCompaction at hstale ⊢
        simpa using hstale
      rw [hpath, if_pos rfl] at hmessages
      rw [hmessages]
      exact ⟨by simp, .inl (endsWithAssistant_cons hsummary hend)⟩

/-- What is left of the continuations that are allowed. -/
def budget (config : Config) (session : LiveSession) : Nat :=
  config.retry.maxRetries - session.retryAttempt +
    if session.overflowRecoveryAttempted then 0 else config.retry.maxRetries + 1

theorem budget_le : budget config session ≤ 2 * config.retry.maxRetries + 1 := by
  unfold budget
  split <;> omega

/-- Settling a run that failed continues without queued messages for one recovery from an
overflow. -/
theorem settle_budget (herror : message.stopReason = .error) (hqueued : post.queued = false)
    (h : (session.settle config post message).2 = true) :
    budget config (session.settle config post message).1 + 1 ≤ budget config session := by
  rw [settle_eq] at h ⊢
  rcases checkCompaction_cases config (session.forgetRetries message) post message true with
    heq | heq | ⟨-, hattempted, -, heq⟩
  · simp [heq, hqueued] at h
  · rw [heq, hqueued, Bool.or_false] at h
    have := runAutoCompaction_continues h
    simp [hqueued] at this
  · have hbefore : session.overflowRecoveryAttempted = false := by simpa using hattempted
    have hretries : (session.forgetRetries message).retryAttempt = 0 := by
      simp [forgetRetries, herror]
    rw [heq]
    simp only [budget, runAutoCompaction_retryAttempt, runAutoCompaction_overflowRecoveryAttempted,
      startRecovery, hretries, hbefore]
    simp

/-- A run is not continued but for a response that is recovered from, or for queued messages. -/
theorem settle_recoverable (hqueued : post.queued = false)
    (h : (session.settle config post message).2 = true) :
    isRecoverable config message = true := by
  rw [settle_eq] at h
  rcases checkCompaction_cases config (session.forgetRetries message) post message true with
    heq | heq | ⟨hrecoverable, -, -, -⟩
  · simp [heq, hqueued] at h
  · rw [heq, hqueued, Bool.or_false] at h
    have := runAutoCompaction_continues h
    simp [hqueued] at this
  · exact hrecoverable

end Recovery

end LiveSession

/-! ## The states after runs -/

section Invariant

variable {config : Config} {session : LiveSession} {n : Nat} {message : AssistantMessage}

theorem isRetryableError_error (h : isRetryableError config message = true) :
    message.stopReason = .error := by
  unfold isRetryableError errorMatches at h
  simp only [Bool.and_eq_true] at h
  obtain ⟨-, h⟩ := h
  split at h
  · simp only [Bool.and_eq_true, decide_eq_true_eq] at h
    exact h.1.1
  · cases h

theorem isRecoverable_overflow (h : isRecoverable config message = true) :
    isContextOverflow config message config.contextWindow = true := by
  unfold isRecoverable at h
  simp only [Bool.and_eq_true] at h
  exact h.1.2

theorem isRetryableError_not_recoverable (h : isRetryableError config message = true) :
    isRecoverable config message = false := by
  cases hrecoverable : isRecoverable config message with
  | false => rfl
  | true => simp [isRetryableError, isRecoverable_overflow hrecoverable] at h

variable (config session n) in
/-- What holds after a run: a failed response can be removed, only a failed one is recovered from,
and the continuations that were made and those that are left are as many as are allowed. -/
structure Recovers : Prop where
  nonempty : session.messages ≠ []
  removable : ∀ message, session.lastAssistantMessage = some message → message.stopReason = .error →
    ∃ rest, session.messages = rest ++ [.assistant message] ∧ rest ≠ [] ∧
      endsWithAssistant rest = false
  errors : ∀ message, session.lastAssistantMessage = some message →
    isRecoverable config message = true → message.stopReason = .error
  bound : n ≤ 2 * config.retry.maxRetries + 1
  budget : ∀ message, session.lastAssistantMessage = some message → message.stopReason = .error →
    n + session.budget config ≤ 2 * config.retry.maxRetries + 1

/-- The states after a run. -/
theorem Recovers.of_run {run : List Turn} (valid : ValidRun session.messages run)
    (errorsOnly : ErrorsOnly config run) (bound : n ≤ 2 * config.retry.maxRetries + 1)
    (budget : ∀ turn, run = [turn] → turn.injected = [] → turn.response.1.stopReason = .error →
      n + session.budget config ≤ 2 * config.retry.maxRetries + 1)
    (fresh : (∀ turn, run = [turn] → turn.injected ≠ []) → n = 0) :
    Recovers config (session.receiveAll (runMessages run)) n := by
  obtain ⟨init, turn, rfl⟩ := (eq_nil_or_concat run).resolve_left valid.nonempty
  rw [concat_eq_append] at valid errorsOnly budget fresh ⊢
  have hlast := @receiveAll_last init turn session
  have hmessages := @receiveAll_run init turn session
  constructor
  case nonempty => simp [hmessages]
  case bound => exact bound
  case removable =>
    intro message hmessage herror
    obtain rfl : turn.response.1 = message := by simpa [hlast] using hmessage
    have hresults : turn.results = [] :=
      valid.unanswered turn (by simp) (by simp [Turn.fails, herror])
    refine ⟨sentLast session.messages init turn, ?_, valid.sentLast⟩
    rw [hmessages, hresults, map_nil]
  case errors =>
    intro message hmessage hrecoverable
    obtain rfl : turn.response.1 = message := by simpa [hlast] using hmessage
    refine (errorsOnly turn (by simp) (isRecoverable_overflow hrecoverable)).resolve_right ?_
    simp [hrecoverable]
  case budget =>
    intro message hmessage herror
    obtain rfl : turn.response.1 = message := by simpa [hlast] using hmessage
    by_cases hsingle : init = [] ∧ turn.injected = []
    · obtain ⟨rfl, hinjected⟩ := hsingle
      have hresults : turn.results = [] :=
        valid.unanswered turn (by simp) (by simp [Turn.fails, herror])
      have hrun : runMessages ([] ++ [turn]) = [(.assistant turn.response.1, turn.response.2)] := by
        simp [runMessages, Turn.messages, hinjected, hresults]
      have hkept := (LiveSession.receive_response session turn.response.1 turn.response.2).2 herror
      have hbudget := budget turn rfl hinjected herror
      rw [hrun]
      unfold LiveSession.budget at hbudget ⊢
      simpa [LiveSession.receiveAll, hkept.1, hkept.2] using hbudget
    · have hn : n = 0 := by
        refine fresh fun only honly hinjected => hsingle ?_
        obtain ⟨rfl, rfl⟩ : init = [] ∧ turn = only := by
          simpa using append_eq_singleton_iff.1 honly
        exact ⟨rfl, hinjected⟩
      rw [hn, Nat.zero_add]
      exact LiveSession.budget_le

variable {post : LiveSession.PostRun}

/-- Settling a run, from its messages or from those without the failed one. -/
theorem Recovers.settles {next : LiveSession} (h : Recovers config session n)
    (meets : Meets config session post) (hlast : session.lastAssistantMessage = some message)
    (hpath : next.path = session.path)
    (hattempted : next.overflowRecoveryAttempted = session.overflowRecoveryAttempted)
    (hne : next.messages ≠ [])
    (hsame : isRecoverable config message = true →
      next.messages = session.messages ∧ next.retryAttempt = session.retryAttempt)
    (hnext : (next.settle config post message).2 = true) :
    CanContinue (next.settle config post message).1.messages post.queued ∧
      (post.queued = false →
        n + 1 + (next.settle config post message).1.budget config ≤
          2 * config.retry.maxRetries + 1) := by
  constructor
  · refine LiveSession.settle_canContinue hne ?_ (by simpa [hpath] using meets.fresh) ?_ hnext
    · intro hrecoverable
      obtain ⟨rest, hrest, hne, -⟩ :=
        h.removable message hlast (h.errors message hlast hrecoverable)
      rw [(hsame hrecoverable).1, hrest, dropLastIf_concat rfl]
      exact hne
    · intro data stamp hrecoverable hnot hstale hcompaction
      rw [hpath]
      refine meets.kept message data stamp hlast hrecoverable (by rw [← hattempted, hnot]) ?_
        hcompaction
      unfold LiveSession.isFromBeforeCompaction at hstale ⊢
      rwa [hpath] at hstale
  · intro hqueued
    have hrecoverable := LiveSession.settle_recoverable hqueued hnext
    have herror := h.errors message hlast hrecoverable
    have hstep := LiveSession.settle_budget herror hqueued hnext
    have hleft := h.budget message hlast herror
    have hbudget : next.budget config = session.budget config := by
      unfold LiveSession.budget
      rw [hattempted, (hsame hrecoverable).2]
    omega

/-- **A continuation after a run has something to continue from**, and is one of those that are
left. -/
theorem Recovers.continues (h : Recovers config session n) (meets : Meets config session post)
    (hcontinues : (session.handlePostAgentRun config post).2 = true) :
    CanContinue (session.handlePostAgentRun config post).1.messages post.queued ∧
      (post.queued = false →
        n + 1 + (session.handlePostAgentRun config post).1.budget config ≤
          2 * config.retry.maxRetries + 1) := by
  unfold LiveSession.handlePostAgentRun at hcontinues ⊢
  cases hlast : session.lastAssistantMessage with
  | none => simp [hlast] at hcontinues
  | some message =>
    simp only [hlast] at hcontinues ⊢
    by_cases hretryable : isRetryableError config message = true
    · have herror := isRetryableError_error hretryable
      have hnot := isRetryableError_not_recoverable hretryable
      obtain ⟨rest, hrest, hne, hend⟩ := h.removable message hlast herror
      have hdrop : dropLastIf (·.isAssistant) session.messages = rest := by
        rw [hrest]
        exact dropLastIf_concat rfl
      rw [if_pos hretryable] at hcontinues ⊢
      rcases LiveSession.prepareRetry_cases config
        { session with lastAssistantMessage := none } post with heq | heq | ⟨hmax, heq⟩
      · simp only [heq] at hcontinues ⊢
        exact h.settles meets hlast rfl rfl h.nonempty (fun _ => ⟨rfl, rfl⟩) hcontinues
      · simp only [heq, hdrop] at hcontinues ⊢
        exact h.settles meets hlast rfl rfl hne (by simp [hnot]) hcontinues
      · -- a retry: the failed response is removed, and one retry less is left
        simp only [heq, hdrop, if_true]
        refine ⟨⟨hne, .inl hend⟩, fun _ => ?_⟩
        have hleft := h.budget message hlast herror
        unfold LiveSession.budget at hleft ⊢
        dsimp only at hmax ⊢
        omega
    · rw [if_neg hretryable] at hcontinues ⊢
      exact h.settles meets hlast rfl rfl h.nonempty (fun _ => ⟨rfl, rfl⟩) hcontinues

/-- What holds after every run of a call. -/
theorem AfterRun.recovers (h : AfterRun config session n) : Recovers config session n := by
  induction h with
  | prompt session run valid prompts errorsOnly =>
    refine .of_run valid errorsOnly (Nat.zero_le _) (fun turn hrun hinjected _ => ?_) fun _ => rfl
    exact absurd hinjected (prompts turn (by simp [hrun]))
  | continued after post meets continues run valid errorsOnly ih =>
    have hstep := (ih.continues meets continues).2
    cases hqueued : post.queued with
    | true =>
      simp only [Bool.or_true, if_true]
      exact .of_run valid errorsOnly (Nat.zero_le _)
        (fun _ _ _ _ => by rw [Nat.zero_add]; exact LiveSession.budget_le) fun _ => rfl
    | false =>
      cases hbreaks : breaks config run with
      | true =>
        simp only [Bool.true_or, if_true]
        exact .of_run valid errorsOnly (Nat.zero_le _)
          (fun _ _ _ _ => by rw [Nat.zero_add]; exact LiveSession.budget_le) fun _ => rfl
      | false =>
        have hleft := hstep hqueued
        obtain ⟨turn, rfl, hinjected⟩ := valid.single errorsOnly hbreaks
        simp only [Bool.or_false, Bool.false_eq_true, if_false]
        exact .of_run valid errorsOnly (by omega) (fun _ _ _ _ => hleft)
          fun hnone => absurd hinjected (hnone turn rfl)

/-- **Automatic recovery has something to continue from, and ends.**  After every run of a call of
`_runAgentPrompt`, the agent is continued from a message that is not an assistant's or from a queued
one, and without queued messages at most `2 * maxRetries + 1` times between two good responses, if
overflows that are no errors are not recovered from, and compactions that recover from an overflow
do not keep a last message of an assistant but the failed one. -/
theorem recovery_continues (h : AfterRun config session n) (meets : Meets config session post)
    (hcontinues : (session.handlePostAgentRun config post).2 = true) :
    CanContinue (session.handlePostAgentRun config post).1.messages post.queued ∧
      (post.queued = false → n + 1 ≤ 2 * config.retry.maxRetries + 1) := by
  have hstep := h.recovers.continues meets hcontinues
  exact ⟨hstep.1, fun hqueued => by have := hstep.2 hqueued; omega⟩

end Invariant

/-! ### Responses that are not removed again -/

/-- A configuration with three retries and a small context. -/
def smallConfig : Config where
  model := some ⟨"p", "m", 1000⟩
  retry := ⟨true, 3⟩
  compaction := ⟨true, 100, 5⟩
  isOverflowText := (· = "prompt is too long")
  isRetryableText := (· = "overloaded")

/-- A message of the user. -/
def asked (text : String) (timestamp : ℚ) : AgentMessage := .user ⟨some (.str text), timestamp⟩

/-- A response. -/
def answered (stopReason : StopReason) (errorMessage : Option String) (input : Nat)
    (timestamp : ℚ) : AssistantMessage :=
  ⟨some [], "p", "m", { Usage.zero with input := input }, stopReason, errorMessage, timestamp⟩

/-- A session with a question and its answer. -/
def answeredSession : LiveSession :=
  (⟨[], [], none, 0, false⟩ : LiveSession).receiveAll
    [(asked "first question" 1, ⟨"u1", "2026-01-01T00:00:01.000Z"⟩),
      (.assistant (answered .stop none 10 2), ⟨"a1", "2026-01-01T00:00:02.000Z"⟩)]

/-- A second question, with its answer. -/
def secondTurn (response : AssistantMessage) : Turn :=
  ⟨[(asked "a second question that is longer" 3, ⟨"u2", "2026-01-01T00:00:03.000Z"⟩)],
    (response, ⟨"a2", "2026-01-01T00:00:04.000Z"⟩), []⟩

/-- A compaction that keeps the second question. -/
def keepSecond : LiveSession.PostRun where
  sleepAborted := false
  compaction := some (⟨"summary", "u2", 10, none, none, none⟩, ⟨"c1", "2026-01-01T00:00:06.000Z"⟩)
  queued := false

theorem validRun_secondTurn (response : AssistantMessage) :
    ValidRun answeredSession.messages [secondTurn response] where
  nonempty := by simp
  injected := by simp [secondTurn, asked, AgentMessage.isAssistant]
  begins := by simp [secondTurn]
  connected := isChain_singleton _
  ends := by simp
  unanswered := by simp [secondTurn]

theorem errorsOnly_secondTurn {response : AssistantMessage} (h : response.stopReason = .error) :
    ErrorsOnly smallConfig [secondTurn response] := by
  intro turn hturn _
  obtain rfl := mem_singleton.1 hturn
  exact .inl h

/-- **The agent cannot be continued** when a response without output was cut off for its length: it
is taken out of the messages before the compaction, and is back in them after it. -/
theorem lengthStop_cannotContinue :
    let session := answeredSession.receiveAll
      (runMessages [secondTurn (answered .length none 1000 4)])
    ValidRun answeredSession.messages [secondTurn (answered .length none 1000 4)] ∧
      (prepareCompaction session.path smallConfig.compaction).map (·.firstKeptEntryId) =
        some "u2" ∧
      (session.handlePostAgentRun smallConfig keepSecond).2 = true ∧
      ¬CanContinue (session.handlePostAgentRun smallConfig keepSecond).1.messages
        keepSecond.queued := by
  refine ⟨validRun_secondTurn _, by decide, by decide, ?_⟩
  rintro ⟨-, hlast⟩
  exact absurd hlast (by decide)

theorem recovery_continues_tooLong :
    CanContinue (LiveSession.handlePostAgentRun smallConfig
        (answeredSession.receiveAll
          (runMessages [secondTurn (answered .error (some "prompt is too long") 0 4)]))
        keepSecond).1.messages keepSecond.queued ∧
      (keepSecond.queued = false → 0 + 1 ≤ 2 * smallConfig.retry.maxRetries + 1) := by
  refine recovery_continues
    (.prompt answeredSession [secondTurn (answered .error (some "prompt is too long") 0 4)]
      (validRun_secondTurn _) (by simp [secondTurn]) (errorsOnly_secondTurn rfl))
    ⟨?_, ?_⟩ (by decide)
  · intro data stamp hcompaction
    obtain ⟨rfl, rfl⟩ : _ = data ∧ _ = stamp := by simpa [keepSecond] using hcompaction
    decide
  · intro message data stamp _ _ _ _ hcompaction
    obtain ⟨rfl, rfl⟩ : _ = data ∧ _ = stamp := by simpa [keepSecond] using hcompaction
    decide

end BeauPi.AgentSession
