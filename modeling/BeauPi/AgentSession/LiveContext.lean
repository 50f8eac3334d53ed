import BeauPi.AgentSession.Continuation
import BeauPi.AgentSession.Operations

/-!
# The messages of the agent are those of the session

* `shown` — messages without those that ended in an error, and without the times of custom ones.
* `InContext` — the messages of the agent and of the path of the session are shown alike.
* `Follows` — an operation extends the path, and keeps both alike.
* `IsTree` — the way to every entry of a session is a path.
* `Operates` — the sessions after operations of an idle session.
* `operates_inContext` — they have the messages that the session is opened with again.
-/

namespace BeauPi.AgentSession

open Llm Sessions AgentLoop List LiveSession

/-! ## What is compared -/

/-- A message without the time of a custom one, that its entry does not hold. -/
def untimed : AgentMessage → AgentMessage
  | .custom message => .custom { message with timestamp := none }
  | message => message

/-- Messages without those of an assistant that ended in an error. -/
def withoutErrors (messages : List AgentMessage) : List AgentMessage :=
  messages.filter fun message => !isErroredAssistant message

/-- Messages without failed responses and times of custom messages. -/
def shown (messages : List AgentMessage) : List AgentMessage :=
  (withoutErrors messages).map untimed

@[simp] theorem shown_nil : shown [] = [] := rfl

@[simp] theorem shown_append (first second : List AgentMessage) :
    shown (first ++ second) = shown first ++ shown second := by
  simp [shown, withoutErrors]

theorem shown_errored {message : AgentMessage} (h : isErroredAssistant message = true) :
    shown [message] = [] := by
  simp [shown, withoutErrors, h]

/-- Dropping a failed response is not shown. -/
theorem shown_dropLastIf {kind : AgentMessage → Bool} {messages : List AgentMessage}
    (h : ∀ message, messages.getLast? = some message → kind message = true →
      isErroredAssistant message = true) :
    shown (dropLastIf kind messages) = shown messages := by
  rcases eq_nil_or_concat messages with rfl | ⟨rest, last, rfl⟩
  · rfl
  · rw [concat_eq_append] at h ⊢
    cases hkind : kind last with
    | true =>
      have herrored := h last (by simp) hkind
      rw [dropLastIf_concat hkind, shown_append, shown_errored herrored, append_nil]
    | false => rw [dropLastIf_of_not hkind]

/-! ## The context of a longer path -/

/-- An entry after the latest compaction is at the end of the context. -/
theorem contextEntries_append {path : List SessionEntry} {entry : SessionEntry}
    (h : entry.isCompaction = false) :
    contextEntries (path ++ [entry]) = contextEntries path ++ [entry] := by
  have hlast : lastCompaction? (path ++ [entry]) = lastCompaction? path := by
    simp [lastCompaction?, h]
  unfold contextEntries
  rw [hlast]
  cases hcompaction : lastCompaction? path with
  | none => rfl
  | some compaction =>
    dsimp only
    have hmem : compaction ∈ path := by
      have := mem_of_find?_eq_some hcompaction
      simpa using this
    have hfound : ∃ i, path.findIdx? (fun e => decide (e.id = compaction.id)) = some i := by
      rw [← Option.isSome_iff_exists, findIdx?_isSome]
      exact any_eq_true.2 ⟨compaction, hmem, by simp⟩
    obtain ⟨i, hi⟩ := hfound
    have hlength : i < path.length := (findIdx?_eq_some_iff_findIdx_eq.1 hi).1
    rw [findIdx?_append, hi, Option.some_or]
    cases compaction.compaction? with
    | none => rfl
    | some data =>
      dsimp only
      rw [take_append_of_le_length (by omega), drop_append_of_le_length (by omega),
        cons_append, append_assoc]

theorem contextMessages_append {path : List SessionEntry} {entry : SessionEntry}
    (h : entry.isCompaction = false) :
    contextMessages (path ++ [entry]) =
      contextMessages path ++ sessionEntryToContextMessages entry := by
  unfold contextMessages
  rw [contextEntries_append h, flatMap_append, flatMap_singleton]

/-! ## Operations keep the context -/

namespace LiveSession

variable {config : Config} {session next third : LiveSession}

/-- The messages of the agent are those of the session. -/
def InContext (session : LiveSession) : Prop :=
  shown session.messages = shown (contextMessages session.path)

/-- Entries are appended to the path. -/
structure Extends (session next : LiveSession) : Prop where
  path : ∃ added, next.path = session.path ++ added
  chained : Chained none session.path → Chained none next.path

/-- A later state: the path is longer, and the messages are those of the session if they were. -/
structure Follows (session next : LiveSession) : Prop extends Extends session next where
  context : session.InContext → next.InContext

theorem Follows.refl : Follows session session := ⟨⟨⟨[], by simp⟩, id⟩, id⟩

theorem Follows.trans (h : Follows session next) (h' : Follows next third) :
    Follows session third := by
  obtain ⟨added, hadded⟩ := h.path
  obtain ⟨more, hmore⟩ := h'.path
  refine ⟨⟨⟨added ++ more, ?_⟩, h'.chained ∘ h.chained⟩, h'.context ∘ h.context⟩
  rw [hmore, hadded, append_assoc]

/-- The path is the same, and the messages are shown alike. -/
theorem Follows.of_shown (hmessages : shown next.messages = shown session.messages)
    (hpath : next.path = session.path) : Follows session next where
  path := ⟨[], by simp [hpath]⟩
  chained := by rw [hpath]; exact id
  context h := by
    unfold InContext at h ⊢
    rw [hmessages, hpath, h]

/-- An entry is chained to the path. -/
theorem append_path (body : EntryBody) (stamp : Stamp) :
    ∃ entry, (session.append body stamp).path = session.path ++ [entry] ∧ entry.id = stamp.id ∧
      entry.timestamp = stamp.timestamp ∧ entry.body = body ∧
      (Chained none session.path → Chained none (session.path ++ [entry])) := by
  refine ⟨⟨stamp.id, session.path.getLast?.map (·.id), stamp.timestamp, body⟩, rfl, rfl, rfl, rfl,
    fun h => chained_concat.2 ⟨h, ?_⟩⟩
  simp

theorem append_extends (body : EntryBody) (stamp : Stamp) :
    Extends session (session.append body stamp) := by
  obtain ⟨entry, happend, -, -, -, hchained⟩ := @append_path session body stamp
  exact ⟨⟨[entry], happend⟩, fun h => by rw [happend]; exact hchained h⟩

/-- A message is pushed, and the entry that is appended for it shows the same. -/
theorem follows_push {message : List AgentMessage} {body : EntryBody} {stamp : Stamp}
    (hcompaction : ∀ data, body ≠ .compaction data)
    (hmessages : next.messages = session.messages ++ message)
    (hpath : next.path = (session.append body stamp).path)
    (hshown : ∀ entry : SessionEntry, entry.body = body →
      shown (sessionEntryToContextMessages entry) = shown message) : Follows session next := by
  obtain ⟨entry, happend, -, -, hbody, hchained⟩ := @append_path session body stamp
  have hnot : entry.isCompaction = false := by
    unfold SessionEntry.isCompaction SessionEntry.compaction?
    rw [hbody]
    cases body <;> simp at hcompaction ⊢
  refine ⟨⟨⟨[entry], by rw [hpath, happend]⟩, ?_⟩, ?_⟩
  · rw [hpath, happend]
    exact hchained
  · intro h
    unfold InContext at h ⊢
    rw [hmessages, hpath, happend, contextMessages_append hnot, shown_append, shown_append, h,
      hshown entry hbody]

/-! ### Runs -/

/-- The messages that end in a run: each is persisted, has content, and a failed response is the
last one. -/
structure Announced (messages : List (AgentMessage × Stamp)) : Prop where
  persisted : ∀ message ∈ messages, (entryBody? message.1).isSome = true
  content : ∀ message ∈ messages, message.1.withContent = message.1
  failed : ∀ init message rest, messages = init ++ message :: rest →
    isErroredAssistant message.1 = true → rest = []

theorem receive_path {message : AgentMessage} {body : EntryBody} {stamp : Stamp}
    (h : entryBody? message = some body) :
    (session.receive (message, stamp)).path = (session.append body stamp).path := by
  cases message with
  | assistant response =>
    unfold receive handleMessageEnd persist
    rw [h]
    dsimp only
    split <;> rfl
  | user | toolResult | custom =>
    unfold receive handleMessageEnd persist
    rw [h]
    rfl
  | _ => cases h

theorem receive_follows {message : AgentMessage × Stamp}
    (hpersisted : (entryBody? message.1).isSome = true)
    (hcontent : message.1.withContent = message.1) :
    Follows session (session.receive message) := by
  obtain ⟨message, stamp⟩ := message
  obtain ⟨body, hbody⟩ := Option.isSome_iff_exists.1 hpersisted
  have hpath := @receive_path session _ _ stamp hbody
  have hmessages := receive_messages session message stamp
  refine follows_push ?_ hmessages hpath ?_
  · rintro data rfl
    cases message <;> simp [entryBody?] at hbody
  · intro entry hentry
    have hcontext : sessionEntryToContextMessages entry = [message] ∨
        shown (sessionEntryToContextMessages entry) = shown [message] := by
      unfold sessionEntryToContextMessages
      cases message with
      | user m | assistant m | toolResult m =>
        obtain rfl := Option.some.inj hbody
        rw [hentry]
        exact .inl (congrArg ([·]) hcontent)
      | custom m =>
        obtain rfl := Option.some.inj hbody
        rw [hentry]
        exact .inr rfl
      | _ => cases hbody
    rcases hcontext with h | h
    · rw [h]
    · exact h

theorem receiveAll_follows {messages : List (AgentMessage × Stamp)} (h : Announced messages) :
    Follows session (session.receiveAll messages) := by
  have hpersisted := h.persisted
  have hcontent := h.content
  clear h
  induction messages generalizing session with
  | nil => exact .refl
  | cons message messages ih =>
    have hfirst : Follows session (session.receive message) :=
      receive_follows (hpersisted message mem_cons_self) (hcontent message mem_cons_self)
    exact hfirst.trans (ih (fun m hm => hpersisted m (mem_cons_of_mem _ hm))
      fun m hm => hcontent m (mem_cons_of_mem _ hm))

/-- The last response is one of those that were received. -/
theorem receiveAll_last_mem {messages : List (AgentMessage × Stamp)} {response : AssistantMessage}
    (hnone : session.lastAssistantMessage = none)
    (h : (session.receiveAll messages).lastAssistantMessage = some response) :
    ∃ stamp, (.assistant response, stamp) ∈ messages := by
  induction messages using List.reverseRecOn with
  | nil =>
    change session.lastAssistantMessage = some response at h
    simp [hnone] at h
  | append_singleton messages message ih =>
    obtain ⟨message, stamp⟩ := message
    rw [receiveAll_append] at h
    cases hassistant : message.isAssistant with
    | true =>
      cases message with
      | assistant last =>
        have hlast := (receive_response (session.receiveAll messages) last stamp).1
        have : last = response := Option.some.inj (hlast.symm.trans h)
        exact ⟨stamp, by simp [this]⟩
      | _ => cases hassistant
    | false =>
      have hkept := (@receive_kept (session.receiveAll messages) _ stamp hassistant).last
      obtain ⟨earlier, hmem⟩ := ih (hkept.symm.trans h)
      exact ⟨earlier, mem_append_left _ hmem⟩

/-- **A failed response is the last message after a run.** -/
theorem receiveAll_ended {messages : List (AgentMessage × Stamp)} {response : AssistantMessage}
    (hannounced : Announced messages) (hnone : session.lastAssistantMessage = none)
    (h : (session.receiveAll messages).lastAssistantMessage = some response)
    (herror : response.stopReason = .error) :
    (session.receiveAll messages).messages.getLast? = some (.assistant response) := by
  obtain ⟨stamp, hmem⟩ := receiveAll_last_mem hnone h
  obtain ⟨init, rest, hsplit⟩ := append_of_mem hmem
  have hrest : rest = [] :=
    hannounced.failed init _ rest hsplit (by simp [isErroredAssistant, herror])
  rw [receiveAll_messages, hsplit, hrest]
  simp

/-! ### Recovery -/

/-- The messages are built from a longer path. -/
structure Rebuilt (session next : LiveSession) : Prop extends Extends session next where
  context : next.InContext

theorem Rebuilt.follows {before : LiveSession} (h : Rebuilt session next)
    (hpath : session.path = before.path) : Follows before next where
  path := by rw [← hpath]; exact h.path
  chained := by rw [← hpath]; exact h.chained
  context := fun _ => h.context

/-- After a compaction the messages are built from the path. -/
theorem compact_rebuilt {data : CompactionData} {stamp : Stamp} {messages : List AgentMessage}
    (h : shown messages = shown (contextMessages (session.append (.compaction data) stamp).path)) :
    Rebuilt session { session.append (.compaction data) stamp with messages } :=
  ⟨⟨(append_extends _ stamp).path, (append_extends _ stamp).chained⟩, h⟩

/-- A compaction has a result, or nothing happens. -/
theorem runAutoCompaction_cases (config : Config) (session : LiveSession) (post : PostRun)
    (willRetry : Bool) :
    session.runAutoCompaction config post willRetry = (session, false) ∧
        (config.model = none ∨ post.compaction = none) ∨
      Rebuilt session (session.runAutoCompaction config post willRetry).1 := by
  unfold runAutoCompaction
  cases config.model with
  | none => exact .inl ⟨rfl, .inl rfl⟩
  | some model =>
    cases post.compaction with
    | none => exact .inl ⟨rfl, .inr rfl⟩
    | some result =>
      obtain ⟨data, stamp⟩ := result
      refine .inr ?_
      cases willRetry with
      | false => exact compact_rebuilt rfl
      | true => exact compact_rebuilt (shown_dropLastIf fun _ _ h => h)

theorem runAutoCompaction_follows (post : PostRun) (willRetry : Bool) :
    Follows session (session.runAutoCompaction config post willRetry).1 := by
  rcases runAutoCompaction_cases config session post willRetry with ⟨heq, -⟩ | h
  · rw [heq]
    exact .refl
  · exact h.follows rfl

/-- A response that is recovered from is an error, or the compaction has a result. -/
def Restores (config : Config) (message : AssistantMessage) (post : PostRun) : Prop :=
  isRecoverable config message = true → message.stopReason = .error ∨ post.compaction ≠ none

/-- A failed response is the last message of the agent, if that is one of an assistant. -/
def Ended (session : LiveSession) (message : AssistantMessage) : Prop :=
  message.stopReason = .error → ∀ last, session.messages.getLast? = some last →
    last.isAssistant = true → isErroredAssistant last = true

theorem checkCompaction_follows {message : AssistantMessage} {post : PostRun} {skip : Bool}
    (hended : isRecoverable config message = true → session.Ended message)
    (hrestores : Restores config message post) :
    Follows session (session.checkCompaction config post message skip).1 := by
  rcases checkCompaction_cases config session post message skip with
    heq | heq | ⟨hrecoverable, -, -, heq⟩
  · rw [heq]
    exact .refl
  · rw [heq]
    exact runAutoCompaction_follows post false
  · rw [heq]
    rcases runAutoCompaction_cases config session.startRecovery post true with ⟨hsame, hnone⟩ | h
    · -- nothing is compacted: the response that was taken out is an error
      have hmodel : config.model ≠ none := by
        intro hmodel
        simp [isRecoverable, isSameModel, hmodel] at hrecoverable
      have herror : message.stopReason = .error :=
        (hrestores hrecoverable).resolve_right fun h => h (hnone.resolve_left hmodel)
      rw [hsame]
      refine .of_shown (shown_dropLastIf ?_) rfl
      exact hended hrecoverable herror
    · exact h.follows rfl

theorem prepareRetry_follows {message : AssistantMessage} (post : PostRun)
    (hended : session.Ended message) (herror : message.stopReason = .error) :
    Follows session (session.prepareRetry config post).1 := by
  have hdrop : shown (dropLastIf (·.isAssistant) session.messages) = shown session.messages :=
    shown_dropLastIf (hended herror)
  rcases prepareRetry_cases config session post with heq | heq | ⟨-, heq⟩
  · rw [heq]
    exact .refl
  · rw [heq]
    exact .of_shown hdrop rfl
  · rw [heq]
    exact .of_shown hdrop rfl

@[simp] theorem runAutoCompaction_last (post : PostRun) (willRetry : Bool) :
    (session.runAutoCompaction config post willRetry).1.lastAssistantMessage =
      session.lastAssistantMessage := by
  unfold runAutoCompaction
  split
  · split <;> rfl
  · rfl

@[simp] theorem checkCompaction_last (message : AssistantMessage) (post : PostRun) (skip : Bool) :
    (session.checkCompaction config post message skip).1.lastAssistantMessage =
      session.lastAssistantMessage := by
  rcases checkCompaction_cases config session post message skip with
    heq | heq | ⟨-, -, -, heq⟩ <;> simp [heq, startRecovery]

@[simp] theorem prepareRetry_last (post : PostRun) :
    (session.prepareRetry config post).1.lastAssistantMessage = session.lastAssistantMessage := by
  rcases prepareRetry_cases config session post with heq | heq | ⟨-, heq⟩ <;> rw [heq]

@[simp] theorem forgetRetries_last (message : AssistantMessage) :
    (session.forgetRetries message).lastAssistantMessage = session.lastAssistantMessage := by
  unfold forgetRetries
  split <;> rfl

@[simp] theorem settle_last (message : AssistantMessage) (post : PostRun) :
    (session.settle config post message).1.lastAssistantMessage =
      session.lastAssistantMessage := by
  rw [settle_eq]
  simp

theorem settle_follows {message : AssistantMessage} {post : PostRun}
    (hended : isRecoverable config message = true → session.Ended message)
    (hrestores : Restores config message post) :
    Follows session (session.settle config post message).1 := by
  have hforget : Follows session (session.forgetRetries message) :=
    .of_shown (by simp) (by simp)
  rw [settle_eq]
  refine hforget.trans (checkCompaction_follows (fun h => ?_) hrestores)
  unfold Ended at hended ⊢
  simpa using hended h

/-- What is done after a run keeps the context. -/
theorem handlePostAgentRun_follows {post : PostRun}
    (hended : ∀ message, session.lastAssistantMessage = some message → session.Ended message)
    (hrestores : ∀ message, session.lastAssistantMessage = some message →
      Restores config message post) :
    Follows session (session.handlePostAgentRun config post).1 ∧
      (session.handlePostAgentRun config post).1.lastAssistantMessage = none := by
  unfold handlePostAgentRun
  cases hlast : session.lastAssistantMessage with
  | none => exact ⟨.refl, hlast⟩
  | some message =>
    dsimp only
    have hmessage := hended message hlast
    have hcompacts := hrestores message hlast
    have hforget : Follows session { session with lastAssistantMessage := none } :=
      .of_shown rfl rfl
    split
    next hretryable =>
      have hnot := isRetryableError_not_recoverable hretryable
      have hretry := @prepareRetry_follows config { session with lastAssistantMessage := none }
        message post hmessage (isRetryableError_error hretryable)
      split
      · exact ⟨hforget.trans hretry, by simp⟩
      · exact ⟨hforget.trans (hretry.trans (settle_follows (by simp [hnot]) hcompacts)), by simp⟩
    · exact ⟨hforget.trans (settle_follows (fun _ => hmessage) hcompacts), by simp⟩

/-! ### Prompts -/

/-- What is asked of the runs of a prompt: their messages are announced, and a response that is
recovered from is an error or the compaction has a result. -/
def RunsMeet (config : Config) : LiveSession → List AgentRun → Prop
  | _, [] => True
  | session, run :: runs =>
    Announced run.messages ∧
      (∀ message, (session.receiveAll run.messages).lastAssistantMessage = some message →
        Restores config message run.post) ∧
      RunsMeet config ((session.receiveAll run.messages).handlePostAgentRun config run.post).1 runs

theorem runAgent_follows {runs : List AgentRun} (hnone : session.lastAssistantMessage = none)
    (h : RunsMeet config session runs) :
    Follows session (session.runAgent config runs) ∧
      (session.runAgent config runs).lastAssistantMessage = none := by
  induction runs generalizing session with
  | nil => exact ⟨.refl, hnone⟩
  | cons run runs ih =>
    obtain ⟨hannounced, hrestores, hrest⟩ := h
    have hreceived : Follows session (session.receiveAll run.messages) :=
      receiveAll_follows hannounced
    have hended : ∀ message, (session.receiveAll run.messages).lastAssistantMessage =
        some message → (session.receiveAll run.messages).Ended message := by
      intro message hmessage herror last hlast _
      rw [receiveAll_ended hannounced hnone hmessage herror] at hlast
      obtain rfl := Option.some.inj hlast
      simp [isErroredAssistant, herror]
    obtain ⟨hsettled, hsettledNone⟩ := handlePostAgentRun_follows hended hrestores
    unfold runAgent
    dsimp only
    split
    · obtain ⟨hruns, hrunsNone⟩ := ih hsettledNone hrest
      exact ⟨hreceived.trans (hsettled.trans hruns), hrunsNone⟩
    · exact ⟨hreceived.trans hsettled, hsettledNone⟩

theorem recordBashResult_follows (message : BashExecutionMessage × Stamp) :
    Follows session (session.recordBashResult message) := by
  refine @follows_push _ _ [.bashExecution message.1] _ _ (by simp) rfl rfl ?_
  intro entry hentry
  unfold sessionEntryToContextMessages
  rw [hentry]
  rfl

theorem flushPendingBashMessages_follows (pending : List (BashExecutionMessage × Stamp)) :
    Follows session (session.flushPendingBashMessages pending) ∧
      (session.flushPendingBashMessages pending).lastAssistantMessage =
        session.lastAssistantMessage := by
  induction pending generalizing session with
  | nil => exact ⟨.refl, rfl⟩
  | cons message pending ih =>
    obtain ⟨hrest, hlast⟩ := @ih (session.recordBashResult message)
    exact ⟨(recordBashResult_follows message).trans hrest, hlast⟩

theorem runAgentPrompt_follows {runs : List AgentRun}
    {pending : List (BashExecutionMessage × Stamp)}
    (hnone : session.lastAssistantMessage = none) (h : RunsMeet config session runs) :
    Follows session (session.runAgentPrompt config runs pending) ∧
      (session.runAgentPrompt config runs pending).lastAssistantMessage = none := by
  obtain ⟨hruns, hrunsNone⟩ := runAgent_follows hnone h
  obtain ⟨hflushed, hlast⟩ :=
    @flushPendingBashMessages_follows (session.runAgent config runs) pending
  exact ⟨hruns.trans hflushed, hlast.trans hrunsNone⟩

theorem findLastAssistantMessage_eq {message : AssistantMessage}
    (h : session.findLastAssistantMessage = some message) : session.Ended message := by
  intro herror last hlast hassistant
  unfold findLastAssistantMessage at h
  obtain ⟨rest, hrest⟩ := getLast?_eq_some_iff.1 hlast
  rw [hrest, reverse_append] at h
  cases last with
  | assistant response =>
    obtain rfl : response = message := by simpa using h
    simp [isErroredAssistant, herror]
  | _ => cases hassistant

theorem checkBeforePrompt_follows {post : PostRun}
    (h : ∀ message, session.findLastAssistantMessage = some message →
      Restores config message post) :
    Follows session (session.checkBeforePrompt config post) ∧
      (session.checkBeforePrompt config post).lastAssistantMessage =
        session.lastAssistantMessage := by
  unfold checkBeforePrompt
  cases hlast : session.findLastAssistantMessage with
  | none => exact ⟨.refl, rfl⟩
  | some message =>
    exact ⟨checkCompaction_follows (fun _ => findLastAssistantMessage_eq hlast) (h message hlast),
      by simp⟩

/-- What is asked of a prompt. -/
def PromptMeets (config : Config) (session : LiveSession) (call : Prompt) : Prop :=
  let session := session.flushPendingBashMessages call.flushed
  ∀ post, call.checked = some post →
    (∀ message, session.findLastAssistantMessage = some message → Restores config message post) ∧
      RunsMeet config (session.checkBeforePrompt config post) call.runs

theorem prompt_follows {call : Prompt} (hnone : session.lastAssistantMessage = none)
    (h : PromptMeets config session call) :
    Follows session (session.prompt config call) ∧
      (session.prompt config call).lastAssistantMessage = none := by
  obtain ⟨hflushed, hlast⟩ :=
    @flushPendingBashMessages_follows session call.flushed
  unfold prompt
  dsimp only
  cases hchecked : call.checked with
  | none => exact ⟨hflushed, hlast.trans hnone⟩
  | some post =>
    obtain ⟨hrestores, hruns⟩ := h post hchecked
    obtain ⟨hcheck, hcheckLast⟩ := checkBeforePrompt_follows hrestores
    obtain ⟨hran, hranNone⟩ :=
      @runAgentPrompt_follows _ _ _ call.pending (hcheckLast.trans (hlast.trans hnone)) hruns
    exact ⟨hflushed.trans (hcheck.trans hran), hranNone⟩

theorem sendCustomMessage_follows (message : CustomArguments) (now : ℚ) (stamp : Stamp) :
    Follows session (session.sendCustomMessage message now stamp) := by
  refine @follows_push _ _ [.custom _] _ _ (by simp) rfl rfl ?_
  intro entry hentry
  unfold sessionEntryToContextMessages
  rw [hentry]
  rfl

theorem compact_follows (result : Option (CompactionData × Stamp)) :
    Follows session (session.compact result) := by
  cases result with
  | none => exact .refl
  | some result => exact (compact_rebuilt rfl).follows rfl

end LiveSession

/-! ## The tree of the session -/

theorem chained_of_append {parent : Option String} {first second : List SessionEntry}
    (h : Chained parent (first ++ second)) : Chained parent first := by
  induction second using List.reverseRecOn with
  | nil => simpa using h
  | append_singleton second last ih =>
    rw [← append_assoc] at h
    exact ih (chained_concat.1 h).1

/-- Entries with unique ids, none of them empty. -/
structure Named (entries : List SessionEntry) : Prop where
  nodup : (entries.map (·.id)).Nodup
  named : ∀ entry ∈ entries, entry.id ≠ ""

/-- A path within some entries. -/
structure IsWay (entries way : List SessionEntry) : Prop where
  chained : Chained none way
  nodup : (way.map (·.id)).Nodup
  within : ∀ entry ∈ way, entry ∈ entries

section Ways

variable {entries way : List SessionEntry}

/-- Following the parents from the end of a way goes back along the way. -/
theorem IsWay.ancestors (h : IsWay entries way) (hnamed : Named entries) :
    ancestors (buildEntryIndex entries none) ((buildEntryIndex entries none).size + 1)
      way.getLast? = way.reverse := by
  refine ancestors_eq (fun e he => ?_) h.chained ?_
  · exact ⟨hnamed.named e (h.within e he), get?_buildEntryIndex hnamed.nodup (h.within e he)⟩
  · have hlength : way.length ≤ entries.length :=
      (h.nodup.of_map.subperm h.within).length_le
    simp only [Machine.OrderedMap.size, entries_buildEntryIndex hnamed.nodup, length_map]
    omega

/-- **The path to the end of a way is the way.** -/
theorem IsWay.buildSessionPath (h : IsWay entries way) (hnamed : Named entries) :
    Sessions.buildSessionPath entries (some (way.getLast?.map (·.id))) none = way := by
  have hback := h.ancestors hnamed
  unfold Sessions.buildSessionPath
  cases hlast : way.getLast? with
  | none =>
    rw [getLast?_eq_none_iff] at hlast
    simp [hlast]
  | some last =>
    rw [hlast] at hback
    have hmem : last ∈ entries := h.within last (mem_of_getLast? hlast)
    simp [hnamed.named last hmem, get?_buildEntryIndex hnamed.nodup hmem, hback]

/-- The path to the last entry, if a way ends there. -/
theorem IsWay.buildSessionPath_last (h : IsWay entries way) (hnamed : Named entries)
    (hlast : way.getLast? = entries.getLast?) :
    Sessions.buildSessionPath entries none none = way := by
  have hback := h.ancestors hnamed
  rw [hlast] at hback
  unfold Sessions.buildSessionPath
  simp [hback]

end Ways

namespace TreeSession

variable {config : Config} {session : TreeSession} {next : LiveSession}

variable (session) in
/-- The entries of a session are a tree: the path is a way, and there is one to every entry. -/
structure IsTree : Prop where
  named : Named session.entries
  path : IsWay session.entries session.live.path
  ways : ∀ entry ∈ session.entries, ∃ way, IsWay session.entries way ∧ way.getLast? = some entry

/-- The context of the session is that of its path. -/
theorem IsTree.buildSessionContext (h : session.IsTree) :
    session.buildSessionContext.messages = contextMessages session.live.path := by
  unfold TreeSession.buildSessionContext Sessions.buildSessionContext buildContextEntries leafId
  rw [h.path.buildSessionPath h.named]
  rfl

/-- **A longer path with new ids leaves a tree.** -/
theorem IsTree.advance (h : session.IsTree) (hextends : session.live.Extends next)
    (hnamed : Named (session.advance next).entries) : (session.advance next).IsTree := by
  obtain ⟨added, hadded⟩ := hextends.path
  have hentries : (session.advance next).entries = session.entries ++ added := by
    simp [TreeSession.advance, hadded]
  have hpath : (session.advance next).live.path = session.live.path ++ added := hadded
  have hchained : Chained none (session.live.path ++ added) := by
    rw [← hadded]
    exact hextends.chained h.path.chained
  have hnodup : ((session.live.path ++ added).map (·.id)).Nodup := by
    have hall := hnamed.nodup
    rw [hentries, map_append, nodup_append] at hall
    rw [map_append, nodup_append]
    refine ⟨h.path.nodup, hall.2.1, fun id hid id' hid' => hall.2.2 id ?_ id' hid'⟩
    obtain ⟨entry, hentry, rfl⟩ := mem_map.1 hid
    exact mem_map_of_mem (h.path.within entry hentry)
  have hwithin : ∀ entry ∈ session.live.path ++ added, entry ∈ session.entries ++ added := by
    intro entry hentry
    rw [mem_append] at hentry ⊢
    exact hentry.imp_left (h.path.within entry)
  refine ⟨hnamed, by rw [hentries, hpath]; exact ⟨hchained, hnodup, hwithin⟩, ?_⟩
  intro entry hentry
  rw [hentries] at hentry ⊢
  rcases mem_append.1 hentry with hold | hnew
  · obtain ⟨way, hway, hlast⟩ := h.ways entry hold
    exact ⟨way, ⟨hway.chained, hway.nodup, fun e he => mem_append_left _ (hway.within e he)⟩,
      hlast⟩
  · obtain ⟨before, after, rfl⟩ := append_of_mem hnew
    have hsplit : session.live.path ++ (before ++ entry :: after) =
        (session.live.path ++ before ++ [entry]) ++ after := by simp
    rw [hsplit] at hchained hnodup hwithin
    refine ⟨session.live.path ++ before ++ [entry], ⟨chained_of_append hchained, ?_, ?_⟩,
      getLast?_concat⟩
    · rw [map_append, nodup_append] at hnodup
      exact hnodup.1
    · exact fun e he => hwithin e (mem_append_left _ he)

/-- Another leaf leaves a tree. -/
theorem IsTree.branch (h : session.IsTree) {newLeafId : Option String}
    (hknown : newLeafId.all fun id => session.entries.any (·.id = id)) :
    (session.branch newLeafId).IsTree := by
  have hway : ∃ way, IsWay session.entries way ∧ way.getLast?.map (·.id) = newLeafId := by
    cases newLeafId with
    | none => exact ⟨[], ⟨trivial, nodup_nil, by simp⟩, rfl⟩
    | some id =>
      simp only [Option.all_some, any_eq_true, decide_eq_true_eq] at hknown
      obtain ⟨entry, hmem, hid⟩ := hknown
      obtain ⟨way, hway, hlast⟩ := h.ways entry hmem
      exact ⟨way, hway, by rw [hlast, Option.map_some, hid]⟩
  obtain ⟨way, hway, hleaf⟩ := hway
  have hpath : (session.branch newLeafId).live.path = way := by
    unfold TreeSession.branch
    dsimp only
    rw [← hleaf, hway.buildSessionPath h.named]
  refine ⟨h.named, ?_, h.ways⟩
  rw [hpath]
  exact hway

/-- Entries that are left out at the end had new ids, too. -/
theorem named_of_advance (h : Named (session.advance next).entries) : Named session.entries := by
  have hnodup := h.nodup
  unfold TreeSession.advance at hnodup
  rw [map_append, nodup_append] at hnodup
  exact ⟨hnodup.1, fun entry hentry => h.named entry (mem_append_left _ hentry)⟩

/-- The leaf is moved, and a summary and a label are appended. -/
theorem IsTree.switchLeaf (h : session.IsTree) {target : SessionEntry} {answer : Navigation}
    (hknown : (newLeafId target).all fun id => session.entries.any (·.id = id))
    (hnamed : Named (session.switchLeaf target answer).entries) :
    (session.switchLeaf target answer).IsTree := by
  have hbranch := h.branch hknown
  revert hnamed
  unfold TreeSession.switchLeaf
  dsimp only
  cases answer.summary.filter (·.1.summary ≠ "") with
  | none =>
    cases answer.label.filter (·.1 ≠ "") with
    | none => exact fun _ => hbranch
    | some label => exact fun hnamed => hbranch.advance (append_extends _ _) hnamed
  | some summary =>
    cases answer.label.filter (·.1 ≠ "") with
    | none => exact fun hnamed => hbranch.advance (append_extends _ _) hnamed
    | some label =>
      intro hnamed
      have hsummary := hbranch.advance (append_extends _ _) (named_of_advance hnamed)
      exact hsummary.advance (append_extends _ _) hnamed

/-! ## Operations of an idle session -/

variable (config session) in
/-- What is asked of an operation: its entries have new ids, and its runs are as above. -/
def Meets (operation : Operation) : Prop :=
  Named (session.step config operation).entries ∧
    match operation with
    | .prompt call => session.live.PromptMeets config call
    | .triggerTurn runs _ => session.live.RunsMeet config runs
    | _ => True

variable (config) in
/-- The sessions after operations of an idle session that was opened with its context. -/
inductive Operates : TreeSession → Prop
  | opened (session : TreeSession) (tree : session.IsTree)
    (messages : session.live.messages = session.buildSessionContext.messages)
    (idle : session.live.lastAssistantMessage = none) : Operates session
  | operated {session : TreeSession} (h : Operates session) (operation : Operation)
    (meets : session.Meets config operation) : Operates (session.step config operation)

variable (session) in
/-- What holds of an idle session. -/
structure Idle : Prop where
  tree : session.IsTree
  context : session.live.InContext
  idle : session.live.lastAssistantMessage = none

/-- An operation on the path leaves an idle session. -/
theorem Idle.advance (h : session.Idle) (hfollows : session.live.Follows next)
    (hnone : next.lastAssistantMessage = none) (hnamed : Named (session.advance next).entries) :
    (session.advance next).Idle :=
  ⟨h.tree.advance hfollows.toExtends hnamed, hfollows.context h.context, hnone⟩

theorem switchLeaf_last (target : SessionEntry) (answer : Navigation) :
    (session.switchLeaf target answer).live.lastAssistantMessage =
      session.live.lastAssistantMessage := by
  unfold TreeSession.switchLeaf
  dsimp only
  cases answer.summary.filter (·.1.summary ≠ "") <;>
    cases answer.label.filter (·.1 ≠ "") <;> rfl

theorem Idle.navigateTree (h : session.Idle) {targetId : String} {answer : Option Navigation}
    (hnamed : Named (session.navigateTree targetId answer).entries) :
    (session.navigateTree targetId answer).Idle := by
  unfold TreeSession.navigateTree at hnamed ⊢
  split at hnamed
  next hsame => rwa [if_pos hsame]
  next hother =>
    rw [if_neg hother]
    cases hfound : session.entries.find? (·.id = targetId) with
    | none => exact h
    | some target =>
      cases answer with
      | none => exact h
      | some answer =>
        simp only [hfound] at hnamed ⊢
        split at hnamed
        next hknown =>
          rw [if_pos hknown]
          have htree := h.tree.switchLeaf hknown hnamed
          exact ⟨⟨htree.named, htree.path, htree.ways⟩, rfl,
            (switchLeaf_last target answer).trans h.idle⟩
        next hknown => rwa [if_neg hknown]

/-- **Every operation leaves an idle session.** -/
theorem Idle.step (h : session.Idle) {operation : Operation}
    (hmeets : session.Meets config operation) : (session.step config operation).Idle := by
  obtain ⟨hnamed, hruns⟩ := hmeets
  cases operation with
  | prompt call =>
    obtain ⟨hfollows, hnone⟩ := prompt_follows h.idle hruns
    exact h.advance hfollows hnone hnamed
  | triggerTurn runs pending =>
    obtain ⟨hfollows, hnone⟩ := runAgentPrompt_follows h.idle hruns
    exact h.advance hfollows hnone hnamed
  | sendCustomMessage message now stamp =>
    exact h.advance (sendCustomMessage_follows message now stamp) h.idle hnamed
  | recordBashResult message =>
    exact h.advance (recordBashResult_follows message) h.idle hnamed
  | compact result =>
    refine h.advance (compact_follows result) ?_ hnamed
    cases result <;> exact h.idle
  | navigateTree targetId answer => exact h.navigateTree hnamed
  | appendEntry body stamp =>
    unfold TreeSession.step at hnamed ⊢
    dsimp only at hnamed ⊢
    cases hsilent : isSilent body with
    | false => simpa [hsilent] using h
    | true =>
      rw [hsilent, if_pos rfl] at hnamed
      rw [if_pos rfl]
      refine h.advance (@LiveSession.follows_push _ _ [] _ _ ?_ (by simp [LiveSession.append])
        rfl ?_) h.idle hnamed
      · rintro data rfl
        cases hsilent
      · intro entry hentry
        unfold sessionEntryToContextMessages
        rw [hentry]
        cases body <;> first | rfl | cases hsilent

theorem Operates.idle (h : Operates config session) : session.Idle := by
  induction h with
  | opened session tree messages idle =>
    refine ⟨tree, ?_, idle⟩
    unfold LiveSession.InContext
    rw [messages, tree.buildSessionContext]
  | operated h operation meets ih => exact ih.step meets

end TreeSession

/-- **The messages of the agent are those of the session.**  After every sequence of operations of
an idle session, the messages without failed responses are those of its context but for the times
of custom messages, if no other response was taken out for a compaction that had no result; the
session that is opened again has the same context if its leaf is its last entry. -/
theorem operates_inContext {config : Config} {session : TreeSession}
    (h : TreeSession.Operates config session) :
    shown session.live.messages = shown session.buildSessionContext.messages ∧
      (session.live.path.getLast? = session.entries.getLast? →
        shown session.live.messages =
          shown (buildSessionContext session.entries none none).messages) := by
  have hidle := h.idle
  refine ⟨hidle.context.trans (by rw [hidle.tree.buildSessionContext]), fun hlast => ?_⟩
  unfold buildSessionContext buildContextEntries
  rw [hidle.tree.path.buildSessionPath_last hidle.tree.named hlast]
  exact hidle.context

/-! ### Messages that differ -/

/-- A new session. -/
def newSession : TreeSession := ⟨⟨[], [], none, 0, false⟩, []⟩

/-- A custom message that is sent a millisecond before its entry is appended. -/
def note : TreeSession.Operation :=
  .sendCustomMessage ⟨"note", some (.str "hello"), true, none⟩ 1767225599999
    ⟨"n1", "2026-01-01T00:00:00.000Z"⟩

/-- A question and its answer; a compaction has no result. -/
def askedOnce (response : AssistantMessage) : TreeSession.Operation :=
  let announced := [(asked "a question" 3, ⟨"u1", "2026-01-01T00:00:03.000Z"⟩),
    (.assistant response, ⟨"a1", "2026-01-01T00:00:04.000Z"⟩)]
  .prompt {
    flushed := []
    checked := some ⟨false, none, false⟩
    runs := [⟨announced, ⟨false, none, false⟩⟩]
    pending := [] }

theorem operates_newSession : TreeSession.Operates smallConfig newSession :=
  .opened newSession ⟨⟨nodup_nil, by simp [newSession]⟩,
    ⟨trivial, nodup_nil, by simp [newSession]⟩, by simp [newSession]⟩ rfl rfl

theorem operates_note :
    TreeSession.Operates smallConfig (newSession.step smallConfig note) :=
  .operated operates_newSession note ⟨⟨by decide, by decide⟩, trivial⟩

/-- **The messages are not the same**: the time of a custom message is that of the message in the
one list, and that of its entry in the other. -/
theorem note_differs :
    TreeSession.Operates smallConfig (newSession.step smallConfig note) ∧
      withoutErrors (newSession.step smallConfig note).live.messages ≠
        withoutErrors (newSession.step smallConfig note).buildSessionContext.messages :=
  ⟨operates_note, by decide +kernel⟩

/-- **Nor are they where the answer was cut off** and the compaction has no result: the answer is
taken out of the messages only. -/
theorem cutOff_differs :
    let session := newSession.step smallConfig (askedOnce (answered .length none 1000 4))
    shown session.live.messages ≠ shown session.buildSessionContext.messages := by
  decide +kernel

/-- A question: the first answer fails and is retried, the second overflows and is made again after
a compaction. -/
def askedAgain : TreeSession.Operation :=
  .prompt {
    flushed := []
    checked := some ⟨false, none, false⟩
    runs := [
      ⟨[(asked "a question" 3, ⟨"u1", "2026-01-01T00:00:03.000Z"⟩)] ++
        [(.assistant (answered .error (some "overloaded") 10 4),
          ⟨"a1", "2026-01-01T00:00:04.000Z"⟩)], ⟨false, none, false⟩⟩,
      ⟨[] ++ [(.assistant (answered .error (some "prompt is too long") 10 5),
        ⟨"a2", "2026-01-01T00:00:05.000Z"⟩)],
        ⟨false, some (⟨"summary", "u1", 10, none, none, none⟩, ⟨"c1", "2026-01-01T00:00:06.000Z"⟩),
          false⟩⟩,
      ⟨[] ++ [(.assistant (answered .stop none 10 7), ⟨"a3", "2026-01-01T00:00:07.000Z"⟩)],
        ⟨false, none, false⟩⟩]
    pending := [] }

theorem announced_concat {init : List (AgentMessage × Stamp)} {last : AgentMessage × Stamp}
    (hpersisted : ∀ message ∈ init ++ [last], (entryBody? message.1).isSome = true)
    (hcontent : ∀ message ∈ init ++ [last], message.1.withContent = message.1)
    (hnone : ∀ message ∈ init, isErroredAssistant message.1 = false) :
    LiveSession.Announced (init ++ [last]) := by
  refine ⟨hpersisted, hcontent, fun before message rest hsplit herrored => ?_⟩
  rcases eq_nil_or_concat rest with rfl | ⟨rest, e, rfl⟩
  · rfl
  · rw [concat_eq_append, ← cons_append, ← append_assoc] at hsplit
    obtain ⟨rfl, -⟩ := append_inj' hsplit rfl
    rw [hnone message (by simp)] at herrored
    cases herrored

/-- After the compaction the messages of the session are the summary, the question and the last
answer. -/
theorem operates_inContext_askedAgain :
    let session := (newSession.step smallConfig note).step smallConfig askedAgain
    session.live.path.map (·.id) = ["n1", "u1", "a1", "a2", "c1", "a3"] ∧
      (withoutErrors session.live.messages).length = 3 ∧
      shown session.live.messages = shown session.buildSessionContext.messages ∧
      (session.live.path.getLast? = session.entries.getLast? →
        shown session.live.messages =
          shown (buildSessionContext session.entries none none).messages) := by
  refine ⟨by decide +kernel, by decide +kernel, @operates_inContext smallConfig _
    (.operated operates_note askedAgain ⟨⟨by decide +kernel, by decide +kernel⟩, ?_⟩)⟩
  rintro post hpost
  obtain rfl := Option.some.inj hpost
  refine ⟨fun message hmessage => ?_, ⟨?_, ?_, ?_, ?_, ?_, ?_, trivial⟩⟩
  · exact absurd (show none = some message from hmessage) (by simp)
  · exact announced_concat (by decide) (by decide) (by decide)
  · intro message hmessage _
    obtain rfl : answered .error (some "overloaded") 10 4 = message := Option.some.inj hmessage
    exact .inl rfl
  · exact announced_concat (by decide) (by decide) (by decide)
  · intro message hmessage _
    exact .inr (by simp)
  · exact announced_concat (by decide) (by decide) (by decide)
  · intro message hmessage h
    obtain rfl : answered .stop none 10 7 = message := Option.some.inj hmessage
    exact absurd h (by decide)

end BeauPi.AgentSession
