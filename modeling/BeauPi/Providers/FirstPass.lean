import BeauPi.Providers.Histories

/-!
# The first pass

The first pass rewrites the ids of calls and results.  A call gets the id that its own message gives
it, and a result gets the id that the last call with its id was given.

* `Consistent` — the results of each message go to different calls of the message.
* `prepared_turns` — the messages that the first pass finds.
* `transformFrom_turns` — **what the first pass makes of a turn**.
-/

namespace BeauPi.Providers

open Llm Machine List

variable {msgs rest : List Message} {model : Model} {normalize : Option Normalizer}
  {m : AssistantMessage} {turns : List Turn}

/-! ## Consistent ids -/

/-- The id that a call gets. -/
def outputId (model : Model) (normalize : Option Normalizer) (m : AssistantMessage) (id : String) :
    String :=
  if isSameModel model m then id
  else
    match normalize with
    | none => id
    | some normalizeToolCallId => normalizeToolCallId id m

/-- The id that the calls with an id were last given, after one more message. -/
def rewriting (model : Model) (normalize : Option Normalizer) (last : String → Option String) :
    Message → String → Option String
  | .assistant m, id =>
    if id ∈ m.callIds ∧ outputId model normalize m id ≠ id then
      some (outputId model normalize m id)
    else last id
  | _, id => last id

/-- The id that the calls with an id were last given when it was another one. -/
def lastRewriting (model : Model) (normalize : Option Normalizer) (last : String → Option String)
    (messages : List Message) : String → Option String :=
  messages.foldl (rewriting model normalize) last

/-- The id of a result, by the id that the calls with its id were last given. -/
def resultId (last : String → Option String) (id : String) : String :=
  match last id with
  | some newId => if newId = "" then id else newId
  | none => id

/-- Results with these ids go to different calls of a message. -/
def ConsistentIds (model : Model) (normalize : Option Normalizer) (last : String → Option String)
    (m : AssistantMessage) (ids : List String) : Prop :=
  (ids.map (resultId last)).Nodup ∧
    ∀ id ∈ ids, resultId last id ∈ m.callIds.map (outputId model normalize m)

/-- The results of every message that has not failed go to different calls of it, although an id is
rewritten as its last call was, whichever message made that call. -/
def Consistent (model : Model) (normalize : Option Normalizer) (last : String → Option String)
    (messages : List Message) : Prop :=
  ∀ before m after, messages = before ++ .assistant m :: after → m.failed = false →
    ConsistentIds model normalize (lastRewriting model normalize last (before ++ [.assistant m])) m
      ((leadingResults after).map (·.toolCallId))

theorem consistent_cons (last : String → Option String) (msg : Message) :
    Consistent model normalize last (msg :: rest) ↔
      (∀ m, msg = .assistant m → m.failed = false →
        ConsistentIds model normalize (rewriting model normalize last msg) m
          ((leadingResults rest).map (·.toolCallId))) ∧
        Consistent model normalize (rewriting model normalize last msg) rest := by
  constructor
  · intro h
    refine ⟨fun m heq => ?_, fun before m after heq => ?_⟩
    · subst heq
      exact h [] m rest rfl
    · exact h (msg :: before) m after (by rw [heq]; rfl)
  · rintro ⟨hfirst, hrest⟩ before m after heq
    cases before with
    | nil =>
      obtain ⟨rfl, rfl⟩ := List.cons.inj heq
      exact hfirst m rfl
    | cons first before =>
      obtain ⟨rfl, rfl⟩ := List.cons.inj heq
      exact hrest before m after rfl

theorem consistent_results (last : String → Option String) (rs : List ToolResultMessage) :
    Consistent model normalize last (rs.map .toolResult ++ rest) ↔
      Consistent model normalize last rest := by
  induction rs with
  | nil => rfl
  | cons r rs ih =>
    rw [map_cons, cons_append, consistent_cons]
    exact ⟨fun h => ih.1 h.2, fun h => ⟨fun m heq => (by cases heq), ih.2 h⟩⟩

/-! ## Prepared messages -/

/-- A result as the first pass finds it. -/
def preparedResult (model : Model) (r : ToolResultMessage) : ToolResultMessage :=
  { r with
    content := some (
      if model.takesImages then r.content.getD []
      else replaceImagesWithPlaceholder (r.content.getD []) nonVisionToolImagePlaceholder) }

/-- An assistant message as the first pass finds it. -/
def AssistantMessage.prepared (m : AssistantMessage) : AssistantMessage :=
  { m with content := some (m.content.getD []) }

theorem prepare_user (model : Model) (u : UserMessage) :
    ∃ u', downgradeUnsupportedImages model (normalizeContent (.user u)) = .user u' := by
  simp only [downgradeUnsupportedImages, normalizeContent]
  split
  · exact ⟨_, rfl⟩
  · split <;> exact ⟨_, rfl⟩

theorem prepare_assistant (model : Model) (m : AssistantMessage) :
    downgradeUnsupportedImages model (normalizeContent (.assistant m)) = .assistant m.prepared := by
  simp only [downgradeUnsupportedImages, normalizeContent, AssistantMessage.prepared, ite_self]

theorem prepare_toolResult (model : Model) (r : ToolResultMessage) :
    downgradeUnsupportedImages model (normalizeContent (.toolResult r)) =
      .toolResult (preparedResult model r) := by
  simp only [downgradeUnsupportedImages, normalizeContent, preparedResult, Option.getD_some]
  split <;> rfl

theorem prepared_callIds (m : AssistantMessage) : m.prepared.callIds = m.callIds := rfl

theorem prepared_eq (h : m.callIds ≠ []) : m.prepared = m := by
  cases hcontent : m.content with
  | none => simp [AssistantMessage.callIds, AssistantMessage.toolCalls, hcontent] at h
  | some blocks =>
    obtain ⟨content, api, provider, model, usage, stopReason, errorMessage, timestamp⟩ := m
    cases hcontent
    rfl

/-- **Prepared turns are turns.** -/
theorem prepared_turns (model : Model) (hsound : ∀ turn ∈ turns, turn.Sound normalize) :
    ∃ turns' : List Turn,
      imageAwareMessages model (turns.flatMap Turn.messages) = turns'.flatMap Turn.messages ∧
        ∀ turn ∈ turns', turn.Sound normalize := by
  induction turns with
  | nil => exact ⟨[], rfl, by simp⟩
  | cons turn turns ih =>
    obtain ⟨hturn, hturns⟩ := forall_mem_cons.1 hsound
    obtain ⟨turns', heq, hsound'⟩ := ih hturns
    have happ : imageAwareMessages model ((turn :: turns).flatMap Turn.messages) =
        imageAwareMessages model turn.messages ++ turns'.flatMap Turn.messages := by
      rw [← heq, flatMap_cons, imageAwareMessages, map_append]
      rfl
    rw [happ]
    cases turn with
    | user u =>
      obtain ⟨u', hu⟩ := prepare_user model u
      refine ⟨.user u' :: turns', ?_, forall_mem_cons.2 ⟨trivial, hsound'⟩⟩
      simp [imageAwareMessages, Turn.messages, hu]
    | assistant m rs =>
      obtain ⟨hresults, hdistinct, hinjective⟩ := hturn
      refine ⟨.assistant m.prepared (rs.map (preparedResult model)) :: turns', ?_,
        forall_mem_cons.2 ⟨⟨?_, hdistinct, ?_⟩, hsound'⟩⟩
      · simp [imageAwareMessages, Turn.messages, prepare_assistant, prepare_toolResult]
      · intro r hr
        obtain ⟨r', hr', rfl⟩ := mem_map.1 hr
        exact hresults r' hr'
      · intro f hf a ha
        have hprepared : m.prepared = m :=
          prepared_eq (ne_nil_of_mem (prepared_callIds m ▸ ha))
        rw [hprepared] at ha ⊢
        exact hinjective f hf a ha

theorem rewriting_prepared (last : String → Option String) (msg : Message) :
    rewriting model normalize last (downgradeUnsupportedImages model (normalizeContent msg)) =
      rewriting model normalize last msg := by
  cases msg with
  | user u =>
    obtain ⟨u', hu⟩ := prepare_user model u
    rw [hu]
    rfl
  | toolResult r =>
    rw [prepare_toolResult]
    rfl
  | assistant m =>
    rw [prepare_assistant]
    funext id
    by_cases hid : id ∈ m.callIds
    · rw [prepared_eq (ne_nil_of_mem hid)]
    · simp only [rewriting, prepared_callIds, hid, false_and, if_false]

theorem leadingResults_prepared (model : Model) (msgs : List Message) :
    (leadingResults (imageAwareMessages model msgs)).map (·.toolCallId) =
      (leadingResults msgs).map (·.toolCallId) := by
  induction msgs with
  | nil => rfl
  | cons msg msgs ih =>
    rw [imageAwareMessages, map_cons, ← imageAwareMessages]
    cases msg with
    | user u =>
      obtain ⟨u', hu⟩ := prepare_user model u
      rw [hu]
      rfl
    | assistant m =>
      rw [prepare_assistant]
      rfl
    | toolResult r =>
      rw [prepare_toolResult]
      exact congrArg (r.toolCallId :: ·) ih

/-- Preparing the messages keeps their ids. -/
theorem consistent_prepared (last : String → Option String) (msgs : List Message) :
    Consistent model normalize last (imageAwareMessages model msgs) ↔
      Consistent model normalize last msgs := by
  induction msgs generalizing last with
  | nil => rfl
  | cons msg msgs ih =>
    rw [imageAwareMessages, map_cons, ← imageAwareMessages, consistent_cons, consistent_cons,
      rewriting_prepared, ih, leadingResults_prepared]
    refine and_congr_left' ?_
    cases msg with
    | user u =>
      obtain ⟨u', hu⟩ := prepare_user model u
      simp [hu]
    | toolResult r => simp [prepare_toolResult]
    | assistant m =>
      rw [prepare_assistant]
      simp only [Message.assistant.injEq, forall_eq']
      by_cases hcalls : m.callIds = []
      · simp only [ConsistentIds, prepared_callIds, hcalls, map_nil]
        rfl
      · rw [prepared_eq hcalls]

/-! ## First pass -/

theorem transformCall_id (ids : IdMap) (call : ToolCall) :
    (transformCall model normalize m ids call).1.id = outputId model normalize m call.id := by
  simp only [transformCall, outputId]
  cases normalize with
  | none => dsimp only; split_ifs <;> rfl
  | some normalizeToolCallId =>
    by_cases hsame : isSameModel model m = true
    · simp [hsame]
    · simp only [hsame, Bool.false_eq_true, if_false]
      split_ifs with hid hsignature
      all_goals first | rfl | exact (not_not.1 hid).symm

theorem transformThinking_toolCall (same : Bool) (thinking : String) (signature : Option String)
    (redacted : Bool) :
    (transformThinking same thinking signature redacted).toList.filterMap (·.toolCall?) = [] := by
  simp only [transformThinking]
  split_ifs <;> rfl

theorem transformBlocks_callIds (ids : IdMap) (blocks : List AssistantBlock) :
    (((transformBlocks model normalize m ids blocks).1).filterMap (·.toolCall?)).map (·.id) =
      (blocks.filterMap (·.toolCall?)).map fun call => outputId model normalize m call.id := by
  induction blocks generalizing ids with
  | nil => rfl
  | cons block blocks ih =>
    cases block with
    | text text signature => exact ih ids
    | thinking thinking signature redacted =>
      rw [transformBlocks, filterMap_append, transformThinking_toolCall]
      exact ih ids
    | toolCall call =>
      rw [transformBlocks]
      exact congrArg₂ List.cons (transformCall_id ids call) (ih _)

/-- The message that the first pass makes of an assistant message. -/
theorem transformMessage_assistant (ids : IdMap) (m : AssistantMessage) :
    ∃ m', (transformMessage model normalize ids (.assistant m)).1 = .assistant m' ∧
      m'.callIds = m.callIds.map (outputId model normalize m) ∧ m'.failed = m.failed := by
  refine ⟨_, rfl, ?_, rfl⟩
  rw [AssistantMessage.callIds, AssistantMessage.toolCalls, Option.getD_some,
    transformBlocks_callIds, AssistantMessage.callIds, map_map]
  rfl

theorem transformCall_ids (ids : IdMap) (call : ToolCall) :
    (transformCall model normalize m ids call).2 =
      if outputId model normalize m call.id ≠ call.id then
        ids.set call.id (outputId model normalize m call.id)
      else ids := by
  simp only [transformCall, outputId]
  cases normalize with
  | none => simp
  | some normalizeToolCallId =>
    by_cases hsame : isSameModel model m = true
    · simp [hsame]
    · by_cases hnew : normalizeToolCallId call.id m ≠ call.id
      · simp only [hsame, hnew, if_true, if_false, Bool.false_eq_true, ne_eq, not_false_eq_true]
      · simp only [hsame, hnew, if_false, Bool.false_eq_true]

theorem transformCall_get? (ids : IdMap) (call : ToolCall) (id : String) :
    (transformCall model normalize m ids call).2.get? id =
      if id = call.id ∧ outputId model normalize m id ≠ id then
        some (outputId model normalize m id)
      else ids.get? id := by
  rw [transformCall_ids]
  by_cases hid : id = call.id
  · subst hid
    by_cases hnew : outputId model normalize m call.id = call.id
    · simp [hnew]
    · simp [hnew]
  · simp only [hid, false_and, if_false]
    split
    · exact OrderedMap.get?_set_ne _ _ hid
    · rfl

theorem transformBlocks_get? (ids : IdMap) (blocks : List AssistantBlock) (id : String) :
    (transformBlocks model normalize m ids blocks).2.get? id =
      if id ∈ (blocks.filterMap (·.toolCall?)).map (·.id) ∧ outputId model normalize m id ≠ id then
        some (outputId model normalize m id)
      else ids.get? id := by
  induction blocks generalizing ids with
  | nil => simp [transformBlocks]
  | cons block blocks ih =>
    cases block with
    | text text signature => exact ih ids
    | thinking thinking signature redacted => exact ih ids
    | toolCall call =>
      rw [transformBlocks]
      dsimp only
      rw [ih, transformCall_get?]
      have hids : ((AssistantBlock.toolCall call :: blocks).filterMap (·.toolCall?)).map (·.id) =
          call.id :: (blocks.filterMap (·.toolCall?)).map (·.id) := rfl
      simp only [hids, mem_cons]
      by_cases hnew : outputId model normalize m id = id
      · simp [hnew]
      · by_cases hmem : id ∈ (blocks.filterMap (·.toolCall?)).map (·.id)
        · simp only [hmem, hnew, or_true, ne_eq, not_false_eq_true, and_self, if_true]
        · simp only [hmem, or_false, false_and, if_false]

/-- The map remembers how the ids were last rewritten. -/
theorem transformMessage_get? (ids : IdMap) (msg : Message) :
    (transformMessage model normalize ids msg).2.get? =
      rewriting model normalize ids.get? msg := by
  cases msg with
  | user u => rfl
  | toolResult r => rfl
  | assistant m =>
    funext id
    exact transformBlocks_get? ids _ id

theorem rewrittenResultId_eq (ids : IdMap) (id : String) :
    rewrittenResultId ids id = resultId ids.get? id := by
  simp only [rewrittenResultId, resultId]
  cases ids.get? id with
  | none => rfl
  | some newId =>
    dsimp only
    by_cases hempty : newId = ""
    · rw [if_pos hempty, if_neg (fun h => h.1 hempty)]
    · by_cases hsame : newId = id
      · rw [if_neg (fun h => h.2 hsame), if_neg hempty, hsame]
      · rw [if_pos ⟨hempty, hsame⟩, if_neg hempty]

/-- A result after the first pass. -/
def rewrittenResult (ids : IdMap) (r : ToolResultMessage) : ToolResultMessage :=
  { r with toolCallId := rewrittenResultId ids r.toolCallId }

theorem transformFrom_results (ids : IdMap) (rs : List ToolResultMessage) (rest : List Message) :
    transformFrom model normalize ids (rs.map .toolResult ++ rest) =
      (rs.map (rewrittenResult ids)).map .toolResult ++ transformFrom model normalize ids rest := by
  induction rs with
  | nil => rfl
  | cons r rs ih => exact congrArg (Message.toolResult (rewrittenResult ids r) :: ·) ih

/-- The ids of the calls of a message are distinct, and a message that has failed has no results. -/
def Turn.Ready : Turn → Prop
  | .user _ => True
  | .assistant m rs => m.callIds.Nodup ∧ (m.failed = true → rs = [])

/-- The results of a message that has not failed answer different calls of it. -/
def Turn.Fits : Turn → Prop
  | .user _ => True
  | .assistant m rs => m.failed = false →
      (rs.map (·.toolCallId)).Nodup ∧ ∀ r ∈ rs, r.toolCallId ∈ m.callIds

theorem outputId_nodup (hdistinct : m.callIds.Nodup)
    (hinjective : ∀ normalizeToolCallId ∈ normalize, ∀ a ∈ m.callIds, ∀ b ∈ m.callIds,
      normalizeToolCallId a m = normalizeToolCallId b m → a = b) :
    (m.callIds.map (outputId model normalize m)).Nodup := by
  refine List.Nodup.map_on (fun a ha b hb heq => ?_) hdistinct
  simp only [outputId] at heq
  by_cases hsame : isSameModel model m = true
  · simpa [hsame] using heq
  · rw [if_neg hsame, if_neg hsame] at heq
    cases normalize with
    | none => exact heq
    | some normalizeToolCallId => exact hinjective _ rfl a ha b hb heq

/-- **The first pass makes turns of turns**, and they fit when the ids are consistent. -/
theorem transformFrom_turns (ids : IdMap) (hsound : ∀ turn ∈ turns, turn.Sound normalize) :
    ∃ turns' : List Turn,
      transformFrom model normalize ids (turns.flatMap Turn.messages) =
        turns'.flatMap Turn.messages ∧
      (∀ turn ∈ turns', turn.Ready) ∧
      (Consistent model normalize ids.get? (turns.flatMap Turn.messages) ↔
        ∀ turn ∈ turns', turn.Fits) := by
  induction turns generalizing ids with
  | nil => exact ⟨[], rfl, by simp, by simp [Consistent]⟩
  | cons turn turns ih =>
    obtain ⟨hturn, hturns⟩ := forall_mem_cons.1 hsound
    cases turn with
    | user u =>
      obtain ⟨turns', heq, hready, hfits⟩ := ih ids hturns
      refine ⟨.user u :: turns', ?_, forall_mem_cons.2 ⟨trivial, hready⟩, ?_⟩
      · exact congrArg (Message.user u :: ·) heq
      · rw [forall_mem_cons, ← hfits, flatMap_cons, Turn.messages, singleton_append,
          consistent_cons]
        exact ⟨fun h => ⟨trivial, h.2⟩, fun h => ⟨fun m heq => (by cases heq), h.2⟩⟩
    | assistant m rs =>
      obtain ⟨hresults, hdistinct, hinjective⟩ := hturn
      obtain ⟨m', hm', hcalls, hfailed⟩ :=
        @transformMessage_assistant model normalize ids m
      set ids' := (transformMessage model normalize ids (.assistant m)).2 with hids'
      obtain ⟨turns', heq, hready, hfits⟩ := ih ids' hturns
      refine ⟨.assistant m' (rs.map (rewrittenResult ids')) :: turns', ?_,
        forall_mem_cons.2 ⟨⟨?_, fun hfail => ?_⟩, hready⟩, ?_⟩
      · rw [flatMap_cons, Turn.messages, cons_append, transformFrom]
        dsimp only
        rw [hm', ← hids', transformFrom_results, heq]
        rfl
      · rw [hcalls]
        exact outputId_nodup hdistinct hinjective
      · rcases rs with _ | ⟨r, rs⟩
        · rfl
        · rw [hfailed, (hresults r mem_cons_self).1] at hfail
          cases hfail
      · rw [forall_mem_cons, ← hfits, flatMap_cons, Turn.messages, cons_append,
          consistent_cons, leadingResults_turns, ← transformMessage_get?, ← hids',
          consistent_results]
        refine and_congr_left' ?_
        simp only [Turn.Fits, hcalls, hfailed, ConsistentIds, map_map, forall_mem_map,
          rewrittenResult, rewrittenResultId_eq, Function.comp_def]
        exact ⟨fun h hf => h m rfl hf, fun h m'' heq hf => by cases heq; exact h hf⟩

end BeauPi.Providers
