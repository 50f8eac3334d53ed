import BeauPi.Providers.FirstPass

/-!
# Replayed histories

The transformed history answers every call exactly once, as far as the two passes treat the ids
alike.

* `insertSyntheticToolResults_turns` — what the second pass makes of a turn.
* `results_replayTurns` — the real results stay in their order.
* `transformMessages_valid_iff` — **when a transformed history is valid**.
-/

namespace BeauPi.Providers

open Llm Machine List

variable {msgs : List Message} {model : Model} {normalize : Option Normalizer}
  {m : AssistantMessage} {turns : List Turn}

/-! ## Second pass -/

/-- The results for the calls that have none; `n` is the length of the list. -/
def synthetic (clock : Nat → ℚ) (existing : List String) (n : Nat) :
    List ToolCall → List ToolResultMessage
  | [] => []
  | call :: calls =>
    if existing.contains call.id then synthetic clock existing n calls
    else noResult (clock n) call :: synthetic clock existing (n + 1) calls

/-- The results of a message after the second pass; `n` is the length of the list before it. -/
def completed (clock : Nat → ℚ) (n : Nat) (m : AssistantMessage) (rs : List ToolResultMessage) :
    List ToolResultMessage :=
  rs ++ synthetic clock (rs.map (·.toolCallId)) (n + 1 + rs.length) m.toolCalls

/-- The turns that the second pass makes of turns. -/
def replayTurns (clock : Nat → ℚ) (n : Nat) : List Turn → List Turn
  | [] => []
  | .user u :: turns => .user u :: replayTurns clock (n + 1) turns
  | .assistant m rs :: turns =>
    if m.failed then replayTurns clock n turns
    else .assistant m (completed clock n m rs) ::
      replayTurns clock (n + 1 + (completed clock n m rs).length) turns

variable {clock : Nat → ℚ} {pass : Pass} {rs : List ToolResultMessage}

theorem pushSynthetic_foldl (existing : List String) (result : List Message)
    (calls : List ToolCall) :
    calls.foldl (pushSynthetic clock existing) result =
      result ++ (synthetic clock existing result.length calls).map .toolResult := by
  induction calls generalizing result with
  | nil => simp [synthetic]
  | cons call calls ih =>
    rw [foldl_cons, ih, pushSynthetic, synthetic]
    split
    · rfl
    · simp

theorem synthetic_ids (existing : List String) (n : Nat) (calls : List ToolCall) :
    (synthetic clock existing n calls).map (·.toolCallId) =
      (calls.map (·.id)).filter (!existing.contains ·) := by
  induction calls generalizing n with
  | nil => rfl
  | cons call calls ih =>
    rw [synthetic, map_cons, filter_cons]
    split
    · next h => rw [ih, if_neg (by simp [contains_iff_mem.1 h])]
    · next h => rw [map_cons, ih, if_pos (by simpa using h)]; rfl

theorem insertSyntheticToolResults_pending (clock : Nat → ℚ) (pass : Pass) :
    (insertSyntheticToolResults clock pass).pendingToolCalls = [] := by
  rw [insertSyntheticToolResults]
  split
  · next h => exact h
  · rfl

theorem insertSyntheticToolResults_of_nil (h : pass.pendingToolCalls = []) :
    insertSyntheticToolResults clock pass = pass := if_pos h

theorem step_results (pass : Pass) (rs : List ToolResultMessage) :
    (rs.map Message.toolResult).foldl (Pass.step clock) pass =
      { pass with
        existingToolResultIds := pass.existingToolResultIds ++ rs.map (·.toolCallId)
        result := pass.result ++ rs.map .toolResult } := by
  induction rs generalizing pass with
  | nil => simp
  | cons r rs ih =>
    rw [map_cons, foldl_cons, ih]
    simp [Pass.step]

/-- A message that has not failed and its results. -/
theorem step_turn (hfailed : m.failed = false) (pass : Pass) (rs : List ToolResultMessage) :
    (insertSyntheticToolResults clock
        ((Turn.assistant m rs).messages.foldl (Pass.step clock) pass)).result =
      (insertSyntheticToolResults clock pass).result ++
        (Turn.assistant m (completed clock
          (insertSyntheticToolResults clock pass).result.length m rs)).messages := by
  have hpending := insertSyntheticToolResults_pending clock pass
  rw [Turn.messages, foldl_cons, step_results, Pass.step, hfailed]
  generalize insertSyntheticToolResults clock pass = before at hpending ⊢
  by_cases hcalls : m.toolCalls = []
  · simp [hcalls, insertSyntheticToolResults, hpending, completed, synthetic, Turn.messages]
  · simp [hcalls, insertSyntheticToolResults, pushSynthetic_foldl, completed, Turn.messages,
      Nat.add_assoc, Nat.add_comm 1]

/-- **The second pass makes turns of turns.** -/
theorem insertSyntheticToolResults_turns (hready : ∀ turn ∈ turns, turn.Ready) (pass : Pass) :
    (insertSyntheticToolResults clock
        ((turns.flatMap Turn.messages).foldl (Pass.step clock) pass)).result =
      (insertSyntheticToolResults clock pass).result ++
        (replayTurns clock (insertSyntheticToolResults clock pass).result.length turns).flatMap
          Turn.messages := by
  induction turns generalizing pass with
  | nil => simp [replayTurns]
  | cons turn turns ih =>
    obtain ⟨hturn, hturns⟩ := forall_mem_cons.1 hready
    rw [flatMap_cons, foldl_append, ih hturns]
    cases turn with
    | user u =>
      have hpending := insertSyntheticToolResults_pending clock pass
      rw [Turn.messages, foldl_cons, foldl_nil, Pass.step,
        insertSyntheticToolResults_of_nil (by exact hpending)]
      simp [replayTurns, Turn.messages]
    | assistant m rs =>
      cases hfailed : m.failed with
      | false =>
        rw [step_turn hfailed, replayTurns, hfailed]
        simp [Turn.messages, Nat.add_assoc, Nat.add_comm 1]
      | true =>
        rw [hturn.2 hfailed, replayTurns, hfailed]
        simp [Turn.messages, Pass.step, hfailed,
          insertSyntheticToolResults_of_nil (insertSyntheticToolResults_pending clock pass)]

/-- The calls of a message are answered once each and answered alone, when its results fit. -/
theorem completed_iff (hdistinct : m.callIds.Nodup) (n : Nat) :
    ((Turn.assistant m (completed clock n m rs)).Answered ∧
        (Turn.assistant m (completed clock n m rs)).Answering) ↔
      (rs.map (·.toolCallId)).Nodup ∧ ∀ r ∈ rs, r.toolCallId ∈ m.callIds := by
  have hids : (completed clock n m rs).map (·.toolCallId) = rs.map (·.toolCallId) ++
      m.callIds.filter (!(rs.map (·.toolCallId)).contains ·) := by
    rw [completed, map_append, synthetic_ids, AssistantMessage.callIds]
  have hanswering : (Turn.assistant m (completed clock n m rs)).Answering ↔
      ∀ r ∈ rs, r.toolCallId ∈ m.callIds := by
    have hmap : ∀ rs' : List ToolResultMessage, (∀ r ∈ rs', r.toolCallId ∈ m.callIds) ↔
        ∀ id ∈ rs'.map (·.toolCallId), id ∈ m.callIds := by simp
    rw [Turn.Answering, hmap, hids, hmap rs, forall_mem_append]
    exact and_iff_left fun id hid => mem_of_mem_filter hid
  rw [hanswering, Turn.Answered, hids]
  refine and_congr_left fun hmem => ?_
  constructor
  · intro hcount
    refine nodup_iff_count_le_one.2 fun id => ?_
    by_cases hid : id ∈ rs.map (·.toolCallId)
    · obtain ⟨r, hr, rfl⟩ := mem_map.1 hid
      have hone := hcount r.toolCallId (hmem r hr)
      rw [count_append] at hone
      omega
    · rw [count_eq_zero.2 hid]
      exact Nat.zero_le 1
  · intro hnodup id hid
    rw [count_append]
    by_cases hreal : id ∈ rs.map (·.toolCallId)
    · have hsynthetic : id ∉ m.callIds.filter (!(rs.map (·.toolCallId)).contains ·) := by
        simp only [mem_filter, contains_iff_mem, Bool.not_eq_true', not_and,
          Bool.not_eq_false]
        exact fun _ => by simpa using hreal
      rw [count_eq_one_of_mem hnodup hreal, count_eq_zero.2 hsynthetic]
    · have hsynthetic : id ∈ m.callIds.filter (!(rs.map (·.toolCallId)).contains ·) :=
        mem_filter.2 ⟨hid, by simpa using hreal⟩
      rw [count_eq_zero.2 hreal,
        count_eq_one_of_mem (hdistinct.filter _) hsynthetic]

/-- The replayed turns are as expected when the turns fit. -/
theorem replayTurns_iff (hready : ∀ turn ∈ turns, turn.Ready) (n : Nat) :
    ((∀ turn ∈ replayTurns clock n turns, turn.Answered) ∧
        ∀ turn ∈ replayTurns clock n turns, turn.Answering) ↔
      ∀ turn ∈ turns, turn.Fits := by
  induction turns generalizing n with
  | nil => simp [replayTurns]
  | cons turn turns ih =>
    obtain ⟨hturn, hturns⟩ := forall_mem_cons.1 hready
    rw [forall_mem_cons]
    cases turn with
    | user u =>
      rw [replayTurns, forall_mem_cons, forall_mem_cons, ← ih hturns (n + 1)]
      simp [Turn.Answered, Turn.Answering, Turn.Fits]
    | assistant m rs =>
      rw [replayTurns]
      cases hfailed : m.failed with
      | false =>
        rw [if_neg (by simp), forall_mem_cons, forall_mem_cons,
          ← ih hturns (n + 1 + (completed clock n m rs).length), and_and_and_comm,
          completed_iff hturn.1]
        simp [Turn.Fits, hfailed]
      | true =>
        rw [if_pos rfl, ih hturns]
        simp [Turn.Fits, hfailed]

theorem replayTurns_finished (n : Nat) (h : Turn.assistant m rs ∈ replayTurns clock n turns) :
    m.failed = false := by
  induction turns generalizing n with
  | nil => simp [replayTurns] at h
  | cons turn turns ih =>
    cases turn with
    | user u =>
      rw [replayTurns] at h
      exact ih _ ((mem_cons.1 h).resolve_left (by simp))
    | assistant m' rs' =>
      rw [replayTurns] at h
      split at h
      · exact ih _ h
      · next hfailed =>
        rcases mem_cons.1 h with heq | hmem
        · cases heq
          simpa using hfailed
        · exact ih _ hmem

/-! ## Real results -/

/-- Is a block an image? -/
def isImage : ContentBlock → Bool
  | .image _ _ => true
  | .text _ => false

/-- No result has an image. -/
def NoImages (messages : List Message) : Prop :=
  ∀ r ∈ results messages, ∀ block ∈ r.content.getD [], isImage block = false

theorem replaceImages_isImage (placeholder : String) (previous : Bool)
    (content : List ContentBlock) :
    ∀ block ∈ replaceImages placeholder previous content, isImage block = false := by
  induction content generalizing previous with
  | nil => simp [replaceImages]
  | cons block content ih =>
    cases block with
    | text text => exact forall_mem_cons.2 ⟨rfl, ih _⟩
    | image data mimeType =>
      rw [replaceImages]
      split
      · exact ih _
      · exact forall_mem_cons.2 ⟨rfl, ih _⟩

theorem replaceImages_eq_self (placeholder : String) (previous : Bool)
    {content : List ContentBlock} (h : ∀ block ∈ content, isImage block = false) :
    replaceImages placeholder previous content = content := by
  induction content generalizing previous with
  | nil => rfl
  | cons block content ih =>
    obtain ⟨hblock, hrest⟩ := forall_mem_cons.1 h
    cases block with
    | text text => rw [replaceImages, ih _ hrest]
    | image data mimeType => cases hblock

theorem withoutId_prepared {r : ToolResultMessage}
    (h : model.takesImages = true ∨ ∀ block ∈ r.content.getD [], isImage block = false) :
    withoutId (preparedResult model r) = withoutId r := by
  have hcontent : (preparedResult model r).content = some (r.content.getD []) := by
    rw [preparedResult]
    rcases h with himages | hblocks
    · rw [if_pos himages]
    · split
      · rfl
      · rw [replaceImagesWithPlaceholder, replaceImages_eq_self _ _ hblocks]
  simp only [withoutId, hcontent, Option.getD_some]
  rfl

/-- A model that takes no images gets none. -/
theorem preparedResult_isImage (h : model.takesImages = false) (r : ToolResultMessage) :
    ∀ block ∈ (preparedResult model r).content.getD [], isImage block = false := by
  simp only [preparedResult, h, Bool.false_eq_true, if_false, Option.getD_some]
  exact replaceImages_isImage _ _ _

theorem results_cons (msg : Message) (msgs : List Message) :
    results (msg :: msgs) = results [msg] ++ results msgs := by
  rw [results, results, results, ← filterMap_append, singleton_append]

theorem results_prepared (model : Model) (msgs : List Message) :
    results (imageAwareMessages model msgs) = (results msgs).map (preparedResult model) := by
  induction msgs with
  | nil => rfl
  | cons msg msgs ih =>
    rw [imageAwareMessages, map_cons, ← imageAwareMessages, results_cons, ih, results_cons msg,
      map_append]
    congr 1
    cases msg with
    | user u =>
      obtain ⟨u', hu⟩ := prepare_user model u
      rw [hu]
      rfl
    | assistant m =>
      rw [prepare_assistant]
      rfl
    | toolResult r =>
      rw [prepare_toolResult]
      rfl

/-- The first pass rewrites the ids of the results and nothing else. -/
theorem results_transformFrom (ids : IdMap) (msgs : List Message) :
    (results (transformFrom model normalize ids msgs)).map withoutId =
      (results msgs).map withoutId := by
  induction msgs generalizing ids with
  | nil => rfl
  | cons msg msgs ih =>
    rw [transformFrom]
    dsimp only
    rw [results_cons, map_append, ih, results_cons msg, map_append]
    cases msg <;> rfl

/-- The second pass keeps the results in their order. -/
theorem results_replayTurns (hready : ∀ turn ∈ turns, turn.Ready) (n : Nat) :
    (turns.flatMap Turn.results).Sublist ((replayTurns clock n turns).flatMap Turn.results) := by
  induction turns generalizing n with
  | nil => exact List.Sublist.refl _
  | cons turn turns ih =>
    obtain ⟨hturn, hturns⟩ := forall_mem_cons.1 hready
    cases turn with
    | user u => exact ih hturns _
    | assistant m rs =>
      rw [replayTurns]
      split
      · next hfailed =>
        rw [hturn.2 hfailed]
        exact ih hturns _
      · exact (sublist_append_left rs _).append (ih hturns _)

/-- A result of the replayed turns was there, or it is a text. -/
theorem mem_results_replayTurns {r : ToolResultMessage} (n : Nat)
    (h : r ∈ (replayTurns clock n turns).flatMap Turn.results) :
    r ∈ turns.flatMap Turn.results ∨ ∀ block ∈ r.content.getD [], isImage block = false := by
  have hsynthetic : ∀ existing n calls, r ∈ synthetic clock existing n calls →
      ∀ block ∈ r.content.getD [], isImage block = false := by
    intro existing n calls
    induction calls generalizing n with
    | nil => simp [synthetic]
    | cons call calls ih =>
      rw [synthetic]
      split
      · exact ih n
      · intro hmem
        rcases mem_cons.1 hmem with rfl | hrest
        · simp [noResult, isImage]
        · exact ih _ hrest
  induction turns generalizing n with
  | nil => exact .inl h
  | cons turn turns ih =>
    rw [flatMap_cons, mem_append]
    cases turn with
    | user u => exact (ih _ h).imp_left .inr
    | assistant m rs =>
      rw [replayTurns] at h
      split at h
      · exact (ih _ h).imp_left .inr
      · rw [flatMap_cons, mem_append] at h
        rcases h with hnew | hold
        · rcases mem_append.1 hnew with hreal | hmade
          · exact .inl (.inl hreal)
          · exact .inr (hsynthetic _ _ _ hmade)
        · exact (ih _ hold).imp_left .inr

/-! ## The two passes -/

/-- What the two passes make of a history. -/
theorem transformMessages_turns (clock : Nat → ℚ) (model : Model) (h : History normalize msgs) :
    ∃ turns : List Turn, (∀ turn ∈ turns, turn.Ready) ∧
      transformMessages clock msgs model normalize =
        (replayTurns clock 0 turns).flatMap Turn.messages ∧
      (Consistent model normalize (fun _ => none) msgs ↔ ∀ turn ∈ turns, turn.Fits) ∧
      (turns.flatMap Turn.results).map withoutId =
        ((results msgs).map (preparedResult model)).map withoutId := by
  obtain ⟨turns, rfl, hsound⟩ := h.exists_turns
  obtain ⟨prepared, hprepared, hsound'⟩ := prepared_turns model hsound
  obtain ⟨transformed, htransformed, hready, hfits⟩ :=
    @transformFrom_turns model _ _ .empty hsound'
  refine ⟨transformed, hready, ?_, ?_, ?_⟩
  · rw [transformMessages, hprepared, htransformed]
    exact insertSyntheticToolResults_turns hready ⟨[], [], []⟩
  · rw [← hfits, ← hprepared]
    exact (consistent_prepared _ _).symm
  · rw [← results_turns, ← htransformed, results_transformFrom, ← hprepared, results_prepared]

/-- The real results keep their content exactly when the model takes images or there are none. -/
theorem real_results_iff (turns : List Turn) (hready : ∀ turn ∈ turns, turn.Ready)
    (hresults : (turns.flatMap Turn.results).map withoutId =
      ((results msgs).map (preparedResult model)).map withoutId) :
    ((results msgs).map withoutId).Sublist
        (((replayTurns clock 0 turns).flatMap Turn.results).map withoutId) ↔
      model.takesImages = true ∨ NoImages msgs := by
  constructor
  · intro hsublist
    refine or_iff_not_imp_left.2 fun himages r hr block hblock => ?_
    rw [Bool.not_eq_true] at himages
    have hcontent : ∀ r₁ r₂ : ToolResultMessage, withoutId r₁ = withoutId r₂ →
        r₁.content.getD [] = r₂.content.getD [] := fun r₁ r₂ heq =>
      Option.some.inj (congrArg ToolResultMessage.content heq)
    obtain ⟨r', hr', heq⟩ := mem_map.1 (hsublist.subset (mem_map_of_mem hr))
    rw [← hcontent _ _ heq] at hblock
    rcases mem_results_replayTurns 0 hr' with hreal | htext
    · have hmem := mem_map_of_mem (f := withoutId) hreal
      rw [hresults, map_map] at hmem
      obtain ⟨r₀, -, heq₀⟩ := mem_map.1 hmem
      rw [← hcontent _ _ heq₀] at hblock
      exact preparedResult_isImage himages r₀ block hblock
    · exact htext block hblock
  · intro himages
    have hkept : ((results msgs).map (preparedResult model)).map withoutId =
        (results msgs).map withoutId := by
      rw [map_map]
      refine map_congr_left fun r hr => withoutId_prepared ?_
      exact himages.imp_right fun h => h r hr
    rw [← hkept, ← hresults]
    exact (results_replayTurns hready 0).map withoutId

/-- **When a transformed history is valid**: the ids of the results are consistent, and no image of
a result is left out. -/
theorem transformMessages_valid_iff (clock : Nat → ℚ) (msgs : List Message) (model : Model)
    (normalize : Option Normalizer) (h : History normalize msgs) :
    Valid msgs (transformMessages clock msgs model normalize) ↔
      Consistent model normalize (fun _ => none) msgs ∧
        (model.takesImages = true ∨ NoImages msgs) := by
  obtain ⟨turns, hready, hout, hfits, hresults⟩ := transformMessages_turns clock model h
  rw [hout, hfits, ← replayTurns_iff hready 0, ← real_results_iff turns hready hresults,
    ← results_turns]
  constructor
  · intro hvalid
    exact ⟨⟨(answered_turns _).1 hvalid.answered, (answering_turns _ _).1 hvalid.answering⟩,
      hvalid.real⟩
  · rintro ⟨⟨hanswered, hanswering⟩, hreal⟩
    refine ⟨(answered_turns _).2 hanswered, (answering_turns _ _).2 hanswering,
      fun m hm => ?_, hreal⟩
    obtain ⟨rs, hmem⟩ := assistant_mem_turns.1 hm
    exact replayTurns_finished 0 hmem

/-- A message of a model with one call. -/
def callBy (model id : String) : AssistantMessage where
  content := some [.toolCall ⟨id, "read", [], none⟩]
  api := "messages"
  provider := "provider"
  model := model
  usage := .zero
  stopReason := .toolUse
  errorMessage := none
  timestamp := 0

/-- The result of a call. -/
def readResult (id : String) : ToolResultMessage where
  toolCallId := id
  toolName := "read"
  content := some [.text "text"]
  details := none
  usage := none
  addedToolNames := none
  isError := false
  error := none
  resultMeta := none
  timestamp := 0

/-- The model that goes on. -/
def target : Model := ⟨"new", "provider", "messages", ["text"]⟩

/-- Ids that say whose they are. -/
def tagged : Normalizer := fun id _ => "t" ++ id

theorem callBy_sound (model id : String) (h : rs.map (·.toolCallId) ⊆ [id]) :
    (Turn.assistant (callBy model id) rs).Sound normalize := by
  have hids : (callBy model id).callIds = [id] := rfl
  refine ⟨fun r hr => ⟨rfl, ?_⟩, ?_, fun f hf a ha b hb _ => ?_⟩
  · rw [hids]
    exact h (mem_map_of_mem hr)
  · rw [hids]
    exact nodup_singleton id
  · rw [hids] at ha hb
    rw [mem_singleton.1 ha, mem_singleton.1 hb]

/-- The messages of two models; the second one has no result. -/
def twoModels : List Turn :=
  [.assistant (callBy "old" "1") [readResult "1"], .assistant (callBy "new" "2") []]

/-- The messages of two models that use the same id. -/
def sameIds : List Turn :=
  [.assistant (callBy "old" "1") [readResult "1"], .assistant (callBy "new" "1") [readResult "1"]]

theorem twoModels_history : History (some tagged) (twoModels.flatMap Turn.messages) := by
  refine History.of_turns (forall_mem_cons.2 ⟨?_, forall_mem_singleton.2 ?_⟩)
  · exact callBy_sound "old" "1" (List.Subset.refl _)
  · exact callBy_sound "new" "2" (nil_subset _)

theorem sameIds_history : History (some tagged) (sameIds.flatMap Turn.messages) := by
  refine History.of_turns (forall_mem_cons.2 ⟨?_, forall_mem_singleton.2 ?_⟩)
  · exact callBy_sound "old" "1" (List.Subset.refl _)
  · exact callBy_sound "new" "1" (List.Subset.refl _)

theorem twoModels_consistent : Consistent target (some tagged) (fun _ => none)
    (twoModels.flatMap Turn.messages) := by
  have hmessages : twoModels.flatMap Turn.messages = [.assistant (callBy "old" "1"),
      .toolResult (readResult "1"), .assistant (callBy "new" "2")] := rfl
  rw [hmessages, consistent_cons, consistent_cons, consistent_cons]
  refine ⟨fun m hm _ => ?_, by simp, fun m hm _ => ?_, fun before m after h => by simp at h⟩
  · obtain rfl := Message.assistant.inj hm
    exact ⟨by decide, by decide⟩
  · obtain rfl := Message.assistant.inj hm
    exact ⟨by decide, by decide⟩

theorem transformMessages_valid_iff_twoModels :
    Valid (twoModels.flatMap Turn.messages)
      (transformMessages (fun _ => 0) (twoModels.flatMap Turn.messages) target (some tagged)) :=
  (transformMessages_valid_iff _ _ target _ twoModels_history).2
    ⟨twoModels_consistent, .inr (by unfold NoImages; decide)⟩

/-- **An id that was rewritten for a message of another model is rewritten for the result of the
message that uses it again**, whose call keeps the id. -/
theorem sameIds_not_valid :
    ¬∀ (clock : Nat → ℚ) (msgs : List Message) (model : Model) (normalize : Option Normalizer),
      History normalize msgs → Valid msgs (transformMessages clock msgs model normalize) := by
  intro h
  have hvalid := h (fun _ => 0) _ target _ sameIds_history
  obtain ⟨m, hclosest, hmem⟩ := hvalid.answering
    [.assistant (callBy "old" "t1"), .toolResult (readResult "t1"), .assistant (callBy "new" "1")]
    (readResult "t1") [.toolResult (noResult 0 ⟨"1", "read", [], none⟩)] (by decide)
  cases hclosest
  revert hmem
  decide

end BeauPi.Providers
