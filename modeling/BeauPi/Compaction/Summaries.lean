import BeauPi.Compaction.Compact
import BeauPi.Compaction.Lossless

/-!
# What the next compaction knows of the previous one

* `SummarySurvives` — the previous summary is part of a prompt of the next compaction, and its
  files are among those of the next.
* `FirstTurnFits` — the next compaction does not split the first turn of what is left.
* `summarySurvives_iff` — the two are the same for every path of produced compactions.
-/

namespace BeauPi.Compaction

open Llm Sessions Machine List
open Option (any_some some.inj)

/-! ## Vocabulary -/

/-- The pattern occurs in the text. -/
def Contains (text pattern : String) : Prop := pattern.toList <:+: text.toList

/-- The compaction was produced by `prepareCompaction` and `compact`. -/
def MadeFrom (pre : List SessionEntry) (data : CompactionData) : Prop :=
  ∃ settings prep summarizer customInstructions calls result,
    prepareCompaction pre settings = some prep ∧
    compact summarizer prep customInstructions = (calls, .ok result) ∧ data = result.toData

/-- Every compaction entry was produced by `prepareCompaction` and `compact` on the path before
it. -/
def MadeByCompact (path : List SessionEntry) : Prop := EachCompaction MadeFrom path

/-- The files that a compaction entry names. -/
def filesOf (data : CompactionData) : CompactionDetails where
  readFiles := (data.details.map (detailsList "readFiles")).getD []
  modifiedFiles := (data.details.map (detailsList "modifiedFiles")).getD []

/-- The previous files are among the next ones. -/
def FilesSurvive (previous next : CompactionDetails) : Prop :=
  (∀ f ∈ previous.modifiedFiles, f ∈ next.modifiedFiles) ∧
    ∀ f ∈ previous.readFiles, f ∈ next.readFiles ∨ f ∈ next.modifiedFiles

/-- The previous summary is part of a prompt that was sent, and the previous files are among those
of the result, if there is one. -/
def SummarySurvives (path : List SessionEntry) (calls : List String)
    (outcome : Except String CompactionResult) : Prop :=
  ∀ index previous, prevCompaction? path = some (index, previous) →
    (∃ call ∈ calls, Contains call previous.summary) ∧
      ∀ result, outcome = .ok result → FilesSurvive (filesOf previous) result.details

/-- A cut that splits the first turn of what the previous compaction left: `lead` holds no message,
`turn` starts the turn, `middle` continues it up to the entry from which the budget is not spent,
and the cut does not fall on the start of another turn. -/
structure SplitsFirstTurn (left : List SessionEntry) (keepRecentTokens : ℚ)
    (lead : List SessionEntry) (turn : SessionEntry) (middle : List SessionEntry)
    (cutEntry : SessionEntry) (after : List SessionEntry) : Prop where
  eq : left = lead ++ turn :: (middle ++ cutEntry :: after)
  silent : ∀ e ∈ lead, getMessageFromEntryForCompaction e = none
  starts : isTurnStartEntry turn = true
  continues : ∀ e ∈ middle, isTurnStartEntry e = false
  midTurn : isTurnStartEntry cutEntry = false ∨ ∃ e ∈ middle.getLast?, isMetadataEntry e = true
  allowed : isCutPointEntry cutEntry = true
  later : spendsBudget keepRecentTokens after = false
  earlier : ∀ first e rest, turn :: middle = first ++ e :: rest → isCutPointEntry e = true →
    spendsBudget keepRecentTokens (rest ++ cutEntry :: after) = true

/-- The cut does not split the first turn of what the previous compaction left, unless its summary
happens to occur in the prompt for that turn. -/
def FirstTurnFits (path : List SessionEntry) (keepRecentTokens : ℚ) : Prop :=
  ∀ skipped kept entry data post, Split path (skipped ++ kept) entry data post →
    kept.head?.map (·.id) = some data.firstKeptEntryId →
    ∀ lead turn middle cutEntry after,
      SplitsFirstTurn (kept ++ entry :: post) keepRecentTokens lead turn middle cutEntry after →
      Contains (turnPrefixPrompt ((turn :: middle).filterMap getMessageFromEntryForCompaction))
        data.summary

variable {path : List SessionEntry} {settings : CompactionSettings}
  {prep : CompactionPreparation} {summarizer : String → AssistantMessage}
  {customInstructions : Option String} {calls : List String}
  {outcome : Except String CompactionResult} {result : CompactionResult}

/-! ## Files -/

variable {members : List String} {f : String}

theorem mem_addTo {g : String} :
    f ∈ addTo members g ↔ f ∈ members ∨ f = g := by
  unfold addTo
  split_ifs with h
  · constructor
    · exact .inl
    · rintro (hf | rfl)
      · exact hf
      · exact h
  · simp

theorem mem_foldl_addTo {added : List String} :
    f ∈ added.foldl addTo members ↔ f ∈ members ∨ f ∈ added := by
  induction added generalizing members with
  | nil => simp
  | cons g rest ih =>
    rw [foldl_cons, ih, mem_addTo, mem_cons, or_assoc]

/-- File operations only grow. -/
structure Grows (before after : FileOperations) : Prop where
  read : ∀ f ∈ before.read, f ∈ after.read
  written : ∀ f ∈ before.written, f ∈ after.written
  edited : ∀ f ∈ before.edited, f ∈ after.edited

theorem Grows.refl (fileOps : FileOperations) : Grows fileOps fileOps :=
  ⟨fun _ => id, fun _ => id, fun _ => id⟩

theorem Grows.trans {a b c : FileOperations} (hab : Grows a b) (hbc : Grows b c) : Grows a c :=
  ⟨fun f hf => hbc.read f (hab.read f hf), fun f hf => hbc.written f (hab.written f hf),
    fun f hf => hbc.edited f (hab.edited f hf)⟩

theorem grows_call (fileOps : FileOperations) (call : ToolCall) :
    Grows fileOps (extractFileOpsFromCall fileOps call) := by
  unfold extractFileOpsFromCall
  split
  · exact .refl _
  · split_ifs
    · exact .refl _
    · exact ⟨fun f hf => mem_addTo.2 (.inl hf), fun _ => id, fun _ => id⟩
    · exact ⟨fun _ => id, fun f hf => mem_addTo.2 (.inl hf), fun _ => id⟩
    · exact ⟨fun _ => id, fun _ => id, fun f hf => mem_addTo.2 (.inl hf)⟩
    · exact .refl _

/-- What a step of a fold only adds to, the fold only adds to. -/
theorem grows_foldl {α : Type} {step : FileOperations → α → FileOperations}
    (hstep : ∀ fileOps x, Grows fileOps (step fileOps x)) (xs : List α) (fileOps : FileOperations) :
    Grows fileOps (xs.foldl step fileOps) := by
  induction xs generalizing fileOps with
  | nil => exact .refl _
  | cons x rest ih => exact (hstep fileOps x).trans (ih _)

theorem grows_message (fileOps : FileOperations) (message : AgentMessage) :
    Grows fileOps (extractFileOpsFromMessage fileOps message) := by
  cases message with
  | assistant m => exact grows_foldl grows_call m.toolCalls fileOps
  | _ => exact .refl _

theorem mem_sortTexts {texts : List String} : f ∈ sortTexts texts ↔ f ∈ texts :=
  mem_mergeSort

variable {fileOps : FileOperations}

/-- Edited and written files are modified ones. -/
theorem mem_modifiedFiles :
    f ∈ (computeFileLists fileOps).modifiedFiles ↔ f ∈ fileOps.edited ∨ f ∈ fileOps.written := by
  simp [computeFileLists, mem_sortTexts, mem_foldl_addTo]

/-- Files that were read are listed as read unless they were modified. -/
theorem mem_readFiles :
    f ∈ (computeFileLists fileOps).readFiles ↔
      f ∈ fileOps.read ∧ ¬(f ∈ fileOps.edited ∨ f ∈ fileOps.written) := by
  simp [computeFileLists, mem_sortTexts, mem_foldl_addTo]

/-- **The files of the previous compaction are among those of the next.** -/
theorem filesSurvive {previous : CompactionData} (hhook : previous.fromHook ≠ some true)
    {prep : CompactionPreparation} {messages : List AgentMessage}
    (hops : prep.fileOps = messages.foldl extractFileOpsFromMessage
      (previousFileOps (some previous))) :
    FilesSurvive (filesOf previous) (computeFileLists prep.fileOps) := by
  have hgrows := grows_foldl grows_message messages (previousFileOps (some previous))
  rw [← hops] at hgrows
  have hprevious : (∀ f ∈ (filesOf previous).readFiles,
        f ∈ (previousFileOps (some previous)).read) ∧
      ∀ f ∈ (filesOf previous).modifiedFiles, f ∈ (previousFileOps (some previous)).edited := by
    cases hdetails : previous.details with
    | none => simp [filesOf, hdetails]
    | some details =>
      cases hflag : previous.fromHook with
      | none => simp [filesOf, previousFileOps, hdetails, hflag, mem_foldl_addTo]
      | some flag =>
        cases flag with
        | false => simp [filesOf, previousFileOps, hdetails, hflag, mem_foldl_addTo]
        | true => exact absurd hflag hhook
  constructor
  · intro f hf
    exact mem_modifiedFiles.2 (.inl (hgrows.edited f (hprevious.2 f hf)))
  · intro f hf
    rw [mem_readFiles, mem_modifiedFiles]
    have hread := hgrows.read f (hprevious.1 f hf)
    tauto

/-! ## Calls -/

/-- A text around a pattern contains it. -/
theorem contains_append (before pattern after : String) :
    Contains (before ++ pattern ++ after) pattern := by
  refine ⟨before.toList, after.toList, ?_⟩
  rw [String.toList_append, String.toList_append]

/-- The prompt for the history contains the previous summary. -/
theorem contains_summaryPrompt (messages : List AgentMessage) (customInstructions : Option String)
    (summary : String) : Contains (summaryPrompt messages customInstructions (some summary)) summary := by
  by_cases hempty : summary = ""
  · subst hempty
    exact nil_infix
  · have h := contains_append (conversationText messages ++ "<previous-summary>\n") summary
      ("\n</previous-summary>\n\n" ++
        if customInstructions.getD "" = "" then updateSummarizationPrompt
        else updateSummarizationPrompt ++ "\n\nAdditional focus: " ++ customInstructions.getD "")
    simpa only [summaryPrompt, Option.getD_some, if_neg hempty, String.append_assoc] using h

/-- A turn split with nothing before it is summarized by one call, which gets the turn only. -/
theorem calls_of_split (hsplit : prep.isSplitTurn = true) (hturn : prep.turnPrefixMessages ≠ [])
    (hhistory : prep.messagesToSummarize = []) :
    (compact summarizer prep customInstructions).1 = [turnPrefixPrompt prep.turnPrefixMessages] := by
  simp [compact, hsplit, hturn, hhistory, generateTurnPrefixSummary]

/-- In every other case the history is summarized together with the previous summary. -/
theorem summaryPrompt_mem_calls
    (h : ¬(prep.isSplitTurn = true ∧ prep.turnPrefixMessages ≠ []) ∨
      prep.messagesToSummarize ≠ []) :
    summaryPrompt prep.messagesToSummarize customInstructions prep.previousSummary ∈
      (compact summarizer prep customInstructions).1 := by
  unfold compact
  by_cases hsplit : prep.isSplitTurn = true ∧ prep.turnPrefixMessages ≠ []
  · have hhistory : prep.messagesToSummarize ≠ [] := h.resolve_left (not_not.2 hsplit)
    simp only [if_pos hsplit, if_pos hhistory, generateSummaryWithUsage]
    split <;> simp
  · simp [if_neg hsplit, generateSummaryWithUsage]

/-- A result is what the preparation makes of some summary. -/
theorem result_of_compact (h : (compact summarizer prep customInstructions).2 = .ok result) :
    ∃ summary usage, result = finishCompaction prep summary usage := by
  have hmap : ∀ (outcome : Except String (String × Usage)) (f : String × Usage → String × Usage),
      outcome.map (fun r => finishCompaction prep (f r).1 (f r).2) = .ok result →
      ∃ summary usage, result = finishCompaction prep summary usage := by
    intro outcome f hok
    cases outcome with
    | error message => cases hok
    | ok r => exact ⟨_, _, (Except.ok.inj hok).symm⟩
  unfold compact at h
  split_ifs at h with hsplit hhistory
  · dsimp only at h
    split at h
    · cases h
    · exact hmap _ (fun r => (splitSummary _ r.1, _)) h
  · exact hmap _ (fun r => (splitSummary _ r.1, r.2)) h
  · exact hmap _ id h

/-! ## Splitting the first turn -/

variable {e : SessionEntry}

/-- An entry that starts a turn is one at which a cut is allowed. -/
theorem isCutPointEntry_of_turnStart (h : isTurnStartEntry e = true) :
    isCutPointEntry e = true := by
  simp only [isTurnStartEntry, isCutPointEntry, Bool.and_eq_true, any_eq_true] at h ⊢
  obtain ⟨hnot, m, hm, hstart⟩ := h
  refine ⟨hnot, m, hm, ?_⟩
  cases m <;> simp_all [isTurnStartMessage, isCutPointMessage]

/-- An entry at which a cut is allowed has a message. -/
theorem getMessage_of_cutPoint (h : isCutPointEntry e = true) :
    getMessageFromEntryForCompaction e ≠ none := by
  simp only [isCutPointEntry, Bool.and_eq_true, Bool.not_eq_true', any_eq_true] at h
  obtain ⟨hnot, m, hm, -⟩ := h
  rw [getMessageFromEntryForCompaction, hnot]
  cases hmessages : sessionEntryToContextMessages e with
  | nil => simp [hmessages] at hm
  | cons x rest => simp

theorem getMessage_of_metadata (h : isMetadataEntry e = true) :
    getMessageFromEntryForCompaction e = none := by
  simp only [isMetadataEntry, Bool.and_eq_true, Bool.not_eq_true', List.isEmpty_iff] at h
  simp [getMessageFromEntryForCompaction, h.1, h.2]

/-- The messages between two indices, seen from the boundary. -/
theorem messagesBetween_drop (path : List SessionEntry) {b i j : Nat} (hbi : b ≤ i) :
    messagesBetween path i j = (((path.drop b).drop (i - b)).take (j - i)).filterMap
      getMessageFromEntryForCompaction := by
  rw [messagesBetween, drop_drop, show b + (i - b) = i by omega]

/-- Metadata entries at the end of a list contribute no messages. -/
theorem filterMap_take_getMessage {entries : List SessionEntry} {n : Nat}
    (h : ∀ j e, n ≤ j → entries[j]? = some e → isMetadataEntry e = true) :
    (entries.take n).filterMap getMessageFromEntryForCompaction =
      entries.filterMap getMessageFromEntryForCompaction := by
  conv_rhs => rw [← take_append_drop n entries, filterMap_append]
  refine (List.append_right_eq_self.2 (List.filterMap_eq_nil_iff.2 ?_)).symm
  intro e he
  obtain ⟨j, hj⟩ := List.mem_iff_getElem?.1 he
  rw [getElem?_drop] at hj
  exact getMessage_of_metadata (h (n + j) e (by omega) hj)

variable {chosen cut historyEnd : Nat}

/-- **A split without history splits the first turn**, and the turn's prefix is what is summarized
of it. -/
theorem Prepared.splitsFirstTurn (h : Prepared path settings prep chosen cut historyEnd)
    (hsplit : prep.isSplitTurn = true) (hhistory : prep.messagesToSummarize = []) :
    ∃ lead turn middle cutEntry after,
      SplitsFirstTurn (path.drop (boundaryStart path)) settings.keepRecentTokens lead turn middle
        cutEntry after ∧
      (turn :: middle).filterMap getMessageFromEntryForCompaction = prep.turnPrefixMessages := by
  obtain ⟨hlt, hturn, hnone⟩ := h.split hsplit
  have hle := h.start_le
  have hcut := h.cut_le
  generalize hb : boundaryStart path = b at hle
  have hat : ∀ j, (path.drop b)[j]? = path[b + j]? := fun j => getElem?_drop
  -- the cut entry, and the start of the turn before it
  obtain ⟨cutEntry, hcutEntry, hallowed⟩ := (Option.any_eq_true _ _).1 h.allowed
  obtain ⟨turn, hturnEntry, hstarts⟩ := (Option.any_eq_true _ _).1 hturn
  have hk : (path.drop b)[chosen - b]? = some cutEntry := by
    rw [hat, show b + (chosen - b) = chosen by omega, hcutEntry]
  obtain ⟨before, after, hleft, hbefore⟩ := around_index hk
  have hh : before[historyEnd - b]? = some turn := by
    have : (path.drop b)[historyEnd - b]? = some turn := by
      rw [hat, show b + (historyEnd - b) = historyEnd by omega, hturnEntry]
    rwa [hleft, getElem?_append_left (by omega)] at this
  obtain ⟨lead, middle, rfl, hlead⟩ := around_index hh
  have hafter : path.drop (chosen + 1) = after := by
    have := (around hleft).2
    rw [hbefore, drop_drop] at this
    rwa [show chosen + 1 = b + (chosen - b + 1) by omega]
  have hlength : lead.length + 1 + middle.length = chosen - b := by
    rw [← hbefore]; simp; omega
  have hmiddle : ∀ (j : Nat) (e : SessionEntry), middle[j]? = some e →
      path[historyEnd + 1 + j]? = some e ∧ historyEnd + 1 + j < chosen := by
    intro j e he
    have hj := (List.getElem?_eq_some_iff.1 he).1
    refine ⟨?_, by omega⟩
    rw [show historyEnd + 1 + j = b + (lead.length + 1 + j) by omega, ← hat, hleft,
      append_assoc, getElem?_append_right (by omega), cons_append,
      show lead.length + 1 + j - lead.length = j + 1 by omega, getElem?_cons_succ,
      getElem?_append_left hj, he]
  have hmeta : ∀ e ∈ middle, isTurnStartEntry e = false := by
    intro e he
    obtain ⟨j, hj⟩ := List.mem_iff_getElem?.1 he
    obtain ⟨hget, hchosen⟩ := hmiddle j e hj
    by_cases hjc : historyEnd + 1 + j ≤ cut
    · simpa [hget] using hnone _ (by omega) hjc
    · exact not_turnStart_of_metadata (by simpa [hget] using h.metadata _ (by omega) hchosen)
  refine ⟨lead, turn, middle, cutEntry, after, ?_, ?_⟩
  · exact {
      eq := by rw [hleft]; simp
      silent := by
        rw [h.summarized, hb, messagesBetween_drop path le_rfl, Nat.sub_self, drop_zero,
          hleft, append_assoc, ← hlead, take_left] at hhistory
        exact List.filterMap_eq_nil_iff.1 hhistory
      starts := hstarts
      continues := hmeta
      midTurn := by
        rcases Nat.eq_or_lt_of_le hcut with heq | hlt'
        · left
          have := hnone cut hlt le_rfl
          rwa [heq, hcutEntry, any_some] at this
        · right
          have hpos : 0 < middle.length := by omega
          refine ⟨middle[middle.length - 1], ?_, ?_⟩
          · rw [getLast?_eq_getElem?]
            simp [hpos]
          · obtain ⟨hget, -⟩ := hmiddle (middle.length - 1) _ (getElem?_eq_getElem (by omega))
            simpa [hget] using h.metadata (historyEnd + 1 + (middle.length - 1)) (by omega)
              (by omega)
      allowed := hallowed
      later := by
        rw [← hafter]
        by_contra hspent
        have := (h.spent (by simpa using hspent) historyEnd h.start_le (by
          have := h.chosen_lt; omega) (by
          rw [hturnEntry, any_some, isCutPointEntry_of_turnStart hstarts])).1
        omega
      earlier := fun first e rest hsplit' hcutPoint => by
        have hwhole : path.drop b = (lead ++ first) ++ e :: (rest ++ cutEntry :: after) := by
          rw [hleft, hsplit']; simp
        obtain ⟨hget, hdrop⟩ := around hwhole
        rw [hat] at hget
        rw [drop_drop] at hdrop
        have hlen : first.length + rest.length + 1 = middle.length + 1 := by
          have := congrArg List.length hsplit'
          simp at this
          omega
        rw [← hdrop, ← Nat.add_assoc]
        refine h.before _ (by omega) (by simp; omega) ?_
        rw [hget, any_some, hcutPoint] }
  · rw [h.turnPrefix, messagesBetween_drop path hle, hleft, append_assoc, ← hlead,
      drop_left, cons_append]
    have hshort : (turn :: (middle ++ cutEntry :: after)).take (cut - historyEnd) =
        (turn :: middle).take (cut - historyEnd) := by
      rw [← cons_append, take_append_of_le_length (by simp; omega)]
    rw [hshort, filterMap_take_getMessage]
    intro j e hj he
    rw [show j = (j - 1) + 1 by omega, getElem?_cons_succ] at he
    obtain ⟨hget, hchosen⟩ := hmiddle _ e he
    simpa [hget] using h.metadata (historyEnd + 1 + (j - 1)) (by omega) hchosen

/-- **A preparation that splits the first turn has no history**, and the turn's prefix is all of
it that comes before the cut. -/
theorem Prepared.of_splitsFirstTurn (h : Prepared path settings prep chosen cut historyEnd)
    {lead middle after : List SessionEntry} {turn cutEntry : SessionEntry}
    (hfirst : SplitsFirstTurn (path.drop (boundaryStart path)) settings.keepRecentTokens lead turn
      middle cutEntry after) :
    prep.isSplitTurn = true ∧ prep.messagesToSummarize = [] ∧
      prep.turnPrefixMessages = (turn :: middle).filterMap getMessageFromEntryForCompaction := by
  have hstart := h.start_le
  have hhistory := h.history_le
  have hcut := h.cut_le
  generalize hb : boundaryStart path = b at hfirst hstart
  have hat : ∀ j, (path.drop b)[j]? = path[b + j]? := fun j => getElem?_drop
  -- the entry of the decomposition is the cut that the budget asks for
  have hwhole : path.drop b = (lead ++ turn :: middle) ++ cutEntry :: after := by
    rw [hfirst.eq]; simp
  obtain ⟨hget, hdrop⟩ := around hwhole
  obtain ⟨hgetTurn, -⟩ := around hfirst.eq
  have hlength : (lead ++ turn :: middle).length = lead.length + 1 + middle.length := by
    simp; omega
  rw [hat, hlength] at hget
  rw [hat] at hgetTurn
  rw [drop_drop, hlength, ← Nat.add_assoc] at hdrop
  have hlead : ∀ j, j < lead.length → ∃ e ∈ lead, path[b + j]? = some e := by
    intro j hj
    refine ⟨lead[j], getElem_mem hj, ?_⟩
    rw [← hat, hfirst.eq, getElem?_append_left hj, getElem?_eq_getElem hj]
  have hmiddle : ∀ j, j < middle.length → ∃ e ∈ middle, path[b + (lead.length + 1 + j)]? = some e ∧
      middle[j]? = some e := by
    intro j hj
    refine ⟨middle[j], getElem_mem hj, ?_, getElem?_eq_getElem hj⟩
    rw [← hat, hfirst.eq, getElem?_append_right (by omega),
      show lead.length + 1 + j - lead.length = j + 1 by omega, getElem?_cons_succ,
      getElem?_append_left hj, getElem?_eq_getElem hj]
  have hchosen : chosen = b + (lead.length + 1 + middle.length) := by
    rcases Nat.lt_trichotomy chosen (b + (lead.length + 1 + middle.length)) with hlt | heq | hgt
    · exfalso
      obtain ⟨e, he, hallowed⟩ := (Option.any_eq_true _ _).1 h.allowed
      -- an earlier allowed entry spends the budget, then the cut entry would too
      have hspends : spendsBudget settings.keepRecentTokens (path.drop (chosen + 1)) = true := by
        by_cases hin : chosen - b < lead.length
        · obtain ⟨x, hx, hgetx⟩ := hlead _ hin
          rw [show b + (chosen - b) = chosen by omega, he] at hgetx
          obtain rfl := some.inj hgetx
          exact absurd (hfirst.silent e hx) (getMessage_of_cutPoint hallowed)
        · have hturn : (turn :: middle)[chosen - b - lead.length]? = some e := by
            have hleft : (path.drop b)[chosen - b]? = some e := by
              rw [hat, show b + (chosen - b) = chosen by omega, he]
            rw [hwhole, getElem?_append_left (by omega),
              getElem?_append_right (by omega)] at hleft
            exact hleft
          obtain ⟨first, rest, hsplit, hfirstLength⟩ := around_index hturn
          have hsp := hfirst.earlier first e rest hsplit hallowed
          have hsame : path.drop (chosen + 1) = rest ++ cutEntry :: after := by
            have hpath : path.drop b = (lead ++ first) ++ e :: (rest ++ cutEntry :: after) := by
              rw [hwhole, hsplit]; simp
            have := (around hpath).2
            rwa [drop_drop, length_append, hfirstLength,
              show b + (lead.length + (chosen - b - lead.length) + 1) = chosen + 1 by omega] at this
          rwa [hsame]
      have := (h.spent hspends _ (by omega) (List.getElem?_eq_some_iff.1 hget).1
        (by rw [hget, any_some, hfirst.allowed])).2
      rw [hdrop, hfirst.later] at this
      cases this
    · exact heq
    · exfalso
      have := h.before _ (by omega) hgt (by rw [hget, any_some, hfirst.allowed])
      rw [hdrop, hfirst.later] at this
      cases this
  -- the turn starts before the cut
  have hturnLt : b + lead.length < cut := by
    by_contra hge
    have := h.metadata (b + lead.length) (by omega) (by omega)
    rw [hgetTurn, any_some] at this
    exact absurd (getMessage_of_metadata this)
      (getMessage_of_cutPoint (isCutPointEntry_of_turnStart hfirst.starts))
  have hnotStart : (path[cut]?).any isTurnStartEntry = false := by
    rcases Nat.eq_or_lt_of_le hcut with heq | hlt
    · rcases hfirst.midTurn with hmid | ⟨last, hlast, hmeta⟩
      · rw [heq, hchosen, hget, any_some, hmid]
      · exfalso
        have hpos : 0 < middle.length := by
          cases middle with
          | nil => simp at hlast
          | cons x rest => simp
        obtain ⟨e, -, hgete, hmid⟩ := hmiddle (middle.length - 1) (by omega)
        have hsame : last = e := by
          rw [getLast?_eq_getElem?, hmid] at hlast
          exact (Option.mem_some.1 hlast).symm
        have := h.maximal (b + (lead.length + 1 + (middle.length - 1))) (by omega) (by omega)
        rw [hgete, ← hsame, any_some, hmeta] at this
        cases this
    · obtain ⟨e, he, hmeta⟩ := (Option.any_eq_true _ _).1 (h.metadata cut le_rfl hlt)
      rw [he, any_some, not_turnStart_of_metadata hmeta]
  have hsplit : prep.isSplitTurn = true := by
    by_contra hwhole
    rcases h.startsTurn (by simpa using hwhole) with hstarts | hnone
    · rw [hnotStart] at hstarts
      cases hstarts
    · have := hnone (b + lead.length) (by omega) hturnLt.le
      rw [hgetTurn, any_some, hfirst.starts] at this
      cases this
  obtain ⟨hlt, hturn, hnone⟩ := h.split hsplit
  have heq : historyEnd = b + lead.length := by
    rcases Nat.lt_trichotomy historyEnd (b + lead.length) with hlt' | heq | hgt
    · have := hnone (b + lead.length) hlt' hturnLt.le
      rw [hgetTurn, any_some, hfirst.starts] at this
      cases this
    · exact heq
    · exfalso
      obtain ⟨e, he, hgete, -⟩ := hmiddle (historyEnd - (b + lead.length + 1)) (by omega)
      rw [show b + (lead.length + 1 + (historyEnd - (b + lead.length + 1))) = historyEnd by omega]
        at hgete
      rw [hgete, any_some, hfirst.continues e he] at hturn
      cases hturn
  refine ⟨hsplit, ?_, ?_⟩
  · rw [h.summarized, hb, messagesBetween_drop path le_rfl, Nat.sub_self, drop_zero, heq,
      hfirst.eq, Nat.add_sub_cancel_left, take_left, filterMap_eq_nil_iff]
    exact hfirst.silent
  · rw [h.turnPrefix, messagesBetween_drop path (by omega : b ≤ historyEnd), heq,
      Nat.add_sub_cancel_left, hfirst.eq, drop_left, ← cons_append,
      take_append_of_le_length (by simp; omega), filterMap_take_getMessage]
    intro j e hj he
    rw [show j = (j - 1) + 1 by omega, getElem?_cons_succ] at he
    obtain ⟨x, -, hgetx, hx⟩ := hmiddle (j - 1) (List.getElem?_eq_some_iff.1 he).1
    obtain rfl := some.inj (hx.symm.trans he)
    have := h.metadata (b + (lead.length + 1 + (j - 1))) (by omega) (by
      have := (List.getElem?_eq_some_iff.1 he).1; omega)
    rwa [hgetx, any_some] at this

/-- What the previous compaction left starts at the boundary. -/
theorem kept_eq_drop {skipped kept post : List SessionEntry} {entry : SessionEntry}
    {data : CompactionData} (hnodup : (path.map (·.id)).Nodup)
    (h : Split path (skipped ++ kept) entry data post)
    (hfirst : kept.head?.map (·.id) = some data.firstKeptEntryId) :
    kept ++ entry :: post = path.drop (boundaryStart path) := by
  have hb : ((skipped ++ kept)[skipped.length]?).map (·.id) = some data.firstKeptEntryId := by
    rw [getElem?_append_right le_rfl, Nat.sub_self, ← head?_eq_getElem?, hfirst]
  rw [boundaryStart_eq hnodup h hb, h.eq, append_assoc, drop_left]

/-! ## The result -/

/-- **The previous summary and its files survive a compaction exactly when it does not split the
first turn of what the previous one left.** -/
theorem summarySurvives_iff (hpath : IsSessionPath path) (hmade : MadeByCompact path)
    (hprep : prepareCompaction path settings = some prep)
    (hcompact : compact summarizer prep customInstructions = (calls, outcome)) :
    SummarySurvives path calls outcome ↔ FirstTurnFits path settings.keepRecentTokens := by
  obtain ⟨chosen, cut, historyEnd, hspec⟩ := prepareCompaction_spec hprep
  have hcalls : calls = (compact summarizer prep customInstructions).1 := by rw [hcompact]
  have houtcome : outcome = (compact summarizer prep customInstructions).2 := by rw [hcompact]
  rcases exists_split path with hnone | ⟨pre, entry, data, post, hsplit⟩
  · -- no earlier compaction
    refine ⟨fun _ skipped kept e data post hsplit => ?_, fun _ index previous hprev => ?_⟩
    · have := hnone e (by rw [hsplit.eq]; simp)
      rw [isCompaction_of_data hsplit.data] at this
      cases this
    · rw [prevCompaction?_none hnone] at hprev
      cases hprev
  · have hproduced : Produced path := by
      intro pre entry data post heq hdata
      obtain ⟨settings, prep, summarizer, custom, calls, result, hprep, hcompact, rfl⟩ :=
        hmade pre entry data post heq hdata
      refine ⟨settings, prep, hprep, ?_⟩
      obtain ⟨summary, usage, rfl⟩ := result_of_compact (by rw [hcompact])
      rfl
    have hprev := prevCompaction?_split hsplit
    have hsummary : prep.previousSummary = some data.summary := by
      rw [hspec.previousSummary, hprev]; rfl
    obtain ⟨b, c, hbc, hc, hb, -⟩ := hproduced.kept hsplit
    have hstart := boundaryStart_eq hpath.nodup hsplit hb
    -- the files survive in any case
    have hfiles : ∀ result, outcome = .ok result → FilesSurvive (filesOf data) result.details := by
      intro result hok
      rw [houtcome] at hok
      obtain ⟨summary, usage, rfl⟩ := result_of_compact hok
      obtain ⟨settings', prep', summarizer', custom', calls', result', -, -, rfl⟩ :=
        hmade pre entry data post hsplit.eq hsplit.data
      have hops : prep.fileOps = (prep.messagesToSummarize ++
          prep.turnPrefixMessages).foldl extractFileOpsFromMessage
            (previousFileOps (some result'.toData)) := by
        rw [hspec.fileOps, hprev]
        rfl
      exact filesSurvive (by simp [CompactionResult.toData]) hops
    constructor
    · intro hsurvives skipped kept entry' data' post' hsplit' hfirst lead turn middle cutEntry after
        hturn
      obtain ⟨-, rfl⟩ := Prod.mk.inj (Option.some.inj
        ((prevCompaction?_split hsplit').symm.trans hprev))
      rw [kept_eq_drop hpath.nodup hsplit' hfirst] at hturn
      obtain ⟨hs, hhistory, hinitial⟩ := hspec.of_splitsFirstTurn hturn
      obtain ⟨⟨call, hcall, hcontains⟩, -⟩ := hsurvives _ _ hprev
      rw [hcalls, calls_of_split hs (hspec.nonempty.resolve_left (not_not.2 hhistory)) hhistory,
        mem_singleton] at hcall
      rwa [hcall, hinitial] at hcontains
    · intro hfits index previous hprevious
      obtain ⟨-, rfl⟩ := Prod.mk.inj (Option.some.inj (hprev.symm.trans hprevious))
      refine ⟨?_, hfiles⟩
      by_cases hs : prep.isSplitTurn = true ∧ prep.messagesToSummarize = []
      · obtain ⟨lead, turn, middle, cutEntry, after, hturn, hinitial⟩ :=
          hspec.splitsFirstTurn hs.1 hs.2
        have hpre : pre = pre.take b ++ pre.drop b := (take_append_drop b pre).symm
        have hfirst : (pre.drop b).head?.map (·.id) = some data.firstKeptEntryId := by
          rw [head?_drop, hb]
        have hsplit' : Split path (pre.take b ++ pre.drop b) entry data post := by
          rw [← hpre]; exact hsplit
        rw [← kept_eq_drop hpath.nodup hsplit' hfirst] at hturn
        have hcontains := hfits _ _ _ _ _ hsplit' hfirst _ _ _ _ _ hturn
        rw [hinitial] at hcontains
        refine ⟨_, ?_, hcontains⟩
        rw [hcalls, calls_of_split hs.1 (hspec.nonempty.resolve_left (not_not.2 hs.2)) hs.2]
        exact mem_singleton_self _
      · refine ⟨_, ?_, contains_summaryPrompt prep.messagesToSummarize customInstructions
          data.summary⟩
        rw [hcalls, ← hsummary]
        refine summaryPrompt_mem_calls ?_
        by_cases hhistory : prep.messagesToSummarize = []
        · exact .inl fun hboth => hs ⟨hboth.1, hhistory⟩
        · exact .inr hhistory

/-! ## A session of one long turn -/

/-- The messages of the second of the two turns. -/
def secondTurn : List AgentMessage :=
  [.user ⟨some (.str "abcd"), 0⟩, .assistant ⟨some [.text "abcd"], "p", "m", .zero, .stop, none, 0⟩]

/-- A summary that is longer than the prompt for the second turn. -/
def longSummary : String := turnPrefixPrompt secondTurn ++ "!"

/-- A summarizer that always answers with the long summary. -/
def longSummarizer (_ : String) : AssistantMessage :=
  ⟨some [.text longSummary], "p", "m", .zero, .stop, none, 0⟩

/-- The compaction that `compact` makes of two turns when it keeps the second. -/
def madeCompaction : CompactionData :=
  ⟨longSummary ++ formatFileOperations (computeFileLists createFileOps), "u2", 4,
    some (computeFileLists createFileOps).toJson, some .zero, some false⟩

/-- Two turns, a compaction that keeps the second, and `entry`. -/
def afterCompaction (entry : SessionEntry) : List SessionEntry :=
  twoTurns ++ [⟨"c1", "a2", "2026-01-01T00:00:00.000Z", .compaction madeCompaction⟩] ++ [entry]

theorem madeByCompact_afterCompaction {entry : SessionEntry} (h : entry.compaction? = none) :
    MadeByCompact (afterCompaction entry) := by
  refine each_concat (each_concat each_twoTurns fun data hdata => ?_) fun data hdata => by
    rw [h] at hdata; cases hdata
  have hsome : (prepareCompaction twoTurns (keepTokens 2)).isSome = true := by decide
  have hfacts : ∀ p ∈ prepareCompaction twoTurns (keepTokens 2), p.isSplitTurn = false ∧
      p.firstKeptEntryId = "u2" ∧ p.tokensBefore = 4 ∧ p.fileOps = createFileOps := by
    decide
  obtain ⟨p, hp⟩ := Option.isSome_iff_exists.1 hsome
  obtain ⟨hsplit, hfirst, htokens, hops⟩ := hfacts p hp
  obtain rfl := some.inj hdata
  refine ⟨keepTokens 2, p, longSummarizer, none, _, finishCompaction p longSummary .zero, hp,
    Prod.ext rfl ?_, ?_⟩
  · simp [compact, hsplit, generateSummaryWithUsage, answer, longSummarizer, assistantText,
      AssistantBlock.text?, join, Except.map]
  · simp [madeCompaction, CompactionResult.toData, finishCompaction, hfirst, htokens, hops]

/-- A compaction that cuts at the start of a turn sends the previous summary. -/
theorem summarySurvives_iff_nextTurn :
    ∃ prep, prepareCompaction (afterCompaction (shortUser "u3" "c1")) (keepTokens 1) = some prep ∧
      SummarySurvives (afterCompaction (shortUser "u3" "c1"))
        (compact longSummarizer prep none).1 (compact longSummarizer prep none).2 := by
  have hpath : IsSessionPath (afterCompaction (shortUser "u3" "c1")) := by decide
  have hsome : (prepareCompaction (afterCompaction (shortUser "u3" "c1"))
      (keepTokens 1)).isSome = true := by decide
  have hwhole : ∀ p ∈ prepareCompaction (afterCompaction (shortUser "u3" "c1")) (keepTokens 1),
      p.isSplitTurn = false := by decide
  obtain ⟨prep, hprep⟩ := Option.isSome_iff_exists.1 hsome
  obtain ⟨chosen, cut, historyEnd, hspec⟩ := prepareCompaction_spec hprep
  refine ⟨prep, hprep,
    (summarySurvives_iff hpath (madeByCompact_afterCompaction rfl) hprep rfl).2 ?_⟩
  intro skipped kept entry data post hsplit hfirst lead turn middle cutEntry after hturn
  rw [kept_eq_drop hpath.nodup hsplit hfirst] at hturn
  exact absurd (hspec.of_splitsFirstTurn hturn).1 (by rw [hwhole prep hprep]; decide)

/-- A compaction that cuts the turn which the previous one kept drops the previous summary. -/
theorem split_turn_drops_summary :
    ¬∀ (path : List SessionEntry) (settings : CompactionSettings) (prep : CompactionPreparation)
      (summarizer : String → AssistantMessage) (customInstructions : Option String)
      (calls : List String) (outcome : Except String CompactionResult),
      IsSessionPath path → MadeByCompact path → prepareCompaction path settings = some prep →
      compact summarizer prep customInstructions = (calls, outcome) →
      SummarySurvives path calls outcome := by
  intro h
  have hsome : (prepareCompaction (afterCompaction (shortAnswer "a3" "c1"))
      (keepTokens 1)).isSome = true := by decide
  have hsplit : ∀ p ∈ prepareCompaction (afterCompaction (shortAnswer "a3" "c1")) (keepTokens 1),
      p.isSplitTurn = true ∧ p.messagesToSummarize = [] ∧
        p.turnPrefixMessages = secondTurn := by decide
  obtain ⟨prep, hprep⟩ := Option.isSome_iff_exists.1 hsome
  obtain ⟨hturn, hhistory, hsecond⟩ := hsplit prep hprep
  have hlatest : Split (afterCompaction (shortAnswer "a3" "c1")) twoTurns
      ⟨"c1", "a2", "2026-01-01T00:00:00.000Z", .compaction madeCompaction⟩ madeCompaction
      [shortAnswer "a3" "c1"] := ⟨rfl, rfl, by decide⟩
  obtain ⟨⟨call, hcall, hcontains⟩, -⟩ := h _ (keepTokens 1) prep longSummarizer none
    (compact longSummarizer prep none).1 (compact longSummarizer prep none).2 (by decide)
    (madeByCompact_afterCompaction rfl) hprep rfl 4 madeCompaction (prevCompaction?_split hlatest)
  rw [calls_of_split hturn (by rw [hsecond]; exact cons_ne_nil _ _) hhistory, hsecond,
    mem_singleton] at hcall
  -- the summary is longer than the only prompt
  have hlength := hcontains.length_le
  rw [hcall, madeCompaction, longSummary, String.toList_append, String.toList_append,
    length_append, length_append] at hlength
  have : ("!" : String).toList.length = 1 := by decide
  omega

end BeauPi.Compaction
