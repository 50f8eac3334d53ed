import BeauPi.Compaction.CutPoint

/-!
# Preparing a compaction

* `FileOperations` — the files that the summarized messages read and changed.
* `prepareCompaction` — what a compaction summarizes and where the kept history starts.
* `Prepared` — what holds of every preparation.
-/

namespace BeauPi.Compaction

open Llm Sessions Machine List

/-! ## File operations -/

/-- `FileOperations`; a set is the list of its members in the order of insertion. -/
structure FileOperations where
  read : List String
  written : List String
  edited : List String
  deriving DecidableEq, Repr

/-- `createFileOps` -/
def createFileOps : FileOperations := ⟨[], [], []⟩

/-- `Set.prototype.add` -/
def addTo (members : List String) (member : String) : List String :=
  if member ∈ members then members else members ++ [member]

/-- The file operation of one tool call. -/
def extractFileOpsFromCall (fileOps : FileOperations) (call : ToolCall) : FileOperations :=
  match Json.asString? (Json.field? "path" call.arguments) with
  | none => fileOps
  | some path =>
    if path = "" then fileOps
    else if call.name = "read" then { fileOps with read := addTo fileOps.read path }
    else if call.name = "write" then { fileOps with written := addTo fileOps.written path }
    else if call.name = "edit" then { fileOps with edited := addTo fileOps.edited path }
    else fileOps

/-- `extractFileOpsFromMessage` -/
def extractFileOpsFromMessage (fileOps : FileOperations) : AgentMessage → FileOperations
  | .assistant m => m.toolCalls.foldl extractFileOpsFromCall fileOps
  | _ => fileOps

/-- A field of the details of a compaction that should be a list of files. -/
def detailsList (key : String) (details : Json) : List String :=
  match details.get? key with
  | some (.arr items) => items.filterMap fun item => Json.asString? (some item)
  | _ => []

/-- The file operations of the previous compaction, if this program made it. -/
def previousFileOps : Option CompactionData → FileOperations
  | some previous =>
    match previous.fromHook, previous.details with
    | some true, _ => createFileOps
    | _, some details =>
      ⟨(detailsList "readFiles" details).foldl addTo [], [],
        (detailsList "modifiedFiles" details).foldl addTo []⟩
    | _, none => createFileOps
  | none => createFileOps

/-- `extractFileOperations` -/
def extractFileOperations (messages : List AgentMessage) (previous : Option CompactionData) :
    FileOperations :=
  messages.foldl extractFileOpsFromMessage (previousFileOps previous)

/-! ## Preparation -/

/-- `CompactionSettings` -/
structure CompactionSettings where
  enabled : Bool
  reserveTokens : ℚ
  keepRecentTokens : ℚ
  deriving DecidableEq, Repr

/-- `DEFAULT_COMPACTION_SETTINGS` -/
def defaultCompactionSettings : CompactionSettings := ⟨true, 16384, 20000⟩

/-- `CompactionPreparation` -/
structure CompactionPreparation where
  firstKeptEntryId : String
  messagesToSummarize : List AgentMessage
  turnPrefixMessages : List AgentMessage
  isSplitTurn : Bool
  tokensBefore : Nat
  previousSummary : Option String
  fileOps : FileOperations
  settings : CompactionSettings
  deriving DecidableEq, Repr

/-- `getMessageFromEntryForCompaction` -/
def getMessageFromEntryForCompaction (entry : SessionEntry) : Option AgentMessage :=
  if entry.isCompaction then none else (sessionEntryToContextMessages entry).head?

/-- The messages of the entries from one index to another. -/
def messagesBetween (entries : List SessionEntry) (startIndex endIndex : Nat) :
    List AgentMessage :=
  ((entries.drop startIndex).take (endIndex - startIndex)).filterMap
    getMessageFromEntryForCompaction

/-- The index of the latest compaction entry. -/
def prevCompactionIndex? (pathEntries : List SessionEntry) : Option Nat :=
  (List.range pathEntries.length).reverse.find? fun i =>
    (pathEntries[i]?).any (·.isCompaction)

/-- The latest compaction and its index. -/
def prevCompaction? (pathEntries : List SessionEntry) : Option (Nat × CompactionData) := do
  let index ← prevCompactionIndex? pathEntries
  let entry ← pathEntries[index]?
  let data ← entry.compaction?
  return (index, data)

/-- The index at which the messages not yet summarized start. -/
def boundaryStart (pathEntries : List SessionEntry) : Nat :=
  match prevCompaction? pathEntries with
  | none => 0
  | some (index, data) =>
    (pathEntries.findIdx? (·.id = data.firstKeptEntryId)).getD (index + 1)

/-- `prepareCompaction` -/
def prepareCompaction (pathEntries : List SessionEntry) (settings : CompactionSettings) :
    Option CompactionPreparation :=
  if (pathEntries.getLast?).any (·.isCompaction) then none
  else
    let previous := (prevCompaction? pathEntries).map Prod.snd
    let boundaryStart := boundaryStart pathEntries
    let tokensBefore :=
      (estimateContextTokens (buildSessionContext pathEntries none none).messages).tokens
    let cutPoint :=
      findCutPoint pathEntries boundaryStart pathEntries.length settings.keepRecentTokens
    match pathEntries[cutPoint.firstKeptEntryIndex]? with
    | none => none
    | some firstKeptEntry =>
      if firstKeptEntry.id = "" then none
      else
        let historyEnd := (if cutPoint.isSplitTurn then cutPoint.turnStartIndex else none).getD
          cutPoint.firstKeptEntryIndex
        let messagesToSummarize := messagesBetween pathEntries boundaryStart historyEnd
        let turnPrefixMessages := if cutPoint.isSplitTurn then
            messagesBetween pathEntries historyEnd cutPoint.firstKeptEntryIndex
          else []
        if messagesToSummarize = [] ∧ turnPrefixMessages = [] then none
        else
          let fileOps := extractFileOperations messagesToSummarize previous
          some {
            firstKeptEntryId := firstKeptEntry.id
            messagesToSummarize := messagesToSummarize
            turnPrefixMessages := turnPrefixMessages
            isSplitTurn := cutPoint.isSplitTurn
            tokensBefore := tokensBefore
            previousSummary := previous.map (·.summary)
            fileOps := if cutPoint.isSplitTurn then
                turnPrefixMessages.foldl extractFileOpsFromMessage fileOps
              else fileOps
            settings := settings }

/-! ## What holds of a preparation -/

variable {path : List SessionEntry} {settings : CompactionSettings}
  {prep : CompactionPreparation} {startIndex i c : Nat}

/-- Taking in metadata moves the cut back over metadata entries only. -/
theorem includeMetadata_spec (entries : List SessionEntry) (hstart : startIndex ≤ c) :
    startIndex ≤ includeMetadata entries startIndex c ∧
      includeMetadata entries startIndex c ≤ c ∧
      (∀ i, includeMetadata entries startIndex c ≤ i → i < c →
        (entries[i]?).any isMetadataEntry = true) ∧
      ∀ i, startIndex ≤ i → i + 1 = includeMetadata entries startIndex c →
        (entries[i]?).any isMetadataEntry = false := by
  induction c with
  | zero =>
    have hzero : startIndex = 0 := by omega
    simp [includeMetadata, hzero]
  | succ c ih =>
    unfold includeMetadata
    split_ifs with hback
    · obtain ⟨hge, hle, hmeta, hmax⟩ := ih (by omega)
      refine ⟨hge, by omega, fun i hi hlt => ?_, hmax⟩
      rcases Nat.eq_or_lt_of_le (Nat.le_of_lt_succ hlt) with rfl | hlt
      · exact hback.2
      · exact hmeta i hi hlt
    · refine ⟨hstart, le_rfl, by omega, fun i hi hc => ?_⟩
      obtain rfl : i = c := by omega
      rw [not_and] at hback
      simpa using hback (by omega)

variable {entries : List SessionEntry}

/-- The start of a turn is found at or before the index asked about. -/
theorem findTurnStartIndex_spec {t : Nat} (h : findTurnStartIndex entries startIndex i = some t) :
    startIndex ≤ t ∧ t ≤ i ∧ (entries[t]?).any isTurnStartEntry = true ∧
      ∀ j, t < j → j ≤ i → (entries[j]?).any isTurnStartEntry = false := by
  induction i with
  | zero =>
    unfold findTurnStartIndex at h
    split_ifs at h with hzero
    obtain rfl : 0 = t := Option.some.inj h
    exact ⟨hzero.1.le, le_rfl, hzero.2, by omega⟩
  | succ i ih =>
    unfold findTurnStartIndex at h
    split_ifs at h with hlt hturn
    · obtain rfl : i + 1 = t := Option.some.inj h
      exact ⟨by omega, le_rfl, hturn, by omega⟩
    · obtain ⟨hge, hle, hstart, hnone⟩ := ih h
      refine ⟨hge, by omega, hstart, fun j hj hji => ?_⟩
      rcases Nat.eq_or_lt_of_le hji with rfl | hlt
      · simpa using hturn
      · exact hnone j hj (by omega)

/-- No turn starts between the boundary and the index asked about. -/
theorem findTurnStartIndex_none (h : findTurnStartIndex entries startIndex i = none) :
    ∀ j, startIndex ≤ j → j ≤ i → (entries[j]?).any isTurnStartEntry = false := by
  induction i with
  | zero =>
    unfold findTurnStartIndex at h
    intro j hj hji
    obtain rfl : j = 0 := by omega
    split_ifs at h with hzero
    simp only [not_and, Bool.not_eq_true] at hzero
    exact hzero (by omega)
  | succ i ih =>
    unfold findTurnStartIndex at h
    split_ifs at h with hlt hturn
    · intro j hj hji
      omega
    · intro j hj hji
      rcases Nat.eq_or_lt_of_le hji with rfl | hlt
      · simpa using hturn
      · exact ih h j hj (by omega)

/-- The messages of two neighbouring runs. -/
theorem messagesBetween_append {a b : Nat} (entries : List SessionEntry) (hab : a ≤ b)
    (hbc : b ≤ c) :
    messagesBetween entries a b ++ messagesBetween entries b c = messagesBetween entries a c := by
  unfold messagesBetween
  rw [← filterMap_append]
  congr 1
  have hsplit := take_append_drop (b - a) ((entries.drop a).take (c - a))
  rw [take_take, drop_take, drop_drop] at hsplit
  rw [← hsplit, Nat.min_eq_left (by omega), show a + (b - a) = b by omega,
    show c - a - (b - a) = c - b by omega]

theorem messagesBetween_self (entries : List SessionEntry) (a : Nat) :
    messagesBetween entries a a = [] := by
  simp [messagesBetween]

/-- What holds of every preparation: `chosen` is the cut the budget asks for, `cut` the one after
metadata is taken in, and `historyEnd` the start of the turn that is split, if one is. -/
structure Prepared (path : List SessionEntry) (settings : CompactionSettings)
    (prep : CompactionPreparation) (chosen cut historyEnd : Nat) : Prop where
  start_le : boundaryStart path ≤ historyEnd
  history_le : historyEnd ≤ cut
  cut_le : cut ≤ chosen
  chosen_lt : chosen < path.length
  allowed : (path[chosen]?).any isCutPointEntry = true
  before : ∀ c, boundaryStart path ≤ c → c < chosen → (path[c]?).any isCutPointEntry = true →
    spendsBudget settings.keepRecentTokens (path.drop (c + 1)) = true
  spent : spendsBudget settings.keepRecentTokens (path.drop (chosen + 1)) = true →
    ∀ c, boundaryStart path ≤ c → c < path.length → (path[c]?).any isCutPointEntry = true →
      chosen ≤ c ∧ spendsBudget settings.keepRecentTokens (path.drop (c + 1)) = true
  metadata : ∀ i, cut ≤ i → i < chosen → (path[i]?).any isMetadataEntry = true
  maximal : ∀ i, boundaryStart path ≤ i → i + 1 = cut →
    (path[i]?).any isMetadataEntry = false
  kept : (path[cut]?).map (·.id) = some prep.firstKeptEntryId
  summarized : prep.messagesToSummarize = messagesBetween path (boundaryStart path) historyEnd
  turnPrefix : prep.turnPrefixMessages = messagesBetween path historyEnd cut
  whole : prep.isSplitTurn = false → historyEnd = cut
  split : prep.isSplitTurn = true → historyEnd < cut ∧
    (path[historyEnd]?).any isTurnStartEntry = true ∧
    ∀ j, historyEnd < j → j ≤ cut → (path[j]?).any isTurnStartEntry = false
  startsTurn : prep.isSplitTurn = false → (path[cut]?).any isTurnStartEntry = true ∨
    ∀ j, boundaryStart path ≤ j → j ≤ cut → (path[j]?).any isTurnStartEntry = false
  nonempty : prep.messagesToSummarize ≠ [] ∨ prep.turnPrefixMessages ≠ []
  previousSummary : prep.previousSummary = (prevCompaction? path).map (·.2.summary)
  fileOps : prep.fileOps = (prep.messagesToSummarize ++ prep.turnPrefixMessages).foldl
    extractFileOpsFromMessage (previousFileOps ((prevCompaction? path).map Prod.snd))

/-- The cut the budget asks for is an allowed one, and the first that the budget allows. -/
theorem chosenCut_spec {keepRecentTokens : ℚ} {first : Nat} {rest : List Nat}
    (hcuts : findValidCutPoints entries startIndex entries.length = first :: rest)
    (hc : chosenCut entries startIndex entries.length keepRecentTokens (first :: rest) first = c) :
    (startIndex ≤ c ∧ c < entries.length ∧ (entries[c]?).any isCutPointEntry = true) ∧
      (∀ j, startIndex ≤ j → j < c → (entries[j]?).any isCutPointEntry = true →
        spendsBudget keepRecentTokens (entries.drop (j + 1)) = true) ∧
      (spendsBudget keepRecentTokens (entries.drop (c + 1)) = true →
        ∀ j, startIndex ≤ j → j < entries.length → (entries[j]?).any isCutPointEntry = true →
          c ≤ j ∧ spendsBudget keepRecentTokens (entries.drop (j + 1)) = true) := by
  have hmem : ∀ {j}, j ∈ first :: rest ↔
      startIndex ≤ j ∧ j < entries.length ∧ (entries[j]?).any isCutPointEntry = true := by
    intro j
    rw [← hcuts, mem_findValidCutPoints]
  have hsorted : (first :: rest).Pairwise (· < ·) := by
    rw [← hcuts]
    exact List.Pairwise.filter _ (pairwise_lt_range' ..)
  rw [chosenCut_eq (fun j hj => (hmem.1 hj).1) first rfl] at hc
  cases hfind : (first :: rest).find? fun j =>
      !spendsBudget keepRecentTokens (entries.drop (j + 1)) with
  | some k =>
    rw [hfind, Option.getD_some] at hc
    subst hc
    obtain ⟨hnot, before, after, hsplit, hbefore⟩ := find?_eq_some_iff_append.1 hfind
    have hk : k ∈ first :: rest := mem_of_find?_eq_some hfind
    refine ⟨hmem.1 hk, fun j hj hlt hcut => ?_, fun hspent => ?_⟩
    · have hj' : j ∈ first :: rest := hmem.2 ⟨hj, hlt.trans (hmem.1 hk).2.1, hcut⟩
      rw [hsplit] at hj' hsorted
      rcases mem_append.1 hj' with hin | hin
      · simpa using hbefore j hin
      · rcases mem_cons.1 hin with rfl | hin
        · exact absurd hlt (Nat.lt_irrefl _)
        · have := (pairwise_cons.1 (pairwise_append.1 hsorted).2.1).1 j hin
          omega
    · rw [hspent] at hnot
      simp at hnot
  | none =>
    rw [hfind, Option.getD_none] at hc
    subst hc
    have hall : ∀ j ∈ first :: rest,
        spendsBudget keepRecentTokens (entries.drop (j + 1)) = true := by
      simpa using find?_eq_none.1 hfind
    have hle : ∀ j ∈ first :: rest, first ≤ j := by
      intro j hj
      rcases mem_cons.1 hj with rfl | hj
      · exact le_rfl
      · exact ((pairwise_cons.1 hsorted).1 j hj).le
    refine ⟨hmem.1 mem_cons_self, fun j hj hlt hcut => ?_, fun _ j hj hlt hcut => ?_⟩
    · have hin : j ∈ first :: rest :=
        hmem.2 ⟨hj, hlt.trans (hmem.1 mem_cons_self).2.1, hcut⟩
      exact hall j hin
    · exact ⟨hle j (hmem.2 ⟨hj, hlt, hcut⟩), hall j (hmem.2 ⟨hj, hlt, hcut⟩)⟩

/-- The cut point of a range in which a cut is allowed. -/
theorem findCutPoint_spec {keepRecentTokens : ℚ} {first : Nat} {rest : List Nat}
    (hcuts : findValidCutPoints entries startIndex entries.length = first :: rest)
    {cutPoint : CutPointResult}
    (h : findCutPoint entries startIndex entries.length keepRecentTokens = cutPoint) :
    ∃ chosen, chosenCut entries startIndex entries.length keepRecentTokens (first :: rest) first =
        chosen ∧
      cutPoint.firstKeptEntryIndex = includeMetadata entries startIndex chosen ∧
      (cutPoint.isSplitTurn = true → ∃ t, cutPoint.turnStartIndex = some t ∧
        (entries[cutPoint.firstKeptEntryIndex]?).any isTurnStartEntry = false ∧
        findTurnStartIndex entries startIndex cutPoint.firstKeptEntryIndex = some t) ∧
      (cutPoint.isSplitTurn = false →
        (entries[cutPoint.firstKeptEntryIndex]?).any isTurnStartEntry = true ∨
        findTurnStartIndex entries startIndex cutPoint.firstKeptEntryIndex = none) := by
  subst h
  refine ⟨_, rfl, by simp only [findCutPoint, hcuts], ?_⟩
  simp only [findCutPoint, hcuts]
  constructor
  · intro hsplit
    rw [Bool.and_eq_true, Bool.not_eq_true'] at hsplit
    obtain ⟨hnot, hsome⟩ := hsplit
    rw [hnot] at hsome ⊢
    obtain ⟨t, ht⟩ := Option.isSome_iff_exists.1 hsome
    exact ⟨t, ht, rfl, ht⟩
  · intro hwhole
    rw [Bool.and_eq_false_iff, Bool.not_eq_false'] at hwhole
    rcases hwhole with hstarts | hnone
    · exact .inl hstarts
    · cases hstarts : (entries[includeMetadata entries startIndex
        (chosenCut entries startIndex entries.length keepRecentTokens (first :: rest)
          first)]?).any isTurnStartEntry with
      | true => exact .inl rfl
      | false =>
        rw [hstarts] at hnone
        exact .inr (by simpa using hnone)

/-- **What a preparation holds.** -/
theorem prepareCompaction_spec (h : prepareCompaction path settings = some prep) :
    ∃ chosen cut historyEnd, Prepared path settings prep chosen cut historyEnd := by
  unfold prepareCompaction at h
  split_ifs at h with hlast
  dsimp only at h
  generalize hcut : findCutPoint path (boundaryStart path) path.length
    settings.keepRecentTokens = cutPoint at h
  cases hkept : path[cutPoint.firstKeptEntryIndex]? with
  | none => simp [hkept] at h
  | some firstKept =>
    simp only [hkept] at h
    by_cases hid : firstKept.id = ""
    · simp [hid] at h
    rw [if_neg hid] at h
    cases hcuts : findValidCutPoints path (boundaryStart path) path.length with
    | nil =>
      simp only [findCutPoint, hcuts] at hcut
      subst hcut
      simp [messagesBetween_self] at h
    | cons first rest =>
      obtain ⟨chosen, hchosen, hindex, hsplit, hwhole⟩ := findCutPoint_spec hcuts hcut
      obtain ⟨⟨hstart, hlt, hallowed⟩, hbefore, hspent⟩ := chosenCut_spec hcuts hchosen
      obtain ⟨hge, hle, hmeta, hmax⟩ := includeMetadata_spec path hstart
      rw [← hindex] at hge hle hmeta hmax
      cases hturn : cutPoint.isSplitTurn with
      | false =>
        simp only [hturn, Bool.false_eq_true, if_false, Option.getD_none] at h
        split_ifs at h with hempty
        obtain rfl := Option.some.inj h
        refine ⟨chosen, cutPoint.firstKeptEntryIndex, cutPoint.firstKeptEntryIndex, ?_⟩
        exact {
          start_le := hge
          history_le := le_rfl
          cut_le := hle
          chosen_lt := hlt
          allowed := hallowed
          before := hbefore
          spent := hspent
          metadata := hmeta
          maximal := hmax
          kept := by simp [hkept]
          summarized := rfl
          turnPrefix := (messagesBetween_self path _).symm
          whole := fun _ => rfl
          split := fun hs => by simp at hs
          startsTurn := fun _ => (hwhole hturn).imp_right fun hnone j hj hji =>
            findTurnStartIndex_none hnone j hj hji
          nonempty := .inl fun hnil => hempty ⟨hnil, trivial⟩
          previousSummary := by simp [Option.map_map, Function.comp_def]
          fileOps := by simp [extractFileOperations] }
      | true =>
        obtain ⟨t, ht, hnot, hfind⟩ := hsplit hturn
        obtain ⟨htge, htle, htstart, htnone⟩ := findTurnStartIndex_spec hfind
        have hturnBefore : t < cutPoint.firstKeptEntryIndex := by
          refine lt_of_le_of_ne htle ?_
          rintro rfl
          rw [htstart] at hnot
          cases hnot
        simp only [hturn, if_true, ht, Option.getD_some] at h
        split_ifs at h with hempty
        obtain rfl := Option.some.inj h
        refine ⟨chosen, cutPoint.firstKeptEntryIndex, t, ?_⟩
        exact {
          start_le := htge
          history_le := htle
          cut_le := hle
          chosen_lt := hlt
          allowed := hallowed
          before := hbefore
          spent := hspent
          metadata := hmeta
          maximal := hmax
          kept := by simp [hkept]
          summarized := rfl
          turnPrefix := rfl
          whole := fun hw => by simp at hw
          split := fun _ => ⟨hturnBefore, htstart, htnone⟩
          startsTurn := fun hw => by simp at hw
          nonempty := not_and_or.1 hempty
          previousSummary := by simp [Option.map_map, Function.comp_def]
          fileOps := by simp [extractFileOperations] }

end BeauPi.Compaction
