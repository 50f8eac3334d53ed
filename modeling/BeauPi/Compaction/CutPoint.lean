import BeauPi.Machine.Budget
import BeauPi.Sessions.Entries

/-!
# Where compaction cuts a session

* `estimateTokens` — the size of a message.
* `findCutPoint` — the entry from which recent history is kept.
* `spendsBudget` — a run of entries uses up what may be kept.
* `chosenCut_eq` — the cut is the first allowed one whose later entries do not spend the budget.
-/

namespace BeauPi.Compaction

open Llm Sessions Machine List

/-! ## Token calculation -/

/-- `calculateContextTokens` -/
def calculateContextTokens (usage : Usage) : Nat :=
  if usage.totalTokens ≠ 0 then usage.totalTokens
  else usage.input + usage.output + usage.cacheRead + usage.cacheWrite

/-- `getAssistantUsage` -/
def getAssistantUsage : AgentMessage → Option Usage
  | .assistant m =>
    if m.stopReason ≠ .aborted ∧ m.stopReason ≠ .error ∧ 0 < calculateContextTokens m.usage then
      some m.usage
    else none
  | _ => none

/-- `ESTIMATED_IMAGE_CHARS` -/
def estimatedImageChars : Nat := 4800

/-- `estimateTextAndImageContentChars` -/
def estimateTextAndImageContentChars : Content → Nat
  | .str text => Js.utf16Length text
  | .blocks blocks => (blocks.map fun
      | .text text => Js.utf16Length text
      | .image .. => estimatedImageChars).sum

/-- The characters of one block of an assistant message. -/
def assistantBlockChars : AssistantBlock → Nat
  | .text text => Js.utf16Length text
  | .thinking thinking => Js.utf16Length thinking
  | .toolCall call => Js.utf16Length call.name + Js.utf16Length (Json.obj call.arguments).stringify

/-- `Math.ceil(chars / 4)` -/
def tokensOfChars (chars : Nat) : Nat := (chars + 3) / 4

/-- `estimateTokens` -/
def estimateTokens : AgentMessage → Nat
  | .user m => tokensOfChars (estimateTextAndImageContentChars (m.content.getD (.blocks [])))
  | .assistant m => tokensOfChars ((m.content.getD []).map assistantBlockChars).sum
  | .custom m => tokensOfChars (estimateTextAndImageContentChars m.content)
  | .toolResult m =>
    tokensOfChars (estimateTextAndImageContentChars (.blocks (m.content.getD [])))
  | .bashExecution m => tokensOfChars (Js.utf16Length m.command + Js.utf16Length m.output)
  | .branchSummary m => tokensOfChars (Js.utf16Length m.summary)
  | .compactionSummary m => tokensOfChars (Js.utf16Length m.summary)

/-- `ContextUsageEstimate` -/
structure ContextUsageEstimate where
  tokens : Nat
  usageTokens : Nat
  trailingTokens : Nat
  lastUsageIndex : Option Nat
  deriving DecidableEq, Repr

/-- `getLastAssistantUsageInfo`, on the messages with their indices. -/
def getLastAssistantUsageInfo (messages : List AgentMessage) : Option (Usage × Nat) :=
  messages.zipIdx.reverse.findSome? fun pair =>
    (getAssistantUsage pair.1).map fun usage => (usage, pair.2)

/-- `estimateContextTokens` -/
def estimateContextTokens (messages : List AgentMessage) : ContextUsageEstimate :=
  match getLastAssistantUsageInfo messages with
  | none =>
    let estimated := (messages.map estimateTokens).sum
    ⟨estimated, 0, estimated, none⟩
  | some (usage, index) =>
    let usageTokens := calculateContextTokens usage
    let trailingTokens := ((messages.drop (index + 1)).map estimateTokens).sum
    ⟨usageTokens + trailingTokens, usageTokens, trailingTokens, some index⟩

/-! ## Entries at which a cut is allowed -/

/-- `isCutPointMessage` -/
def isCutPointMessage : AgentMessage → Bool
  | .toolResult _ => false
  | _ => true

/-- `isTurnStartMessage` -/
def isTurnStartMessage : AgentMessage → Bool
  | .assistant _ => false
  | .toolResult _ => false
  | _ => true

/-- `isTurnStartEntry` -/
def isTurnStartEntry (entry : SessionEntry) : Bool :=
  !entry.isCompaction && (sessionEntryToContextMessages entry).any isTurnStartMessage

/-- The test of `findValidCutPoints` on one entry. -/
def isCutPointEntry (entry : SessionEntry) : Bool :=
  !entry.isCompaction && (sessionEntryToContextMessages entry).any isCutPointMessage

/-- Is the entry one that no message of the context comes from? -/
def isMetadataEntry (entry : SessionEntry) : Bool :=
  !entry.isCompaction && (sessionEntryToContextMessages entry).isEmpty

theorem not_turnStart_of_metadata {entry : SessionEntry} (h : isMetadataEntry entry = true) :
    isTurnStartEntry entry = false := by
  rw [isMetadataEntry, Bool.and_eq_true, List.isEmpty_iff] at h
  rw [isTurnStartEntry, h.2, any_nil, Bool.and_false]

/-- `findValidCutPoints` -/
def findValidCutPoints (entries : List SessionEntry) (startIndex endIndex : Nat) : List Nat :=
  (List.range' startIndex (endIndex - startIndex)).filter fun i =>
    (entries[i]?).any isCutPointEntry

/-- `findTurnStartIndex`; `none` is `-1`. -/
def findTurnStartIndex (entries : List SessionEntry) (startIndex : Nat) : Nat → Option Nat
  | 0 => if startIndex = 0 ∧ (entries[0]?).any isTurnStartEntry then some 0 else none
  | i + 1 =>
    if i + 1 < startIndex then none
    else if (entries[i + 1]?).any isTurnStartEntry then some (i + 1)
    else findTurnStartIndex entries startIndex i

/-- `CutPointResult` -/
structure CutPointResult where
  firstKeptEntryIndex : Nat
  turnStartIndex : Option Nat
  isSplitTurn : Bool
  deriving DecidableEq, Repr

/-- The estimated size of the context messages of one entry. -/
def entryTokens (entry : SessionEntry) : Nat :=
  ((sessionEntryToContextMessages entry).map estimateTokens).sum

/-- The estimated size of the entry at an index. -/
def tokensAt (entries : List SessionEntry) (i : Nat) : Nat :=
  match entries[i]? with
  | some entry => entryTokens entry
  | none => 0

/-- The walk back from the newest entry. -/
def budgetIndex (entries : List SessionEntry) (startIndex endIndex : Nat)
    (keepRecentTokens : ℚ) : Option Nat :=
  reachBack (tokensAt entries) (fun i => tokensAt entries i != 0) keepRecentTokens startIndex
    endIndex 0

/-- The cut before metadata is taken in. -/
def chosenCut (entries : List SessionEntry) (startIndex endIndex : Nat)
    (keepRecentTokens : ℚ) (cutPoints : List Nat) (first : Nat) : Nat :=
  match budgetIndex entries startIndex endIndex keepRecentTokens with
  | none => first
  | some i => (cutPoints.find? (i ≤ ·)).getD first

/-- The loop that takes in the metadata entries before the cut. -/
def includeMetadata (entries : List SessionEntry) (startIndex : Nat) : Nat → Nat
  | 0 => 0
  | i + 1 =>
    if startIndex < i + 1 ∧ (entries[i]?).any isMetadataEntry then
      includeMetadata entries startIndex i
    else i + 1

/-- `findCutPoint` -/
def findCutPoint (entries : List SessionEntry) (startIndex endIndex : Nat)
    (keepRecentTokens : ℚ) : CutPointResult :=
  match findValidCutPoints entries startIndex endIndex with
  | [] => ⟨startIndex, none, false⟩
  | first :: rest =>
    let cutIndex := includeMetadata entries startIndex
      (chosenCut entries startIndex endIndex keepRecentTokens (first :: rest) first)
    let startsTurn := (entries[cutIndex]?).any isTurnStartEntry
    let turnStartIndex := if startsTurn then none
      else findTurnStartIndex entries startIndex cutIndex
    ⟨cutIndex, turnStartIndex, !startsTurn && turnStartIndex.isSome⟩

/-! ## What the budget says about the cut -/

/-- The estimated size of a run of entries. -/
def runTokens (run : List SessionEntry) : Nat := (run.map entryTokens).sum

/-- Do the entries of a run use up what may be kept? -/
def spendsBudget (keepRecentTokens : ℚ) (run : List SessionEntry) : Bool :=
  decide (0 < runTokens run) && decide (keepRecentTokens ≤ runTokens run)

variable {entries : List SessionEntry} {keepRecentTokens : ℚ} {startIndex i c : Nat}

theorem weightFrom_tokensAt (entries : List SessionEntry) (i : Nat) :
    weightFrom (tokensAt entries) entries.length i = runTokens (entries.drop i) := by
  unfold runTokens
  by_cases hi : i < entries.length
  · induction hk : entries.length - i generalizing i with
    | zero => omega
    | succ k ih =>
      rw [weightFrom_eq hi, drop_eq_getElem_cons hi, map_cons, sum_cons]
      have hat : tokensAt entries i = entryTokens entries[i] := by
        simp [tokensAt, getElem?_eq_getElem hi]
      rw [hat]
      by_cases hnext : i + 1 < entries.length
      · rw [ih (i + 1) hnext (by omega)]
      · have hlast : i + 1 = entries.length := by omega
        rw [hlast, weightFrom_self, drop_length]
        rfl
  · rw [drop_of_length_le (by omega)]
    simp [weightFrom, Finset.Ico_eq_empty (by omega : ¬i < entries.length)]

theorem counted_tokensAt (entries : List SessionEntry) (i : Nat)
    (h : (tokensAt entries i != 0) = false) : tokensAt entries i = 0 := by
  simpa using h

theorem mem_findValidCutPoints {endIndex : Nat} :
    i ∈ findValidCutPoints entries startIndex endIndex ↔
      startIndex ≤ i ∧ i < endIndex ∧ (entries[i]?).any isCutPointEntry = true := by
  simp only [findValidCutPoints, mem_filter, mem_range'_1]
  constructor
  · rintro ⟨⟨hstart, hend⟩, hcut⟩
    exact ⟨hstart, by omega, hcut⟩
  · rintro ⟨hstart, hend, hcut⟩
    exact ⟨⟨hstart, by omega⟩, hcut⟩

/-- When the walk stops at `i`, the entries from which the budget is not spent are those from `i`
on. -/
theorem spendsBudget_of_budgetIndex
    (h : budgetIndex entries startIndex entries.length keepRecentTokens = some i) (c : Nat) :
    i ≤ c ↔ spendsBudget keepRecentTokens (entries.drop (c + 1)) = false := by
  obtain ⟨-, hi, hcounted, hreached, hlater⟩ := reachBack_eq_some (counted_tokensAt entries) h
  rw [← Bool.not_eq_true, spendsBudget, Bool.and_eq_true, decide_eq_true_eq, decide_eq_true_eq,
    ← weightFrom_tokensAt]
  constructor
  · rintro hle ⟨hpos, hspent⟩
    obtain ⟨j, hcj, hj, hweight, hsame⟩ := exists_weightFrom hpos
    have hlt := hlater j (by omega) hj (by simpa using Nat.ne_of_gt hweight)
    rw [hsame] at hlt
    exact absurd hspent (not_le.2 hlt)
  · intro hnot
    by_contra hgt
    have hle : weightFrom (tokensAt entries) entries.length i ≤
        weightFrom (tokensAt entries) entries.length (c + 1) := weightFrom_anti (by omega)
    refine hnot ⟨?_, hreached.trans (by exact_mod_cast hle)⟩
    have hown : tokensAt entries i ≠ 0 := by simpa using hcounted
    have heq : weightFrom (tokensAt entries) entries.length i = _ := weightFrom_eq hi
    omega

/-- When the walk finds nothing, the budget is never spent. -/
theorem spendsBudget_of_budgetIndex_none
    (h : budgetIndex entries startIndex entries.length keepRecentTokens = none)
    (hc : startIndex ≤ c) : spendsBudget keepRecentTokens (entries.drop (c + 1)) = false := by
  have hnone := reachBack_eq_none (counted_tokensAt entries) h
  rw [← Bool.not_eq_true, spendsBudget, Bool.and_eq_true, decide_eq_true_eq, decide_eq_true_eq,
    ← weightFrom_tokensAt]
  rintro ⟨hpos, hspent⟩
  obtain ⟨j, hcj, hj, hweight, hsame⟩ := exists_weightFrom hpos
  have hlt := hnone j (by omega) hj (by simpa using Nat.ne_of_gt hweight)
  rw [hsame] at hlt
  exact absurd hspent (not_le.2 hlt)

/-- **The cut is the first allowed one whose later entries do not spend the budget**, and the
first allowed one at all when there is none. -/
theorem chosenCut_eq {cutPoints : List Nat} (hstart : ∀ c ∈ cutPoints, startIndex ≤ c) (first : Nat)
    (hfirst : cutPoints.head? = some first) :
    chosenCut entries startIndex entries.length keepRecentTokens cutPoints first =
      (cutPoints.find? fun c =>
        !spendsBudget keepRecentTokens (entries.drop (c + 1))).getD first := by
  unfold chosenCut
  cases h : budgetIndex entries startIndex entries.length keepRecentTokens with
  | some i =>
    have hsame : (fun c => decide (i ≤ c)) =
        fun c => !spendsBudget keepRecentTokens (entries.drop (c + 1)) := by
      funext c
      have := spendsBudget_of_budgetIndex h c
      cases hs : spendsBudget keepRecentTokens (entries.drop (c + 1)) <;> simp [this, hs]
    simp only [hsame]
  | none =>
    obtain ⟨rest, rfl⟩ : ∃ rest, cutPoints = first :: rest := by
      cases cutPoints with
      | nil => simp at hfirst
      | cons c rest => exact ⟨rest, by simpa using hfirst⟩
    have hnot := spendsBudget_of_budgetIndex_none h (hstart first mem_cons_self)
    simp [hnot]

end BeauPi.Compaction
