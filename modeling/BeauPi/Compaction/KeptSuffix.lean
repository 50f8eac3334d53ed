import BeauPi.Compaction.Lossless

/-!
# The entries that a compaction keeps

A cut should keep every tool result together with the call it answers and should keep no
more than the budget asks for.

* `FormerCut` — an index from which the search for a cut starts.
* `AtCut.le_call`, `findCutPoint_noOrphans` — no kept result lacks its call.
* `CutFound` — a cut is allowed behind the entry that spends the budget.
* `keepsEnough_iff` — the kept entries are the fewest that reach the budget if a cut is found,
  and only then: else the search falls back to the first cut.
-/

namespace BeauPi.Compaction

open Llm Sessions Machine
open Option (any_some)

/-! ## Tool results and their calls -/

/-- The tool result of an entry. -/
def toolResult? (entry : SessionEntry) : Option ToolResultMessage :=
  match entry.body with
  | .message (.toolResult m) => some m
  | _ => none

/-- The entry is the message of an assistant that makes the call. -/
def makesCall (toolCallId : String) (entry : SessionEntry) : Bool :=
  match entry.body with
  | .message (.assistant m) => m.toolCalls.any (·.id = toolCallId)
  | _ => false

/-- Does a message of the context come from the entry? -/
def isVisibleEntry (entry : SessionEntry) : Bool :=
  !(sessionEntryToContextMessages entry).isEmpty

/-- The entry at `a` makes the call that the result at `j` answers; between the two there are
only results and entries that the context does not show. -/
structure Answers (path : List SessionEntry) (a j : Nat) (result : ToolResultMessage) : Prop where
  before : a < j
  answer : path[j]?.bind toolResult? = some result
  call : (path[a]?).any (makesCall result.toolCallId) = true
  between : ∀ k, a < k → k < j →
    (path[k]?).any (fun entry => (toolResult? entry).isSome || !isVisibleEntry entry) = true

/-- Every tool result follows the message of the assistant that it answers. -/
def ResultsFollowCalls (path : List SessionEntry) : Prop :=
  ∀ j result, path[j]?.bind toolResult? = some result → ∃ a, Answers path a j result

/-- From `f` on no tool result lacks the message of the assistant that it answers. -/
def NoOrphans (path : List SessionEntry) (f : Nat) : Prop :=
  ∀ j result, f ≤ j → path[j]?.bind toolResult? = some result →
    ∃ a, f ≤ a ∧ Answers path a j result

/-- Where a search for a cut starts: at the root, or where an earlier search on the path, as it
was then, has ended. -/
inductive FormerCut (path : List SessionEntry) : Nat → Prop
  | root : FormerCut path 0
  | cut {start : Nat} (n : Nat) (keepRecentTokens : ℚ) : FormerCut path start →
      n ≤ path.length →
      FormerCut path
        (findCutPoint (path.take n) start (path.take n).length keepRecentTokens).firstKeptEntryIndex

/-! ## What is kept of the budget -/

/-- From no allowed cut behind the first visible kept entry the budget is reached: no shorter
rest of the path that may be kept would do. -/
def KeepsEnough (path : List SessionEntry) (startIndex f : Nat) (keepRecentTokens : ℚ) : Prop :=
  ∀ p ∈ findValidCutPoints path startIndex path.length,
    (∃ v, f ≤ v ∧ v < p ∧ (path[v]?).any isVisibleEntry = true) →
      (runTokens (path.drop p) : ℚ) < keepRecentTokens

/-- There is at most one allowed cut, or some allowed cut is followed by entries that do not
spend the budget and, where the budget is not positive, all but the last are followed by entries
with tokens. -/
def CutFound (path : List SessionEntry) (startIndex : Nat) (keepRecentTokens : ℚ) : Prop :=
  let cutPoints := findValidCutPoints path startIndex path.length
  (∀ p ∈ cutPoints, ∀ q ∈ cutPoints, p = q) ∨
    (∃ q ∈ cutPoints, spendsBudget keepRecentTokens (path.drop (q + 1)) = false) ∧
      (0 < keepRecentTokens ∨
        ∀ p ∈ cutPoints, ∀ q ∈ cutPoints, p < q → 0 < runTokens (path.drop (p + 1)))

variable {path : List SessionEntry} {entry : SessionEntry} {result : ToolResultMessage}
  {keepRecentTokens : ℚ} {startIndex a c f i j n p q : Nat}

/-! ## Entries -/

theorem visible_of_result (h : (toolResult? entry).isSome = true) : isVisibleEntry entry = true := by
  unfold toolResult? at h
  unfold isVisibleEntry sessionEntryToContextMessages
  cases hbody : entry.body with
  | message m => rfl
  | _ => simp [hbody] at h

theorem not_cut_of_result (h : (toolResult? entry).isSome = true) :
    isCutPointEntry entry = false := by
  unfold toolResult? at h
  unfold isCutPointEntry sessionEntryToContextMessages
  cases hbody : entry.body with
  | message m =>
    cases m with
    | toolResult m => simp [SessionMessage.toAgentMessage, AgentMessage.withContent,
        isCutPointMessage]
    | _ => simp [hbody] at h
  | _ => simp [hbody] at h

theorem visible_of_cut (h : isCutPointEntry entry = true) : isVisibleEntry entry = true := by
  unfold isVisibleEntry
  unfold isCutPointEntry at h
  cases hm : sessionEntryToContextMessages entry with
  | nil => simp [hm] at h
  | cons m rest => rfl

theorem not_visible_of_metadata (h : isMetadataEntry entry = true) :
    isVisibleEntry entry = false := by
  unfold isMetadataEntry at h
  unfold isVisibleEntry
  rw [Bool.and_eq_true] at h
  rw [h.2, Bool.not_true]

/-! ## Cuts keep results and calls together -/

/-- The first kept entry is the root or is followed, after entries without messages, by an entry
at which a cut is allowed. -/
def AtCut (path : List SessionEntry) (f : Nat) : Prop :=
  f = 0 ∨ ∃ c, f ≤ c ∧ (path[c]?).any isCutPointEntry = true ∧
    ∀ i, f ≤ i → i < c → (path[i]?).any isMetadataEntry = true

/-- What an entry of the path was when the path was shorter. -/
theorem any_of_take {test : SessionEntry → Bool} (h : ((path.take n)[i]?).any test = true) :
    (path[i]?).any test = true := by
  by_cases hi : i < n
  · rwa [List.getElem?_take_of_lt hi] at h
  · rw [List.getElem?_take_eq_none (by omega)] at h
    cases h

theorem AtCut.of_take (h : AtCut (path.take n) f) : AtCut path f := by
  rcases h with hroot | ⟨c, hle, hcut, hmeta⟩
  · exact .inl hroot
  · exact .inr ⟨c, hle, any_of_take hcut, fun i hi hlt => any_of_take (hmeta i hi hlt)⟩

/-- Where a search ends: where it starts if no cut is allowed, else before the chosen cut. -/
theorem firstKeptEntryIndex_eq (entries : List SessionEntry) (startIndex : Nat)
    (keepRecentTokens : ℚ) :
    (findCutPoint entries startIndex entries.length keepRecentTokens).firstKeptEntryIndex =
      match findValidCutPoints entries startIndex entries.length with
      | [] => startIndex
      | first :: rest => includeMetadata entries startIndex
          (chosenCut entries startIndex entries.length keepRecentTokens (first :: rest) first) := by
  unfold findCutPoint
  cases findValidCutPoints entries startIndex entries.length <;> rfl

/-- A search that finds an allowed cut ends at a cut. -/
theorem includeMetadata_atCut {first : Nat} {rest : List Nat}
    (hcuts : findValidCutPoints path startIndex path.length = first :: rest) :
    AtCut path (includeMetadata path startIndex
      (chosenCut path startIndex path.length keepRecentTokens (first :: rest) first)) := by
  obtain ⟨⟨hstart, -, hallowed⟩, -, -⟩ := chosenCut_spec (c := _) hcuts rfl
  obtain ⟨-, hle, hmeta, -⟩ := includeMetadata_spec path hstart
  exact .inr ⟨_, hle, hallowed, hmeta⟩

theorem FormerCut.atCut (h : FormerCut path f) : AtCut path f := by
  induction h with
  | root => exact .inl rfl
  | @cut start n keepRecentTokens _ _ ih =>
    rw [firstKeptEntryIndex_eq]
    cases hcuts : findValidCutPoints (path.take n) start (path.take n).length with
    | nil => exact ih
    | cons first rest => exact (includeMetadata_atCut hcuts).of_take

/-- Between a call and its results there is no cut. -/
theorem AtCut.le_call (h : AtCut path f) (hj : f ≤ j) (hanswers : Answers path a j result) :
    f ≤ a := by
  rcases h with rfl | ⟨c, hfc, hcut, hmeta⟩
  · exact Nat.zero_le a
  by_contra ha
  obtain ⟨hbefore, hresult, -, hbetween⟩ := hanswers
  obtain ⟨entry, hentry, hsome⟩ := Option.bind_eq_some_iff.1 hresult
  have hisResult : (toolResult? entry).isSome = true := by rw [hsome]; rfl
  rcases Nat.lt_trichotomy c j with hlt | rfl | hgt
  · -- the cut is one of the entries between the call and the result
    have hmid := hbetween c (by omega) hlt
    cases hc : path[c]? with
    | none => simp [hc] at hcut
    | some cutEntry =>
      simp only [hc, any_some, Bool.or_eq_true, Bool.not_eq_true'] at hmid hcut
      rcases hmid with hr | hv
      · rw [not_cut_of_result hr] at hcut
        cases hcut
      · rw [visible_of_cut hcut] at hv
        cases hv
  · rw [hentry, any_some, not_cut_of_result hisResult] at hcut
    cases hcut
  · -- the result is one of the entries that the context does not show
    have hm := hmeta j hj hgt
    rw [hentry, any_some] at hm
    have hv := not_visible_of_metadata hm
    rw [visible_of_result hisResult] at hv
    cases hv

/-- **A search from a former cut keeps every tool result together with its call.** -/
theorem findCutPoint_noOrphans (hpath : ResultsFollowCalls path)
    (hstart : FormerCut path startIndex) (keepRecentTokens : ℚ) :
    NoOrphans path
      (findCutPoint path startIndex path.length keepRecentTokens).firstKeptEntryIndex := by
  intro j result hj hresult
  have h := FormerCut.cut path.length keepRecentTokens hstart le_rfl
  rw [List.take_length] at h
  obtain ⟨a, hanswers⟩ := hpath j result hresult
  exact ⟨a, h.atCut.le_call hj hanswers, hanswers⟩

/-! ## Cuts and the budget -/

theorem runTokens_anti (h : p ≤ q) : runTokens (path.drop q) ≤ runTokens (path.drop p) := by
  rw [← weightFrom_tokensAt, ← weightFrom_tokensAt]
  exact weightFrom_anti h

theorem spendsBudget_eq_false :
    spendsBudget keepRecentTokens (path.drop p) = false ↔
      runTokens (path.drop p) = 0 ∨ (runTokens (path.drop p) : ℚ) < keepRecentTokens := by
  unfold spendsBudget
  rw [Bool.and_eq_false_iff, decide_eq_false_iff_not, decide_eq_false_iff_not, not_lt, not_le,
    Nat.le_zero]

/-- A kept entry that the context shows comes before an allowed cut exactly if the chosen cut
does. -/
theorem visible_before_iff (hfc : f ≤ c) (hcut : (path[c]?).any isCutPointEntry = true)
    (hmeta : ∀ i, f ≤ i → i < c → (path[i]?).any isMetadataEntry = true) :
    (∃ v, f ≤ v ∧ v < p ∧ (path[v]?).any isVisibleEntry = true) ↔ c < p := by
  constructor
  · rintro ⟨v, hfv, hvp, hvisible⟩
    by_contra hle
    have hm := hmeta v hfv (by omega)
    cases hv : path[v]? with
    | none => simp [hv] at hvisible
    | some entry =>
      rw [hv, any_some] at hvisible hm
      rw [not_visible_of_metadata hm] at hvisible
      cases hvisible
  · intro hlt
    refine ⟨c, hfc, hlt, ?_⟩
    cases hc : path[c]? with
    | none => simp [hc] at hcut
    | some entry =>
      rw [hc, any_some] at hcut
      exact visible_of_cut hcut

/-- If the rest after every allowed cut spends the budget, an allowed cut from which the budget
is not reached is the chosen one. -/
theorem eq_of_spent {cutPoints : List Nat}
    (henough : ∀ p ∈ cutPoints, c < p → (runTokens (path.drop p) : ℚ) < keepRecentTokens)
    (hall : ∀ j ∈ cutPoints, c ≤ j ∧ spendsBudget keepRecentTokens (path.drop (j + 1)) = true)
    (hp : p ∈ cutPoints) : p = c := by
  obtain ⟨hle, hspends⟩ := hall p hp
  rw [spendsBudget, Bool.and_eq_true, decide_eq_true_eq, decide_eq_true_eq] at hspends
  by_contra hne
  have hless := henough p hp (by omega)
  have hanti : (runTokens (path.drop (p + 1)) : ℚ) ≤ runTokens (path.drop p) := by
    exact_mod_cast runTokens_anti (Nat.le_succ p)
  exact absurd (hspends.2.trans hanti) (not_le.2 hless)

/-- **The kept entries are the fewest that reach the budget exactly if a cut is found.** -/
theorem keepsEnough_iff (path : List SessionEntry) (startIndex : Nat) (keepRecentTokens : ℚ) :
    KeepsEnough path startIndex
        (findCutPoint path startIndex path.length keepRecentTokens).firstKeptEntryIndex
        keepRecentTokens ↔
      CutFound path startIndex keepRecentTokens := by
  rw [firstKeptEntryIndex_eq]
  unfold KeepsEnough CutFound
  dsimp only
  cases hcuts : findValidCutPoints path startIndex path.length with
  | nil => simp
  | cons first rest =>
    dsimp only
    generalize hchosen : chosenCut path startIndex path.length keepRecentTokens (first :: rest)
      first = c
    obtain ⟨⟨hstart, hlt, hallowed⟩, hbefore, hspent⟩ := chosenCut_spec hcuts hchosen
    obtain ⟨-, hle, hmeta, -⟩ := includeMetadata_spec path hstart
    have hmem : ∀ {j}, j ∈ first :: rest ↔
        startIndex ≤ j ∧ j < path.length ∧ (path[j]?).any isCutPointEntry = true := by
      intro j
      rw [← hcuts, mem_findValidCutPoints]
    have hc : c ∈ first :: rest := hmem.2 ⟨hstart, hlt, hallowed⟩
    simp only [visible_before_iff hle hallowed hmeta]
    constructor
    · intro henough
      by_cases hone : ∀ p ∈ first :: rest, ∀ q ∈ first :: rest, p = q
      · exact .inl hone
      · have hnot : spendsBudget keepRecentTokens (path.drop (c + 1)) = false := by
          rw [← Bool.not_eq_true]
          intro hall
          have hafter := fun j hj => hspent hall j (hmem.1 hj).1 (hmem.1 hj).2.1 (hmem.1 hj).2.2
          refine hone fun p hp q hq => ?_
          rw [eq_of_spent henough hafter hp, eq_of_spent henough hafter hq]
        refine .inr ⟨⟨c, hc, hnot⟩, or_iff_not_imp_left.2 fun hkeep p hp q hq hpq => ?_⟩
        rcases Nat.lt_or_ge p c with hpc | hcp
        · have hspends := hbefore p (hmem.1 hp).1 hpc (hmem.1 hp).2.2
          rw [spendsBudget, Bool.and_eq_true, decide_eq_true_eq] at hspends
          exact hspends.1
        · have hlast := henough q hq (by omega)
          exact absurd (hlast.trans_le (not_lt.1 hkeep)) (not_lt.2 (Nat.cast_nonneg _))
    · rintro (hone | ⟨⟨q, hq, hfound⟩, hkeep⟩) p hp hcp
      · exact absurd (hone c hc p hp) (by omega)
      · have hnot : spendsBudget keepRecentTokens (path.drop (c + 1)) = false := by
          rw [← Bool.not_eq_true]
          intro hall
          rw [(hspent hall q (hmem.1 hq).1 (hmem.1 hq).2.1 (hmem.1 hq).2.2).2] at hfound
          cases hfound
        have hanti : (runTokens (path.drop p) : ℚ) ≤ runTokens (path.drop (c + 1)) := by
          exact_mod_cast runTokens_anti hcp
        rcases spendsBudget_eq_false.1 hnot with hzero | hless
        · rcases hkeep with hpos | htokens
          · rw [hzero] at hanti
            exact lt_of_le_of_lt hanti (by exact_mod_cast hpos)
          · have := htokens c hc p hp hcp
            omega
        · exact hanti.trans_lt hless

/-- **From a former cut, the search keeps results together with their calls and no more than
the budget asks for, exactly if a cut is found.** -/
theorem findCutPoint_tight_iff (path : List SessionEntry) (startIndex : Nat)
    (keepRecentTokens : ℚ) (hpath : ResultsFollowCalls path)
    (hstart : FormerCut path startIndex) :
    NoOrphans path
          (findCutPoint path startIndex path.length keepRecentTokens).firstKeptEntryIndex ∧
        KeepsEnough path startIndex
          (findCutPoint path startIndex path.length keepRecentTokens).firstKeptEntryIndex
          keepRecentTokens ↔
      CutFound path startIndex keepRecentTokens := by
  rw [← keepsEnough_iff]
  exact and_iff_right (findCutPoint_noOrphans hpath hstart keepRecentTokens)

/-! ## A call with a long result -/

/-- The assistant calls a tool. -/
def readCall (id : String) (parentId : Option String) : SessionEntry :=
  ⟨id, parentId, "2026-01-01T00:00:00.000Z", .message (.assistant
    ⟨some [.toolCall ⟨"t1", "read", []⟩], "p", "m", .zero, .toolUse, none, 0⟩)⟩

/-- The result of the call. -/
def readResult (id : String) (parentId : Option String) : SessionEntry :=
  ⟨id, parentId, "2026-01-01T00:00:00.000Z", .message (.toolResult
    ⟨"t1", "read", some [.text "abcdefgh"], none, none, none, false, none, none, 0⟩)⟩

/-- Two messages of the user, a call and its result. -/
def answeredCall : List SessionEntry :=
  [shortUser "u1" none, shortUser "u2" "u1", readCall "a1" "u2", readResult "r1" "a1"]

theorem resultsFollowCalls_answeredCall : ResultsFollowCalls answeredCall := by
  intro j result hresult
  match j, hresult with
  | 3, hresult =>
    obtain rfl := Option.some.inj hresult
    refine ⟨2, by omega, rfl, by decide, fun k hk hlt => ?_⟩
    omega

/-- With a budget of three tokens the call and its result are kept. -/
theorem findCutPoint_tight_iff_answeredCall :
    NoOrphans answeredCall
          (findCutPoint answeredCall 0 answeredCall.length 3).firstKeptEntryIndex ∧
        KeepsEnough answeredCall 0
          (findCutPoint answeredCall 0 answeredCall.length 3).firstKeptEntryIndex 3 :=
  (findCutPoint_tight_iff answeredCall 0 3 resultsFollowCalls_answeredCall .root).2
    (.inr ⟨⟨2, by decide, by decide⟩, .inl (by decide)⟩)

/-- With a budget of two tokens, which the result alone spends, everything is kept. -/
theorem findCutPoint_keeps_all :
    ¬ ∀ (path : List SessionEntry) (startIndex : Nat) (keepRecentTokens : ℚ),
      ResultsFollowCalls path → FormerCut path startIndex →
      NoOrphans path
          (findCutPoint path startIndex path.length keepRecentTokens).firstKeptEntryIndex ∧
        KeepsEnough path startIndex
          (findCutPoint path startIndex path.length keepRecentTokens).firstKeptEntryIndex
          keepRecentTokens := by
  intro h
  have henough := (h answeredCall 0 2 resultsFollowCalls_answeredCall .root).2
  have hless := henough 2 (by decide) ⟨0, by decide, by decide, by decide⟩
  exact absurd hless (by decide)

end BeauPi.Compaction
