import BeauPi.Compaction.KeptSuffix
import BeauPi.Machine.Splits

/-!
# Whether a cut splits a turn

The cut is chosen among the entries that the context shows and is then moved back over metadata.
Whether it splits a turn should depend on the messages alone.

* `cutSplit` — the chosen cut, as a split of the range.
* `ClassifiesCut` — what a cut should say about turns.
* `Misread` — the cut is moved onto metadata although the chosen entry starts a turn.
* `classifiesCut_iff` — cuts are classified as they should be unless they are misread.
-/

namespace BeauPi.Compaction

open Llm Sessions Machine List
open Option (any_some)

/-! ## The chosen cut -/

/-- The entries of a range. -/
def rangeOf (entries : List SessionEntry) (startIndex endIndex : Nat) : List SessionEntry :=
  (entries.take endIndex).drop startIndex

/-- A cut is allowed at the entry and what follows it does not spend the budget. -/
def affordableCut (keepRecentTokens : ℚ) (entry : SessionEntry) (rest : List SessionEntry) : Bool :=
  isCutPointEntry entry && !spendsBudget keepRecentTokens rest

/-- The first allowed cut whose later entries do not spend the budget, or else the first allowed
cut, with what is before and after it. -/
def cutSplit (keepRecentTokens : ℚ) (range : List SessionEntry) :
    Option (List SessionEntry × SessionEntry × List SessionEntry) :=
  (splitFirst (affordableCut keepRecentTokens) range).or
    (splitFirst (fun entry _ => isCutPointEntry entry) range)

variable {entries before after front rest range : List SessionEntry} {entry : SessionEntry}
  {keepRecentTokens : ℚ} {startIndex endIndex c f i j : Nat}

theorem getElem?_of_range (h : rangeOf entries startIndex endIndex = front ++ entry :: rest) :
    entries[startIndex + front.length]? = some entry ∧
      startIndex + front.length < endIndex ∧
      rangeOf entries (startIndex + front.length + 1) endIndex = rest := by
  have hget : (entries.take endIndex)[startIndex + front.length]? = some entry := by
    rw [← getElem?_drop, ← rangeOf, h]
    simp
  have hlt : startIndex + front.length < endIndex := by
    by_contra hle
    rw [getElem?_take_eq_none (by omega)] at hget
    cases hget
  refine ⟨?_, hlt, ?_⟩
  · rwa [getElem?_take_of_lt hlt] at hget
  · rw [rangeOf, Nat.add_assoc, ← drop_drop, ← rangeOf, h, drop_append]
    simp

/-- The split at an entry of the range. -/
theorem exists_range_split (hstart : startIndex ≤ i) (hend : i < endIndex)
    (h : entries[i]? = some entry) : ∃ front, i = startIndex + front.length ∧
      rangeOf entries startIndex endIndex = front ++ entry :: rangeOf entries (i + 1) endIndex := by
  have hget : (rangeOf entries startIndex endIndex)[i - startIndex]? = some entry := by
    rw [rangeOf, getElem?_drop, Nat.add_sub_cancel' hstart, getElem?_take_of_lt hend, h]
  obtain ⟨hlt, heq⟩ := List.getElem?_eq_some_iff.1 hget
  refine ⟨(rangeOf entries startIndex endIndex).take (i - startIndex), ?_, ?_⟩
  · rw [length_take_of_le hlt.le]
    omega
  · have hsplit := take_append_drop (i - startIndex) (rangeOf entries startIndex endIndex)
    rw [drop_eq_getElem_cons hlt, heq] at hsplit
    rw [← hsplit]
    congr 2
    · rw [hsplit]
    · rw [rangeOf, rangeOf, drop_drop]
      congr 1
      omega

/-- The chosen cut is the first that the budget allows, and the first at all if it allows none. -/
theorem cutSplit_eq_some (hsplit : range = before ++ entry :: after)
    (hcut : isCutPointEntry entry = true)
    (hbefore : ∀ front x rest, before = front ++ x :: rest → isCutPointEntry x = true →
      spendsBudget keepRecentTokens (rest ++ entry :: after) = true)
    (hspent : spendsBudget keepRecentTokens after = true →
      ∀ front x rest, range = front ++ x :: rest → isCutPointEntry x = true →
        before.length ≤ front.length ∧ spendsBudget keepRecentTokens rest = true) :
    cutSplit keepRecentTokens range = some (before, entry, after) := by
  cases hlater : spendsBudget keepRecentTokens after with
  | false =>
    have hfirst : splitFirst (affordableCut keepRecentTokens) range =
        some (before, entry, after) := by
      refine splitFirst_eq_some hsplit (by simp [affordableCut, hcut, hlater])
        fun front x rest hx => ?_
      cases hcutx : isCutPointEntry x with
      | false => simp [affordableCut, hcutx]
      | true => simp [affordableCut, hbefore front x rest hx hcutx]
    rw [cutSplit, hfirst]
    rfl
  | true =>
    have hall := hspent hlater
    have hnone : splitFirst (affordableCut keepRecentTokens) range = none := by
      refine splitFirst_eq_none fun front x rest hx => ?_
      cases hcutx : isCutPointEntry x with
      | false => simp [affordableCut, hcutx]
      | true => simp [affordableCut, (hall front x rest hx hcutx).2]
    have hfirst : splitFirst (fun entry _ => isCutPointEntry entry) range =
        some (before, entry, after) := by
      refine splitFirst_eq_some hsplit hcut fun front x rest hx => ?_
      cases hcutx : isCutPointEntry x with
      | false => rfl
      | true =>
        have hsplitx : range = front ++ x :: (rest ++ entry :: after) := by
          rw [hsplit, hx, append_assoc, cons_append]
        have hle := (hall front x _ hsplitx hcutx).1
        rw [hx, length_append, length_cons] at hle
        omega
    rw [cutSplit, hnone, hfirst]
    rfl

/-- The entry of a chosen cut is one at which a cut is allowed. -/
theorem of_cutSplit (h : cutSplit keepRecentTokens range = some (before, entry, after)) :
    range = before ++ entry :: after ∧ isCutPointEntry entry = true := by
  rw [cutSplit] at h
  cases hfirst : splitFirst (affordableCut keepRecentTokens) range with
  | some parts =>
    rw [hfirst, Option.some_or] at h
    obtain rfl := Option.some.inj h
    obtain ⟨hsplit, htest⟩ := of_splitFirst hfirst
    rw [affordableCut, Bool.and_eq_true] at htest
    exact ⟨hsplit, htest.1⟩
  | none =>
    rw [hfirst, Option.none_or] at h
    exact of_splitFirst h

/-! ## The search on a part of the entries -/

theorem tokensAt_take (h : i < endIndex) :
    tokensAt (entries.take endIndex) i = tokensAt entries i := by
  rw [tokensAt, tokensAt, getElem?_take_of_lt h]

theorem budgetIndex_take : budgetIndex (entries.take endIndex) startIndex endIndex
    keepRecentTokens = budgetIndex entries startIndex endIndex keepRecentTokens :=
  reachBack_congr (fun _ hi => tokensAt_take hi) fun _ hi => by rw [tokensAt_take hi]

theorem findValidCutPoints_take : findValidCutPoints (entries.take endIndex) startIndex endIndex =
    findValidCutPoints entries startIndex endIndex := by
  refine filter_congr fun i hi => ?_
  have hrange := List.mem_range'_1.1 hi
  rw [getElem?_take_of_lt (by omega)]

/-- **The chosen cut of a range**: there is none, or it splits the range. -/
theorem chosenCut_split (hend : endIndex ≤ entries.length) :
    (findValidCutPoints entries startIndex endIndex = [] ∧
        cutSplit keepRecentTokens (rangeOf entries startIndex endIndex) = none) ∨
      ∃ first rest before entry after,
        findValidCutPoints entries startIndex endIndex = first :: rest ∧
        chosenCut entries startIndex endIndex keepRecentTokens (first :: rest) first =
          startIndex + before.length ∧
        cutSplit keepRecentTokens (rangeOf entries startIndex endIndex) =
          some (before, entry, after) := by
  have hmem : ∀ {front x rest}, rangeOf entries startIndex endIndex = front ++ x :: rest →
      isCutPointEntry x = true →
      startIndex + front.length ∈ findValidCutPoints entries startIndex endIndex := by
    intro front x rest hsplit hcut
    obtain ⟨hget, hlt, -⟩ := getElem?_of_range hsplit
    exact mem_findValidCutPoints.2 ⟨by omega, hlt, by rw [hget]; exact hcut⟩
  cases hcuts : findValidCutPoints entries startIndex endIndex with
  | nil =>
    refine .inl ⟨rfl, Option.eq_none_iff_forall_ne_some.2 ?_⟩
    rintro ⟨before, entry, after⟩ hsome
    obtain ⟨hsplit, hcut⟩ := of_cutSplit hsome
    have hin := hmem hsplit hcut
    rw [hcuts] at hin
    cases hin
  | cons first rest =>
    have hlength : (entries.take endIndex).length = endIndex := length_take_of_le hend
    have hcutsE : findValidCutPoints (entries.take endIndex) startIndex
        (entries.take endIndex).length = first :: rest := by
      rw [hlength, findValidCutPoints_take, hcuts]
    have hchosen : chosenCut (entries.take endIndex) startIndex (entries.take endIndex).length
        keepRecentTokens (first :: rest) first =
        chosenCut entries startIndex endIndex keepRecentTokens (first :: rest) first := by
      rw [hlength, chosenCut, chosenCut, budgetIndex_take]
    obtain ⟨⟨hstart, hlt, hallowed⟩, hbefore, hspent⟩ := chosenCut_spec hcutsE hchosen
    generalize hc : chosenCut entries startIndex endIndex keepRecentTokens (first :: rest) first = c
      at hstart hlt hallowed hbefore hspent
    rw [hlength] at hlt
    rw [getElem?_take_of_lt hlt] at hallowed
    cases hentry : entries[c]? with
    | none => simp [hentry] at hallowed
    | some entry =>
      rw [hentry, any_some] at hallowed
      obtain ⟨before, rfl, hsplit⟩ := exists_range_split hstart hlt hentry
      -- an allowed cut of the range, as the search sees it
      have hcutAt : ∀ {front x rest}, rangeOf entries startIndex endIndex = front ++ x :: rest →
          isCutPointEntry x = true →
          ((entries.take endIndex)[startIndex + front.length]?).any isCutPointEntry = true ∧
            startIndex + front.length < endIndex ∧
            (entries.take endIndex).drop (startIndex + front.length + 1) = rest := by
        intro front x rest hx hcutx
        obtain ⟨hget, hltx, hrest⟩ := getElem?_of_range hx
        rw [getElem?_take_of_lt hltx, hget]
        exact ⟨hcutx, hltx, hrest⟩
      refine .inr ⟨first, rest, before, entry, _, rfl, hc,
        cutSplit_eq_some hsplit hallowed (fun front x rest hx hcutx => ?_)
          fun hspends front x rest hx hcutx => ?_⟩
      · have hsplitx : rangeOf entries startIndex endIndex = front ++ x :: (rest ++ entry ::
            rangeOf entries (startIndex + before.length + 1) endIndex) := by
          rw [hsplit, hx, append_assoc, cons_append]
        obtain ⟨hat, -, hrest⟩ := hcutAt hsplitx hcutx
        have hless : front.length < before.length := by
          rw [hx, length_append, length_cons]
          omega
        have hspends := hbefore _ (Nat.le_add_right _ _) (by omega) hat
        rwa [hrest] at hspends
      · obtain ⟨hat, hltx, hrest⟩ := hcutAt hx hcutx
        obtain ⟨hle, hspends⟩ := hspent hspends _ (Nat.le_add_right _ _) (by omega) hat
        rw [hrest] at hspends
        exact ⟨by omega, hspends⟩

/-! ## Metadata before the cut -/

variable (hrange : rangeOf entries startIndex endIndex = before ++ entry :: after)

include hrange in
/-- The cut is moved exactly if metadata is directly before it. -/
theorem includeMetadata_split :
    startIndex ≤ includeMetadata entries startIndex (startIndex + before.length) ∧
      includeMetadata entries startIndex (startIndex + before.length) ≤
        startIndex + before.length ∧
      (∀ i, includeMetadata entries startIndex (startIndex + before.length) ≤ i →
        i < startIndex + before.length → (entries[i]?).any isMetadataEntry = true) ∧
      (includeMetadata entries startIndex (startIndex + before.length) =
          startIndex + before.length ↔
        (before.getLast?).any isMetadataEntry = false) := by
  obtain ⟨hge, hle, hmeta, hmax⟩ :=
    includeMetadata_spec entries (Nat.le_add_right startIndex before.length)
  refine ⟨hge, hle, hmeta, ?_⟩
  cases before using List.reverseRecOn with
  | nil =>
    refine iff_of_true ?_ rfl
    simp only [length_nil, Nat.add_zero] at hge hle ⊢
    exact Nat.le_antisymm hle hge
  | append_singleton front x =>
    rw [append_assoc, singleton_append] at hrange
    have hget := (getElem?_of_range hrange).1
    simp only [getLast?_concat, any_some, length_append, length_singleton,
      ← Nat.add_assoc] at hge hle hmeta hmax ⊢
    constructor
    · intro heq
      have hnot := hmax _ (Nat.le_add_right startIndex front.length) heq.symm
      rwa [hget, any_some] at hnot
    · intro hnot
      by_contra hne
      have hm := hmeta (startIndex + front.length) (by omega) (by omega)
      rw [hget, any_some, hnot] at hm
      cases hm

/-! ## The turn before the cut -/

/-- A cut is allowed where a turn starts. -/
theorem cutPoint_of_turnStart (h : isTurnStartEntry entry = true) :
    isCutPointEntry entry = true := by
  rw [isTurnStartEntry, Bool.and_eq_true, any_eq_true] at h
  obtain ⟨hnot, m, hm, hstart⟩ := h
  rw [isCutPointEntry, hnot, Bool.true_and, any_eq_true]
  refine ⟨m, hm, ?_⟩
  cases m <;> first | rfl | cases hstart

theorem any_not_turnStart (h : (entries[i]?).any isMetadataEntry = true) :
    (entries[i]?).any isTurnStartEntry = false := by
  cases hentry : entries[i]? with
  | none => rfl
  | some entry =>
    rw [hentry, any_some] at h
    rw [any_some, not_turnStart_of_metadata h]

include hrange in
/-- The entries before the cut. -/
theorem getElem?_before
    (hi : i < before.length) : before[i]? = entries[startIndex + i]? := by
  have hlt := (getElem?_of_range hrange).2.1
  have hget : (rangeOf entries startIndex endIndex)[i]? = before[i]? := by
    rw [hrange, getElem?_append_left hi]
  rw [← hget, rangeOf, getElem?_drop, getElem?_take_of_lt (by omega)]

include hrange in
/-- The search for the start of the turn finds the last one before the cut. -/
theorem findTurnStartIndex_split
    (hstart : startIndex ≤ f) (hle : f ≤ startIndex + before.length)
    (hmeta : ∀ i, f ≤ i → i < startIndex + before.length →
      (entries[i]?).any isMetadataEntry = true)
    (hnot : (entries[f]?).any isTurnStartEntry = false) :
    findTurnStartIndex entries startIndex f =
      (splitLast isTurnStartEntry before).map fun parts => startIndex + parts.1.length := by
  have hlater : ∀ i, f ≤ i → i < startIndex + before.length →
      (entries[i]?).any isTurnStartEntry = false :=
    fun i hi hlt => any_not_turnStart (hmeta i hi hlt)
  cases hfind : findTurnStartIndex entries startIndex f with
  | none =>
    have hnone := findTurnStartIndex_none hfind
    have hsplit : splitLast isTurnStartEntry before = none := by
      refine splitLast_eq_none_iff.2 fun y hy => ?_
      obtain ⟨k, hk, rfl⟩ := getElem_of_mem hy
      have hget := getElem?_before hrange hk
      rw [getElem?_eq_getElem hk] at hget
      have hany : (entries[startIndex + k]?).any isTurnStartEntry = false := by
        rcases Nat.le_total (startIndex + k) f with hkf | hkf
        · exact hnone _ (Nat.le_add_right _ _) hkf
        · exact hlater _ hkf (by omega)
      rwa [← hget, any_some] at hany
    rw [hsplit]
    rfl
  | some t =>
    obtain ⟨hge, htf, hturn, hafter⟩ := findTurnStartIndex_spec hfind
    have hne : t ≠ f := by
      rintro rfl
      rw [hturn] at hnot
      cases hnot
    obtain ⟨k, rfl⟩ := Nat.exists_eq_add_of_le hge
    have hk : k < before.length := by omega
    have hget := getElem?_before hrange hk
    rw [getElem?_eq_getElem hk] at hget
    rw [← hget, any_some] at hturn
    have hsplit : splitLast isTurnStartEntry before =
        some (before.take k, before[k], before.drop (k + 1)) := by
      refine splitLast_eq_some ?_ hturn fun y hy => ?_
      · rw [← drop_eq_getElem_cons hk, take_append_drop]
      · obtain ⟨m, hm, rfl⟩ := getElem_of_mem hy
        rw [length_drop] at hm
        have hlt : k + 1 + m < before.length := by omega
        have hgetm := getElem?_before hrange hlt
        rw [getElem?_eq_getElem hlt] at hgetm
        rw [getElem_drop]
        have hany : (entries[startIndex + (k + 1 + m)]?).any isTurnStartEntry = false := by
          rcases Nat.le_total (startIndex + (k + 1 + m)) f with hmf | hmf
          · exact hafter _ (by omega) hmf
          · exact hlater _ hmf (by omega)
        rwa [← hgetm, any_some] at hany
    rw [hsplit, Option.map_some, length_take_of_le hk.le]

/-- What the code says about the turn at a cut. -/
def splitsTurn (before : List SessionEntry) (entry : SessionEntry) : Bool :=
  !(isTurnStartEntry entry && !(before.getLast?).any isMetadataEntry) &&
    before.any isTurnStartEntry

theorem isSome_splitLast (before : List SessionEntry) :
    (splitLast isTurnStartEntry before).isSome = before.any isTurnStartEntry := by
  cases h : splitLast isTurnStartEntry before with
  | none =>
    have hnone := splitLast_eq_none_iff.1 h
    rw [Option.isSome_none, eq_comm, List.any_eq_false]
    simpa using hnone
  | some parts =>
    obtain ⟨front, x, rest⟩ := parts
    obtain ⟨rfl, hx, -⟩ := of_splitLast h
    simp [hx]

/-- **The cut point of a range**, by the split at the chosen cut. -/
theorem findCutPoint_split (hend : endIndex ≤ entries.length)
    (hcut : cutSplit keepRecentTokens (rangeOf entries startIndex endIndex) =
      some (before, entry, after)) :
    findCutPoint entries startIndex endIndex keepRecentTokens =
      ⟨includeMetadata entries startIndex (startIndex + before.length),
        if isTurnStartEntry entry && !(before.getLast?).any isMetadataEntry then none
        else (splitLast isTurnStartEntry before).map fun parts => startIndex + parts.1.length,
        splitsTurn before entry⟩ := by
  obtain ⟨hrange, hallowed⟩ := of_cutSplit hcut
  obtain ⟨hge, hle, hmeta, hiff⟩ := includeMetadata_split hrange
  have hget := (getElem?_of_range hrange).1
  rcases @chosenCut_split entries keepRecentTokens startIndex endIndex hend with
    ⟨-, hnone⟩ | ⟨first, rest, b, e, a, hcuts, hchosen, hsome⟩
  · rw [hcut] at hnone
    cases hnone
  · obtain ⟨rfl, rfl, rfl⟩ : before = b ∧ entry = e ∧ after = a := by
      simpa using hcut.symm.trans hsome
    simp only [findCutPoint, hcuts, hchosen]
    have hstarts : (entries[includeMetadata entries startIndex
        (startIndex + before.length)]?).any isTurnStartEntry =
        (isTurnStartEntry entry && !(before.getLast?).any isMetadataEntry) := by
      cases hlast : (before.getLast?).any isMetadataEntry with
      | false => rw [hiff.2 hlast, hget, any_some, Bool.not_false, Bool.and_true]
      | true =>
        have hne : includeMetadata entries startIndex (startIndex + before.length) ≠
            startIndex + before.length := fun heq => by rw [hiff.1 heq] at hlast; cases hlast
        rw [any_not_turnStart (hmeta _ le_rfl (by omega)), Bool.not_true, Bool.and_false]
    rw [hstarts]
    cases hturn : isTurnStartEntry entry && !(before.getLast?).any isMetadataEntry with
    | true => simp [splitsTurn, hturn]
    | false =>
      rw [hturn] at hstarts
      rw [findTurnStartIndex_split hrange hge hle hmeta hstarts]
      simp [splitsTurn, hturn, isSome_splitLast]

/-! ## What a cut should say about turns -/

/-- The first entry from `f` on that the context shows. -/
def FirstVisible (entries : List SessionEntry) (f v : Nat) : Prop :=
  f ≤ v ∧ (entries[v]?).any isVisibleEntry = true ∧
    ∀ i, f ≤ i → i < v → (entries[i]?).any isVisibleEntry = false

/-- A turn starts in the range before `v`, and at `t` for the last time. -/
def LastTurnStart (entries : List SessionEntry) (startIndex endIndex v t : Nat) : Prop :=
  startIndex ≤ t ∧ t < v ∧ t < endIndex ∧ (entries[t]?).any isTurnStartEntry = true ∧
    ∀ j, t < j → j < v → (entries[j]?).any isTurnStartEntry = false

/-- A cut should split a turn exactly if its first message does not start a turn and a turn starts
before it in the range; the last start of a turn is then the one of the turn that is split. -/
structure ClassifiesCut (entries : List SessionEntry) (startIndex endIndex : Nat)
    (cut : CutPointResult) : Prop where
  split_iff : cut.isSplitTurn = true ↔ ∃ v t, FirstVisible entries cut.firstKeptEntryIndex v ∧
    (entries[v]?).any isTurnStartEntry = false ∧ LastTurnStart entries startIndex endIndex v t
  turnStart : cut.isSplitTurn = true → ∃ v t, FirstVisible entries cut.firstKeptEntryIndex v ∧
    cut.turnStartIndex = some t ∧ LastTurnStart entries startIndex endIndex v t

/-- The chosen entry starts a turn and metadata is directly before it, and a turn starts before. -/
def Misread (keepRecentTokens : ℚ) (range : List SessionEntry) : Prop :=
  ∃ before entry after, cutSplit keepRecentTokens range = some (before, entry, after) ∧
    isTurnStartEntry entry = true ∧ (before.getLast?).any isMetadataEntry = true ∧
    before.any isTurnStartEntry = true

theorem misread_iff (hcut : cutSplit keepRecentTokens range = some (before, entry, after)) :
    Misread keepRecentTokens range ↔ isTurnStartEntry entry = true ∧
      (before.getLast?).any isMetadataEntry = true ∧ before.any isTurnStartEntry = true := by
  constructor
  · rintro ⟨b, e, a, hsome, hconds⟩
    obtain ⟨rfl, rfl, rfl⟩ : before = b ∧ entry = e ∧ after = a := by
      simpa using hcut.symm.trans hsome
    exact hconds
  · exact fun hconds => ⟨before, entry, after, hcut, hconds⟩

theorem FirstVisible.unique {v w : Nat} (hv : FirstVisible entries f v)
    (hw : FirstVisible entries f w) : v = w := by
  rcases Nat.lt_trichotomy v w with hlt | heq | hlt
  · have := hw.2.2 v hv.1 hlt
    rw [hv.2.1] at this
    cases this
  · exact heq
  · have := hv.2.2 w hw.1 hlt
    rw [hw.2.1] at this
    cases this

include hrange in
/-- The chosen entry is the first that is kept and shown. -/
theorem firstVisible_cut
    (hallowed : isCutPointEntry entry = true) :
    FirstVisible entries (includeMetadata entries startIndex (startIndex + before.length))
      (startIndex + before.length) := by
  obtain ⟨-, hle, hmeta, -⟩ := includeMetadata_split hrange
  refine ⟨hle, ?_, fun i hi hlt => ?_⟩
  · rw [(getElem?_of_range hrange).1]
    exact visible_of_cut hallowed
  · have hm := hmeta i hi hlt
    cases hentry : entries[i]? with
    | none => rfl
    | some x =>
      rw [hentry, any_some] at hm
      exact not_visible_of_metadata hm

include hrange in
/-- Where the turn before the cut starts. -/
theorem lastTurnStart_split
    {x : SessionEntry} (hsplit : splitLast isTurnStartEntry before = some (front, x, rest)) :
    LastTurnStart entries startIndex endIndex (startIndex + before.length)
      (startIndex + front.length) := by
  obtain ⟨rfl, hx, hrest⟩ := of_splitLast hsplit
  have hlength : (front ++ x :: rest).length = front.length + 1 + rest.length := by
    rw [length_append, length_cons]
    omega
  have hlt := (getElem?_of_range hrange).2.1
  refine ⟨Nat.le_add_right _ _, by omega, by omega, ?_, fun j hj hjlt => ?_⟩
  · rw [← getElem?_before hrange (by omega)]
    simpa using hx
  · obtain ⟨m, rfl⟩ := Nat.exists_eq_add_of_lt hj
    have hm : m < rest.length := by omega
    have hget := getElem?_before (i := front.length + m + 1) hrange (by omega)
    have hat : (front ++ x :: rest)[front.length + m + 1]? = some rest[m] := by
      rw [getElem?_append_right (by omega), show front.length + m + 1 - front.length = m + 1
        by omega, getElem?_cons_succ, getElem?_eq_getElem hm]
    rw [show startIndex + front.length + m + 1 = startIndex + (front.length + m + 1) by omega,
      ← hget, hat]
    exact hrest _ (getElem_mem hm)

include hrange in
/-- A turn that starts in the range before the cut starts at an entry before the cut. -/
theorem any_turnStart_of_lastTurnStart {t : Nat}
    (h : LastTurnStart entries startIndex endIndex (startIndex + before.length) t) :
    before.any isTurnStartEntry = true := by
  obtain ⟨hge, hlt, -, hturn, -⟩ := h
  obtain ⟨k, rfl⟩ := Nat.exists_eq_add_of_le hge
  have hk : k < before.length := by omega
  rw [← getElem?_before hrange hk, getElem?_eq_getElem hk, any_some] at hturn
  exact List.any_eq_true.2 ⟨_, getElem_mem hk, hturn⟩

/-- **Cuts are classified as they should be unless they are misread.** -/
theorem classifiesCut_iff (hend : endIndex ≤ entries.length) :
    ClassifiesCut entries startIndex endIndex
        (findCutPoint entries startIndex endIndex keepRecentTokens) ↔
      ¬Misread keepRecentTokens (rangeOf entries startIndex endIndex) := by
  rcases @chosenCut_split entries keepRecentTokens startIndex endIndex hend with
    ⟨hcuts, hnone⟩ | ⟨-, -, before, entry, after, -, -, hcut⟩
  · -- no cut is allowed, so no turn starts in the range
    have hresult : findCutPoint entries startIndex endIndex keepRecentTokens =
        ⟨startIndex, none, false⟩ := by
      rw [findCutPoint, hcuts]
    rw [hresult]
    refine iff_of_true ⟨iff_of_false (by simp) ?_, by simp⟩ ?_
    · rintro ⟨v, t, -, -, hge, -, hlt, hturn, -⟩
      have hmem : t ∈ findValidCutPoints entries startIndex endIndex := by
        refine mem_findValidCutPoints.2 ⟨hge, hlt, ?_⟩
        cases hentry : entries[t]? with
        | none => simp [hentry] at hturn
        | some x =>
          rw [hentry, any_some] at hturn
          exact cutPoint_of_turnStart hturn
      rw [hcuts] at hmem
      cases hmem
    · rintro ⟨before, entry, after, hsome, -⟩
      rw [hnone] at hsome
      cases hsome
  · obtain ⟨hrange, hallowed⟩ := of_cutSplit hcut
    have hvisible := firstVisible_cut hrange hallowed
    have hget := (getElem?_of_range hrange).1
    have hexpected : (∃ v t, FirstVisible entries
          (includeMetadata entries startIndex (startIndex + before.length)) v ∧
        (entries[v]?).any isTurnStartEntry = false ∧
        LastTurnStart entries startIndex endIndex v t) ↔
        isTurnStartEntry entry = false ∧ before.any isTurnStartEntry = true := by
      constructor
      · rintro ⟨v, t, hv, hnot, hlast⟩
        obtain rfl := hv.unique hvisible
        rw [hget, any_some] at hnot
        exact ⟨hnot, any_turnStart_of_lastTurnStart hrange hlast⟩
      · rintro ⟨hnot, hany⟩
        rw [← isSome_splitLast] at hany
        obtain ⟨⟨front, x, rest⟩, hsplit⟩ := Option.isSome_iff_exists.1 hany
        exact ⟨_, _, hvisible, by rw [hget]; exact hnot, lastTurnStart_split hrange hsplit⟩
    rw [findCutPoint_split hend hcut, misread_iff hcut]
    constructor
    · rintro ⟨hiff, -⟩ ⟨hturn, hmeta, hany⟩
      have hsplit := (hiff.trans hexpected).1 (by simp [splitsTurn, hturn, hmeta, hany])
      rw [hturn] at hsplit
      cases hsplit.1
    · intro hnot
      have hclass : splitsTurn before entry = true ↔
          isTurnStartEntry entry = false ∧ before.any isTurnStartEntry = true := by
        unfold splitsTurn
        cases hturn : isTurnStartEntry entry with
        | false => simp
        | true =>
          cases hany : before.any isTurnStartEntry with
          | false => simp
          | true =>
            have hmeta : (before.getLast?).any isMetadataEntry = false := by
              rw [← Bool.not_eq_true]
              exact fun hmeta => hnot ⟨hturn, hmeta, hany⟩
            simp [hmeta]
      refine ⟨hclass.trans hexpected.symm, fun hsplits => ?_⟩
      obtain ⟨hturn, hany⟩ := hclass.1 hsplits
      rw [← isSome_splitLast] at hany
      obtain ⟨⟨front, x, rest⟩, hsplit⟩ := Option.isSome_iff_exists.1 hany
      exact ⟨_, _, hvisible, by simp [hturn, hsplit], lastTurnStart_split hrange hsplit⟩

end BeauPi.Compaction
