import BeauPi.Compaction.SplitTurn

/-!
# What metadata does to a compaction

Entries without a message should not matter for what is summarized and what is kept.

* `core` — the entries that are not mere metadata.
* `partsOf` — the messages that a preparation summarizes, splits off and keeps.
* `partsOf_eq` — they come from the range after the boundary.
* `rangeParts_eq_iff` — ranges with the same core have the same parts unless one of them alone is
  misread.
* `turns_and_metadata_iff` — **both together**: cuts are about messages unless they are misread.
-/

namespace BeauPi.Compaction

open Llm Sessions Machine List
open Option (any_some bind_some getD_none getD_some map_none map_some)

/-! ## Vocabulary -/

/-- `custom`, `label`, `model_change`, `thinking_level_change` and `session_info` entries. -/
def isBareEntry (entry : SessionEntry) : Bool :=
  match entry.body with
  | .custom .. | .label .. | .modelChange .. | .thinkingLevelChange .. | .sessionInfo .. => true
  | _ => false

/-- The entries that are not mere metadata: what inserting and deleting metadata leaves alone. -/
def core (entries : List SessionEntry) : List SessionEntry :=
  entries.filter fun entry => !isBareEntry entry

/-- The messages that a preparation summarizes, splits off and keeps. -/
def partsOf (path : List SessionEntry) (settings : CompactionSettings) :
    Option (List AgentMessage × List AgentMessage × List AgentMessage) :=
  (prepareCompaction path settings).map fun prep =>
    (prep.messagesToSummarize, prep.turnPrefixMessages,
      messagesOf (keptFrom prep.firstKeptEntryId path))

/-- The messages that entries contribute to a summary. -/
def summaryMessages (entries : List SessionEntry) : List AgentMessage :=
  entries.filterMap getMessageFromEntryForCompaction

/-- What is summarized and what is split off, by the split at the chosen cut. -/
def turnParts (before : List SessionEntry) (entry : SessionEntry) :
    List AgentMessage × List AgentMessage :=
  match if splitsTurn before entry then splitLast isTurnStartEntry before else none with
  | some (front, x, rest) => (summaryMessages front, summaryMessages (x :: rest))
  | none => (summaryMessages before, [])

/-- The parts of a range. -/
def rangeParts (keepRecentTokens : ℚ) (range : List SessionEntry) :
    Option (List AgentMessage × List AgentMessage × List AgentMessage) :=
  (cutSplit keepRecentTokens range).bind fun split =>
    let parts := turnParts split.1 split.2.1
    if parts.1 = [] ∧ parts.2 = [] then none
    else some (parts.1, parts.2, messagesOf (split.2.1 :: split.2.2))

variable {path path' entries before after range range' : List SessionEntry} {entry : SessionEntry}
  {settings : CompactionSettings} {keepRecentTokens : ℚ} {startIndex a b c f : Nat}

/-! ## Entries without messages -/

theorem bare_messages (h : isBareEntry entry = true) :
    sessionEntryToContextMessages entry = [] := by
  unfold isBareEntry at h
  unfold sessionEntryToContextMessages
  cases hbody : entry.body <;> simp [hbody] at h ⊢

theorem not_compaction_of_bare (h : isBareEntry entry = true) : entry.isCompaction = false := by
  unfold isBareEntry at h
  unfold SessionEntry.isCompaction SessionEntry.compaction?
  cases hbody : entry.body <;> simp [hbody] at h ⊢

theorem metadata_of_bare (h : isBareEntry entry = true) : isMetadataEntry entry = true := by
  rw [isMetadataEntry, bare_messages h, not_compaction_of_bare h]
  rfl

theorem summaryMessage_of_metadata (h : isMetadataEntry entry = true) :
    getMessageFromEntryForCompaction entry = none := by
  rw [isMetadataEntry, Bool.and_eq_true, Bool.not_eq_true', List.isEmpty_iff] at h
  rw [getMessageFromEntryForCompaction, h.1, h.2]
  rfl

theorem messages_of_metadata (h : isMetadataEntry entry = true) :
    sessionEntryToContextMessages entry = [] := by
  rw [isMetadataEntry, Bool.and_eq_true, List.isEmpty_iff] at h
  exact h.2

/-- An entry at which a turn starts contributes a message. -/
theorem summaryMessage_of_turnStart (h : isTurnStartEntry entry = true) :
    getMessageFromEntryForCompaction entry ≠ none := by
  rw [isTurnStartEntry, Bool.and_eq_true, Bool.not_eq_true'] at h
  rw [getMessageFromEntryForCompaction, h.1]
  cases hm : sessionEntryToContextMessages entry with
  | nil => simp [hm] at h
  | cons m rest => simp

theorem summaryMessages_core (entries : List SessionEntry) :
    summaryMessages (core entries) = summaryMessages entries := by
  induction entries with
  | nil => rfl
  | cons e rest ih =>
    unfold core summaryMessages at *
    cases hbare : isBareEntry e with
    | true =>
      rw [filter_cons_of_neg (by simp [hbare]), ih, filterMap_cons,
        summaryMessage_of_metadata (metadata_of_bare hbare)]
    | false => rw [filter_cons_of_pos (by simp [hbare]), filterMap_cons, ih,
        filterMap_cons]

theorem messagesOf_core (entries : List SessionEntry) : messagesOf (core entries) =
    messagesOf entries := by
  induction entries with
  | nil => rfl
  | cons e rest ih =>
    unfold core at *
    cases hbare : isBareEntry e with
    | true =>
      rw [filter_cons_of_neg (by simp [hbare]), ih, messagesOf_cons, bare_messages hbare,
        nil_append]
    | false => rw [filter_cons_of_pos (by simp [hbare]), messagesOf_cons, ih, messagesOf_cons]

theorem runTokens_core (entries : List SessionEntry) : runTokens (core entries) =
    runTokens entries := by
  have htokens : ∀ entries, runTokens entries = ((messagesOf entries).map estimateTokens).sum := by
    intro entries
    induction entries with
    | nil => rfl
    | cons e rest ih =>
      rw [messagesOf_cons, map_append, sum_append, ← ih]
      rfl
  rw [htokens, htokens, messagesOf_core]

/-! ## Ranges with the same core -/

theorem cutSplit_core (keepRecentTokens : ℚ) (range : List SessionEntry) :
    cutSplit keepRecentTokens (core range) =
      (cutSplit keepRecentTokens range).map (filterParts fun entry => !isBareEntry entry) := by
  have hskip : ∀ x, (!isBareEntry x) = false → isCutPointEntry x = false := by
    intro x hx
    rw [Bool.not_eq_false'] at hx
    rw [isCutPointEntry, bare_messages hx, any_nil, Bool.and_false]
  have haffordable := @splitFirst_filter _ (affordableCut keepRecentTokens)
    (fun entry => !isBareEntry entry)
    (fun x rest hx => by rw [affordableCut, hskip x hx, Bool.false_and])
    (fun x rest => by
      rw [affordableCut, affordableCut, spendsBudget, spendsBudget, ← core, runTokens_core]) range
  have hallowed := @splitFirst_filter _ (fun entry _ => isCutPointEntry entry)
    (fun entry => !isBareEntry entry) (fun x _ hx => hskip x hx) (fun _ _ => rfl) range
  rw [core, cutSplit, haffordable, hallowed, cutSplit]
  cases splitFirst (affordableCut keepRecentTokens) range <;> simp

/-- Ranges with the same core are cut at the same entry. -/
theorem cutSplit_of_core (hcore : core range = core range') :
    (cutSplit keepRecentTokens range = none ∧ cutSplit keepRecentTokens range' = none) ∨
      ∃ before before' entry after after',
        cutSplit keepRecentTokens range = some (before, entry, after) ∧
        cutSplit keepRecentTokens range' = some (before', entry, after') ∧
        core before = core before' ∧ core after = core after' := by
  have hsame := (cutSplit_core keepRecentTokens range).symm.trans
    ((congrArg _ hcore).trans (cutSplit_core keepRecentTokens range'))
  cases h : cutSplit keepRecentTokens range with
  | none =>
    rw [h, map_none, eq_comm, Option.map_eq_none_iff] at hsame
    exact .inl ⟨rfl, hsame⟩
  | some parts =>
    obtain ⟨before, entry, after⟩ := parts
    rw [h, map_some, eq_comm] at hsame
    obtain ⟨⟨before', entry', after'⟩, h', heq⟩ := Option.map_eq_some_iff.1 hsame
    obtain ⟨hbefore, rfl, hafter⟩ : core before' = core before ∧ entry' = entry ∧
        core after' = core after := by simpa [filterParts, core] using heq
    exact .inr ⟨before, before', entry', after, after', rfl, h', hbefore.symm, hafter.symm⟩

theorem splitLast_core (entries : List SessionEntry) : splitLast isTurnStartEntry (core entries) =
    (splitLast isTurnStartEntry entries).map (filterParts fun entry => !isBareEntry entry) := by
  refine splitLast_filter (fun x hx => ?_) entries
  rw [Bool.not_eq_false'] at hx
  exact not_turnStart_of_metadata (metadata_of_bare hx)

theorem any_turnStart_of_core {before' : List SessionEntry} (hcore : core before = core before') :
    before.any isTurnStartEntry = before'.any isTurnStartEntry := by
  have hany : ∀ entries, entries.any isTurnStartEntry =
      (splitLast isTurnStartEntry (core entries)).isSome := by
    intro entries
    rw [splitLast_core, Option.isSome_map, isSome_splitLast]
  rw [hany, hany, hcore]

/-- What is summarized and split off depends on the core, and on whether a turn is split. -/
theorem turnParts_of_core {before' : List SessionEntry} (hcore : core before = core before')
    (hsplits : splitsTurn before entry = splitsTurn before' entry) :
    turnParts before entry = turnParts before' entry := by
  have hparts : ∀ entries, turnParts entries entry =
      match if splitsTurn entries entry then splitLast isTurnStartEntry (core entries)
        else none with
      | some (front, x, rest) => (summaryMessages front, summaryMessages (x :: rest))
      | none => (summaryMessages (core entries), []) := by
    intro entries
    rw [turnParts, splitLast_core, summaryMessages_core]
    cases splitsTurn entries entry with
    | false => rfl
    | true =>
      cases hlast : splitLast isTurnStartEntry entries with
      | none => rfl
      | some parts =>
        obtain ⟨front, x, rest⟩ := parts
        have hx : isBareEntry x = false := by
          rw [← Bool.not_eq_true]
          intro hbare
          have hturn := (of_splitLast hlast).2.1
          rw [not_turnStart_of_metadata (metadata_of_bare hbare)] at hturn
          cases hturn
        have hcons : core (x :: rest) = x :: core rest := by
          rw [core, filter_cons_of_pos (by simp [hx]), core]
        simp only [if_true, map_some, filterParts]
        rw [← core, ← core, ← hcons, summaryMessages_core, summaryMessages_core]
  rw [hparts, hparts, hsplits, hcore]

/-- If a turn is split, its messages are split off. -/
theorem turnParts_snd (before : List SessionEntry) (entry : SessionEntry) :
    (turnParts before entry).2 ≠ [] ↔ splitsTurn before entry = true := by
  unfold turnParts
  cases hsplits : splitsTurn before entry with
  | false => simp
  | true =>
    rw [splitsTurn, Bool.and_eq_true, ← isSome_splitLast] at hsplits
    obtain ⟨⟨front, x, rest⟩, hlast⟩ := Option.isSome_iff_exists.1 hsplits.2
    have hx := summaryMessage_of_turnStart (of_splitLast hlast).2.1
    rw [if_pos rfl, hlast]
    refine iff_of_true ?_ rfl
    obtain ⟨m, hm⟩ := Option.ne_none_iff_exists'.1 hx
    simp [summaryMessages, hm]

theorem snd_eq_of_parts {parts parts' : List AgentMessage × List AgentMessage}
    {kept : List AgentMessage}
    (h : (if parts.1 = [] ∧ parts.2 = [] then none else some (parts.1, parts.2, kept)) =
      if parts'.1 = [] ∧ parts'.2 = [] then none else some (parts'.1, parts'.2, kept)) :
    parts.2 = parts'.2 := by
  split_ifs at h with hempty hempty'
  · rw [hempty.2, hempty'.2]
  · exact congrArg (fun parts => parts.2.1) (Option.some.inj h)

/-- **Ranges with the same core have the same parts unless one of them alone is misread.** -/
theorem rangeParts_eq_iff (hcore : core range = core range') :
    rangeParts keepRecentTokens range = rangeParts keepRecentTokens range' ↔
      (Misread keepRecentTokens range ↔ Misread keepRecentTokens range') := by
  rcases @cutSplit_of_core range range' keepRecentTokens hcore with
    ⟨hnone, hnone'⟩ | ⟨before, before', entry, after, after', hcut, hcut', hbefore, hafter⟩
  · have hfalse : ∀ {range}, cutSplit keepRecentTokens range = none →
        ¬Misread keepRecentTokens range := by
      rintro range hnone ⟨b, e, a, hsome, -⟩
      rw [hnone] at hsome
      cases hsome
    refine iff_of_true ?_ (iff_of_false (hfalse hnone) (hfalse hnone'))
    rw [rangeParts, rangeParts, hnone, hnone']
  · have hany := any_turnStart_of_core hbefore
    have hkept : messagesOf (entry :: after) = messagesOf (entry :: after') := by
      rw [messagesOf_cons, messagesOf_cons, ← messagesOf_core after, hafter, messagesOf_core]
    rw [misread_iff hcut, misread_iff hcut', rangeParts, rangeParts, hcut, hcut', hany]
    simp only [bind_some, hkept]
    have hsplits : (splitsTurn before entry = splitsTurn before' entry) ↔
        ((isTurnStartEntry entry = true ∧ (before.getLast?).any isMetadataEntry = true ∧
            before'.any isTurnStartEntry = true) ↔
          (isTurnStartEntry entry = true ∧ (before'.getLast?).any isMetadataEntry = true ∧
            before'.any isTurnStartEntry = true)) := by
      unfold splitsTurn
      rw [hany]
      cases isTurnStartEntry entry <;> cases before'.any isTurnStartEntry <;>
        cases (before.getLast?).any isMetadataEntry <;>
        cases (before'.getLast?).any isMetadataEntry <;> simp
    rw [← hsplits]
    constructor
    · intro hsame
      have hsnd := snd_eq_of_parts hsame
      rw [Bool.eq_iff_iff, ← turnParts_snd, ← turnParts_snd, hsnd]
    · intro hsame
      rw [turnParts_of_core hbefore hsame]

/-! ## The parts of a preparation -/

theorem rangeOf_length (path : List SessionEntry) (startIndex : Nat) :
    rangeOf path startIndex path.length = path.drop startIndex := by
  rw [rangeOf, take_length]

theorem messagesBetween_take (h : path.drop startIndex = before ++ after) :
    messagesBetween path startIndex (startIndex + before.length) = summaryMessages before := by
  rw [messagesBetween, h, Nat.add_sub_cancel_left, take_left]
  rfl

/-- Metadata contributes nothing. -/
theorem messagesBetween_metadata
    (h : ∀ i, f ≤ i → i < c → (path[i]?).any isMetadataEntry = true) :
    messagesBetween path f c = [] := by
  rw [messagesBetween, filterMap_eq_nil_iff]
  intro e he
  obtain ⟨k, hk, rfl⟩ := getElem_of_mem he
  rw [length_take, length_drop] at hk
  have hm := h (f + k) (Nat.le_add_right _ _) (by omega)
  rw [getElem?_eq_getElem (by omega), any_some] at hm
  rw [getElem_take, getElem_drop]
  exact summaryMessage_of_metadata hm

theorem messagesOf_drop_metadata (hle : f ≤ c)
    (h : ∀ i, f ≤ i → i < c → (path[i]?).any isMetadataEntry = true) :
    messagesOf (path.drop f) = messagesOf (path.drop c) := by
  obtain ⟨n, rfl⟩ := Nat.exists_eq_add_of_le hle
  induction n with
  | zero => rfl
  | succ n ih =>
    rw [ih (Nat.le_add_right _ _) fun i hi hlt => h i hi (by omega)]
    have hm := h (f + n) (Nat.le_add_right _ _) (by omega)
    cases hentry : path[f + n]? with
    | none => simp [hentry] at hm
    | some e =>
      rw [hentry, any_some] at hm
      obtain ⟨hlt, rfl⟩ := List.getElem?_eq_some_iff.1 hentry
      rw [drop_eq_getElem_cons hlt, messagesOf_cons, messages_of_metadata hm, nil_append,
        Nat.add_assoc]

/-- **The parts of a preparation are those of the range after the boundary.** -/
theorem partsOf_eq (hnodup : (path.map (·.id)).Nodup) (hnamed : ∀ e ∈ path, e.id ≠ "")
    (hlast : (path.getLast?).any (·.isCompaction) = false) :
    partsOf path settings =
      rangeParts settings.keepRecentTokens (path.drop (boundaryStart path)) := by
  unfold partsOf prepareCompaction
  rw [hlast, if_neg (by decide)]
  dsimp only
  generalize boundaryStart path = s
  rcases @chosenCut_split path settings.keepRecentTokens s path.length le_rfl with
    ⟨hcuts, hnone⟩ | ⟨-, -, before, entry, after, -, -, hcut⟩
  · have hresult : findCutPoint path s path.length settings.keepRecentTokens =
        ⟨s, none, false⟩ := by
      rw [findCutPoint, hcuts]
    rw [rangeOf_length] at hnone
    rw [hresult, rangeParts, hnone]
    cases path[s]? with
    | none => rfl
    | some e =>
      simp [messagesBetween_self]
  · have hresult := findCutPoint_split le_rfl hcut
    obtain ⟨hrange, -⟩ := of_cutSplit hcut
    obtain ⟨hge, hle, hmeta, -⟩ := includeMetadata_split hrange
    obtain ⟨-, hlt, hafter⟩ := getElem?_of_range hrange
    rw [rangeOf_length] at hcut
    rw [hresult, rangeParts, hcut]
    generalize includeMetadata path s (s + before.length) = f at hge hle hmeta
    obtain ⟨kept, hkept⟩ : ∃ kept, path[f]? = some kept :=
      ⟨_, getElem?_eq_getElem (by omega)⟩
    have hid : kept.id ≠ "" := hnamed kept (mem_of_getElem? hkept)
    have hdrop : path.drop s = before ++ entry :: after := by rw [← rangeOf_length, hrange]
    have hrest : messagesOf (keptFrom kept.id path) = messagesOf (entry :: after) := by
      rw [keptFrom_eq hnodup hkept, messagesOf_drop_metadata hle hmeta, ← drop_drop, hdrop,
        drop_left]
    have hupto : ∀ a, a ≤ f → messagesBetween path a f =
        messagesBetween path a (s + before.length) := by
      intro a ha
      rw [← messagesBetween_append path ha hle, messagesBetween_metadata hmeta, append_nil]
    simp only [hkept, if_neg hid, bind_some]
    cases hsplits : splitsTurn before entry with
    | false =>
      have hparts : turnParts before entry = (summaryMessages before, []) := by
        rw [turnParts, hsplits]
        rfl
      rw [hparts]
      simp only [Bool.false_eq_true, if_false, getD_none, hupto s hge,
        messagesBetween_take hdrop]
      split_ifs with hempty
      · rfl
      · rw [map_some, hrest]
    | true =>
      obtain ⟨front, x, turn, hturn⟩ : ∃ front x turn,
          splitLast isTurnStartEntry before = some (front, x, turn) := by
        have hany := hsplits
        rw [splitsTurn, Bool.and_eq_true, ← isSome_splitLast] at hany
        obtain ⟨⟨front, x, turn⟩, hturn⟩ := Option.isSome_iff_exists.1 hany.2
        exact ⟨front, x, turn, hturn⟩
      have hparts : turnParts before entry =
          (summaryMessages front, summaryMessages (x :: turn)) := by
        rw [turnParts, hsplits, if_pos rfl, hturn]
      have hstarts :
          (isTurnStartEntry entry && !(before.getLast?).any isMetadataEntry) = false := by
        rw [splitsTurn, Bool.and_eq_true, Bool.not_eq_true'] at hsplits
        exact hsplits.1
      obtain ⟨hbefore, hx, -⟩ := of_splitLast hturn
      have hfront : path.drop s = front ++ (x :: turn ++ entry :: after) := by
        rw [hdrop, hbefore, append_assoc]
      have hback : path.drop (s + front.length) = x :: turn ++ entry :: after := by
        rw [← drop_drop, hfront, drop_left]
      have hend : s + front.length + (x :: turn).length = s + before.length := by
        rw [hbefore, length_append]
        omega
      have hstart : s + front.length ≤ f := by
        by_contra hgt
        have hm := hmeta (s + front.length) (by omega) (by rw [length_cons] at hend; omega)
        have hget : path[s + front.length]? = some x := by
          rw [← getElem?_drop, hfront]
          simp
        rw [hget, any_some] at hm
        rw [not_turnStart_of_metadata hm] at hx
        cases hx
      rw [hparts]
      simp only [if_true, hstarts, Bool.false_eq_true, if_false, hturn, map_some,
        getD_some, hupto _ hstart, ← hend, messagesBetween_take hfront,
        messagesBetween_take hback]
      split_ifs with hempty
      · rfl
      · rw [map_some, hrest]

/-! ## The boundary -/

/-- The previous compaction keeps from no mere metadata on. -/
def NamesNoMetadata (path : List SessionEntry) : Prop :=
  ∀ data, (prevCompaction? path).map Prod.snd = some data →
    ∀ entry ∈ path, isBareEntry entry = true → entry.id ≠ data.firstKeptEntryId

theorem core_split (front rest : List SessionEntry) (hnot : isBareEntry entry = false) :
    core (front ++ entry :: rest) = core front ++ entry :: core rest := by
  rw [core, filter_append, filter_cons_of_pos (by simp [hnot])]
  rfl

theorem not_bare_of_compaction (h : entry.isCompaction = true) : isBareEntry entry = false := by
  rw [← Bool.not_eq_true]
  intro hbare
  rw [not_compaction_of_bare hbare] at h
  cases h

theorem mem_of_core (h : entry ∈ core entries) : entry ∈ entries := mem_of_mem_filter h

/-- The index of an id in a list that is taken apart at its first occurrence. -/
theorem findIdx?_first {id : String} {front rest : List SessionEntry}
    (hfront : ∀ e ∈ front, e.id ≠ id) (hid : entry.id = id) :
    (front ++ entry :: rest).findIdx? (·.id = id) = some front.length := by
  rw [findIdx?_append, List.findIdx?_eq_none_iff.2 (by simpa using hfront), Option.none_or,
    findIdx?_cons, if_pos (by simp [hid])]
  simp

/-- The range after the boundary has the same core whatever metadata there is. -/
theorem core_drop_boundaryStart (hnames : NamesNoMetadata path) :
    core (path.drop (boundaryStart path)) = (core path).drop (boundaryStart (core path)) := by
  rcases exists_split path with hnone | ⟨pre, compaction, data, post, hsplit⟩
  · have hzero := prevCompaction?_none hnone
    have hzero' := prevCompaction?_none fun e he => hnone e (mem_of_core he)
    simp [boundaryStart, hzero, hzero']
  · have hcompaction := not_bare_of_compaction (isCompaction_of_data hsplit.data)
    have hprev := prevCompaction?_split hsplit
    have hcore : core path = core pre ++ compaction :: core post := by
      rw [hsplit.eq, core_split _ _ hcompaction]
    have hprev' := prevCompaction?_split
      ⟨hcore, hsplit.data, fun e he => hsplit.last e (mem_of_core he)⟩
    rw [boundaryStart, boundaryStart, hprev, hprev']
    dsimp only
    cases hfind : path.findIdx? (·.id = data.firstKeptEntryId) with
    | none =>
      have hnone : (core path).findIdx? (·.id = data.firstKeptEntryId) = none := by
        rw [findIdx?_eq_none_iff] at hfind ⊢
        exact fun e he => hfind e (mem_of_core he)
      have hafter : ∀ front rest : List SessionEntry,
          (front ++ compaction :: rest).drop (front.length + 1) = rest := by
        intro front rest
        rw [← drop_drop, drop_left]
        rfl
      rw [hnone, getD_none, getD_none, hcore, hafter, hsplit.eq, hafter]
    | some i =>
      obtain ⟨hlt, hid, hfirst⟩ := List.findIdx?_eq_some_iff_getElem.1 hfind
      have hpath : path = path.take i ++ path[i] :: path.drop (i + 1) := by
        rw [← drop_eq_getElem_cons hlt, take_append_drop]
      have hnot : isBareEntry path[i] = false := by
        rw [← Bool.not_eq_true]
        intro hbare
        exact hnames data (by rw [hprev]; rfl) _ (getElem_mem hlt) hbare (by simpa using hid)
      have hfront : ∀ e ∈ core (path.take i), e.id ≠ data.firstKeptEntryId := by
        intro e he
        obtain ⟨j, hj, rfl⟩ := getElem_of_mem (mem_of_core he)
        rw [length_take] at hj
        rw [getElem_take]
        simpa using hfirst j (by omega)
      have hcore' : core path = core (path.take i) ++ path[i] :: core (path.drop (i + 1)) := by
        conv_lhs => rw [hpath]
        exact core_split _ _ hnot
      rw [hcore', findIdx?_first hfront (by simpa using hid), getD_some, getD_some,
        drop_left, drop_eq_getElem_cons hlt, core,
        filter_cons_of_pos (by simp [hnot])]
      rfl

/-! ## Both together -/

/-- The two paths differ in metadata only, and a preparation starts from the same place in both:
ids are names, the paths end in a compaction or not, and it keeps from no mere metadata on. -/
structure ReadAlike (path path' : List SessionEntry) : Prop where
  same : core path = core path'
  nodup : (path.map (·.id)).Nodup ∧ (path'.map (·.id)).Nodup
  named : (∀ e ∈ path, e.id ≠ "") ∧ ∀ e ∈ path', e.id ≠ ""
  last : (path.getLast?).any (·.isCompaction) = (path'.getLast?).any (·.isCompaction)
  boundary : NamesNoMetadata path ∧ NamesNoMetadata path'

/-- The cut of a preparation is misread. -/
def MisreadPath (settings : CompactionSettings) (path : List SessionEntry) : Prop :=
  (path.getLast?).any (·.isCompaction) = false ∧
    Misread settings.keepRecentTokens (path.drop (boundaryStart path))

theorem partsOf_eq_iff (h : ReadAlike path path') (settings : CompactionSettings) :
    partsOf path settings = partsOf path' settings ↔
      (MisreadPath settings path ↔ MisreadPath settings path') := by
  unfold MisreadPath
  cases hlast : (path.getLast?).any (·.isCompaction) with
  | true =>
    have hnone : ∀ {path}, (path.getLast?).any (·.isCompaction) = true →
        partsOf path settings = none := by
      intro path hlast
      rw [partsOf, prepareCompaction, if_pos hlast, map_none]
    rw [hnone hlast, hnone (h.last ▸ hlast), ← h.last, hlast]
    simp
  | false =>
    have hlast' := h.last ▸ hlast
    have hcore : core (path.drop (boundaryStart path)) =
        core (path'.drop (boundaryStart path')) := by
      rw [core_drop_boundaryStart h.boundary.1, h.same, ← core_drop_boundaryStart h.boundary.2]
    rw [partsOf_eq h.nodup.1 h.named.1 hlast, partsOf_eq h.nodup.2 h.named.2 hlast',
      rangeParts_eq_iff hcore, hlast']
    simp

/-- A label of the short session. -/
def shortLabel (id : String) (parentId : Option String) : SessionEntry :=
  ⟨id, parentId, "2026-01-01T00:00:00.000Z", .label "u1" none⟩

/-- Two messages of the user. -/
def twoUsers : List SessionEntry := [shortUser "u1" none, shortUser "u2" "u1"]

/-- A label in front of them. -/
def labelFirst : List SessionEntry := shortLabel "l1" none :: twoUsers

/-- A label between them. -/
def labelBetween : List SessionEntry :=
  [shortUser "u1" none, shortLabel "l1" "u1", shortUser "u2" "l1"]

/-- The entries of the short session with a label and two messages, at the cut before the last. -/
theorem cutSplit_labelFirst : cutSplit 1 labelFirst =
    some ([shortLabel "l1" none, shortUser "u1" none], shortUser "u2" "u1", []) := by
  decide

theorem cutSplit_twoUsers : cutSplit 1 twoUsers =
    some ([shortUser "u1" none], shortUser "u2" "u1", []) := by
  decide

theorem readAlike_labelFirst : ReadAlike labelFirst twoUsers where
  same := by decide
  nodup := by decide
  named := by decide
  last := by decide
  boundary := by
    have hnone : prevCompaction? labelFirst = none ∧ prevCompaction? twoUsers = none := by
      decide
    constructor <;> intro data hdata
    · rw [hnone.1] at hdata; cases hdata
    · rw [hnone.2] at hdata; cases hdata

end BeauPi.Compaction
