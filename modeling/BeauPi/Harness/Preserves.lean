import BeauPi.Harness.Runs

/-!
# What a harness compaction keeps of the context

A compaction stores the messages it retains, and the branch then starts at its entry.  The next
compaction reads the entries after it and neither the messages stored in it nor the settings made
before it, which are lost then.

* `KeepsContext` — the old context is what is summarized, followed by the new context, and the
  settings stay.
* `LeavesNothing` — the branch has nothing that the compaction does not read.
* `compact_keepsContext_iff` — the two are the same in every state of every run.
-/

namespace BeauPi.Harness

open Llm Sessions Machine List
open Compaction (CompactionSettings defaultCompactionSettings)

/-! ## Vocabulary -/

/-- `Session.buildContext` without its leading compaction summary. -/
def Storage.contextBody (projectors : Projectors) (s : Storage) :
    Except SessionError (List AgentMessage) := do
  let path ← s.getBranch
  let context := buildSessionContext projectors path
  return if path.any (·.isCompaction) then context.messages.tail else context.messages

/-- The settings of `Session.buildContext`. -/
def Storage.contextState (s : Storage) : Except SessionError ContextState :=
  (s.getBranch).map deriveSessionContextState

/-- The context before is what is summarized, followed by the context after, and the settings are
the same. -/
def KeepsContext (projectors : Projectors) (preparation : CompactionPreparation)
    (before after : Storage) : Prop :=
  ∃ body body' state, before.contextBody projectors = .ok body ∧
    after.contextBody projectors = .ok body' ∧
    body = preparation.messagesToSummarize ++ preparation.turnPrefixMessages ++ body' ∧
    before.contextState = .ok state ∧ after.contextState = .ok state

/-- The entries of a context and their indices, without the leading compaction. -/
def shown (path : List TreeEntry) : List (TreeEntry × Nat) :=
  (defaultContextEntryTransform path).zipIdx.drop (if path.any (·.isCompaction) then 1 else 0)

/-- The thinking level that an entry sets. -/
def TreeEntry.thinkingLevel? (entry : TreeEntry) : Option String :=
  match entry.body with
  | .thinkingLevelChange level => some level
  | _ => none

/-- Does the entry set the model? -/
def TreeEntry.setsModel (entry : TreeEntry) : Bool :=
  match entry.body with
  | .modelChange .. => true
  | .message (.assistant _) => true
  | _ => false

/-- Does the entry set the active tools? -/
def TreeEntry.setsTools (entry : TreeEntry) : Bool :=
  match entry.body with
  | .activeToolsChange _ => true
  | _ => false

/-- The branch leaves the settings as they are at first. -/
structure SettingsUnset (path : List TreeEntry) : Prop where
  level : (path.filterMap (·.thinkingLevel?)).getLast?.getD "off" = "off"
  model : ∀ entry ∈ path, entry.setsModel = false
  tools : ∀ entry ∈ path, entry.setsTools = false

/-- Nothing but the message that a compaction reads comes from an entry. -/
def ShowsOnlyMessage (projectors : Projectors) (path : List TreeEntry)
    (pair : TreeEntry × Nat) : Prop :=
  pair.1.isCompaction = false ∧ ∀ customType data, pair.1.body = .custom customType data →
    sessionEntryToContextMessages projectors (defaultContextEntryTransform path) pair.1 pair.2 = []

/-- The branch has nothing that a compaction does not read: the latest compaction retained no
messages, none is among the other entries shown, no custom entry is shown as a message, and the
settings are unset. -/
structure LeavesNothing (projectors : Projectors) (path : List TreeEntry) : Prop where
  tail : ∀ entry data, lastCompaction? path = some (entry, data) →
    data.retainedTail.getD [] = []
  plain : ∀ pair ∈ shown path, ShowsOnlyMessage projectors path pair
  settings : SettingsUnset path

variable {path pre post : List TreeEntry} {entry : TreeEntry} {data : CompactionData}
  {settings : CompactionSettings} {preparation : CompactionPreparation} {projectors : Projectors}
  {s s' : Storage}

/-! ## The settings -/

theorem deriveSessionContextState_concat : deriveSessionContextState (path ++ [entry]) =
    (deriveSessionContextState path).apply entry := by
  simp [deriveSessionContextState]

/-- The level of the context is the last one set. -/
theorem thinkingLevel_eq : (deriveSessionContextState path).thinkingLevel =
    (path.filterMap (·.thinkingLevel?)).getLast?.getD "off" := by
  induction path using List.reverseRecOn with
  | nil => rfl
  | append_singleton path entry ih =>
    rw [deriveSessionContextState_concat, filterMap_append]
    unfold ContextState.apply TreeEntry.thinkingLevel?
    rcases hbody : entry.body with m | _ | _ | _ | _ | _ | _ | _ | _ | _ | _
    case message => cases m <;> simp [hbody, ih, TreeEntry.thinkingLevel?]
    all_goals simp [hbody, ih, TreeEntry.thinkingLevel?]

theorem model_eq_none_iff : (deriveSessionContextState path).model = none ↔
    ∀ entry ∈ path, entry.setsModel = false := by
  induction path using List.reverseRecOn with
  | nil => simp [deriveSessionContextState, ContextState.initial]
  | append_singleton path entry ih =>
    rw [deriveSessionContextState_concat]
    unfold ContextState.apply TreeEntry.setsModel at *
    rcases hbody : entry.body with m | _ | _ | _ | _ | _ | _ | _ | _ | _ | _
    case message => cases m <;> simp [hbody, ih, or_imp, forall_and]
    all_goals simp [hbody, ih, or_imp, forall_and]

theorem activeToolNames_eq_none_iff : (deriveSessionContextState path).activeToolNames = none ↔
    ∀ entry ∈ path, entry.setsTools = false := by
  induction path using List.reverseRecOn with
  | nil => simp [deriveSessionContextState, ContextState.initial]
  | append_singleton path entry ih =>
    rw [deriveSessionContextState_concat]
    unfold ContextState.apply TreeEntry.setsTools at *
    rcases hbody : entry.body with m | _ | _ | _ | _ | _ | _ | _ | _ | _ | _
    case message => cases m <;> simp [hbody, ih, or_imp, forall_and]
    all_goals simp [hbody, ih, or_imp, forall_and]

theorem settingsUnset_iff :
    deriveSessionContextState path = .initial ↔ SettingsUnset path := by
  constructor
  · intro h
    exact ⟨by rw [← thinkingLevel_eq, h]; rfl, model_eq_none_iff.1 (by rw [h]; rfl),
      activeToolNames_eq_none_iff.1 (by rw [h]; rfl)⟩
  · rintro ⟨hlevel, hmodel, htools⟩
    rw [← thinkingLevel_eq] at hlevel
    rw [← model_eq_none_iff] at hmodel
    rw [← activeToolNames_eq_none_iff] at htools
    cases hstate : deriveSessionContextState path
    simp_all [ContextState.initial]

/-! ## The latest compaction -/

/-- A branch taken apart at its latest compaction. -/
structure Split (path pre : List TreeEntry) (entry : TreeEntry) (data : CompactionData)
    (post : List TreeEntry) : Prop where
  eq : path = pre ++ entry :: post
  data : entry.compaction? = some data
  last : ∀ e ∈ post, e.compaction? = none

/-- A path holds no compaction or is taken apart at its latest one. -/
theorem exists_split (path : List TreeEntry) :
    (∀ e ∈ path, e.compaction? = none) ∨ ∃ pre entry data post, Split path pre entry data post := by
  induction path with
  | nil => exact Or.inl (by simp)
  | cons e path ih =>
    rcases ih with hnone | ⟨pre, entry, data, post, hsplit⟩
    · cases hdata : e.compaction? with
      | none => exact Or.inl (List.forall_mem_cons.2 ⟨hdata, hnone⟩)
      | some data => exact Or.inr ⟨[], e, data, path, rfl, hdata, hnone⟩
    · exact Or.inr ⟨e :: pre, entry, data, post, by rw [hsplit.eq]; rfl, hsplit.data, hsplit.last⟩

theorem lastCompaction?_eq_none (h : ∀ e ∈ path, e.compaction? = none) :
    lastCompaction? path = none := by
  rw [lastCompaction?, findSome?_eq_none_iff]
  intro e he
  rw [h e (List.mem_reverse.1 he)]
  rfl

theorem Split.lastCompaction? (h : Split path pre entry data post) :
    lastCompaction? path = some (entry, data) := by
  have hpost : post.reverse.findSome? (fun e => e.compaction?.map fun d => (e, d)) = none := by
    rw [findSome?_eq_none_iff]
    intro e he
    rw [h.last e (List.mem_reverse.1 he)]
    rfl
  rw [Harness.lastCompaction?, h.eq, reverse_append, reverse_cons, append_assoc,
    findSome?_append, hpost]
  simp [h.data]

theorem prevCompaction?_eq_none (h : ∀ e ∈ path, e.compaction? = none) :
    prevCompaction? path = none := by
  rw [prevCompaction?, findSome?_eq_none_iff]
  rintro ⟨e, i⟩ he
  rw [h e (fst_mem_of_mem_zipIdx (List.mem_reverse.1 he))]
  rfl

theorem Split.prevCompaction? (h : Split path pre entry data post) :
    prevCompaction? path = some (pre.length, data) := by
  have hpost : ((post.zipIdx (pre.length + 1)).reverse.findSome? fun pair =>
      pair.1.compaction?.map fun d => (pair.2, d)) = none := by
    rw [findSome?_eq_none_iff]
    rintro ⟨e, i⟩ he
    rw [h.last e (fst_mem_of_mem_zipIdx (List.mem_reverse.1 he))]
    rfl
  rw [Harness.prevCompaction?, h.eq, zipIdx_append, zipIdx_cons, reverse_append,
    reverse_cons, append_assoc, findSome?_append]
  simp only [Nat.zero_add, hpost]
  simp [h.data]

theorem Split.any (h : Split path pre entry data post) : path.any (·.isCompaction) = true := by
  rw [h.eq]
  simp [TreeEntry.isCompaction, h.data]

theorem any_eq_false (h : ∀ e ∈ path, e.compaction? = none) :
    path.any (·.isCompaction) = false := by
  rw [List.any_eq_false]
  intro e he
  simp [TreeEntry.isCompaction, h e he]

/-! ## What is read and what is shown -/

/-- The entries that the context keeps from before its latest compaction. -/
def keptBefore (pre : List TreeEntry) (data : CompactionData) : List TreeEntry :=
  if data.retainedTail.isSome then [] else keptFrom data.firstKeptEntryId pre

/-- The context of a branch: the compaction, what it keeps and what comes after it. -/
theorem Split.contextEntries (h : Split path pre entry data post) (hpath : IsBranch path) :
    defaultContextEntryTransform path = entry :: (keptBefore pre data ++ post) := by
  have hidx : path.findIdx (fun e => e.isCompaction && e.id = entry.id) = pre.length := by
    have hpre : ∀ e ∈ pre, (e.isCompaction && decide (e.id = entry.id)) = false := by
      intro e he
      have hpair := (List.pairwise_append.1 (h.eq ▸ hpath.pairwise)).2.2 e he entry
        mem_cons_self
      simp [hpair.1.symm]
    rw [h.eq, findIdx_append, List.findIdx_eq_length.2 hpre]
    simp [findIdx_cons, TreeEntry.isCompaction, h.data]
  unfold defaultContextEntryTransform
  rw [h.lastCompaction?]
  simp only [hidx]
  rw [h.eq]
  simp [keptBefore]

/-- The first kept entry of a compaction comes before it. -/
theorem Split.firstKept (h : Split path pre entry data post) (hpath : IsBranch path) :
    firstKeptEntryIndex? path data.firstKeptEntryId =
      firstKeptEntryIndex? pre data.firstKeptEntryId := by
  unfold firstKeptEntryIndex?
  dsimp only
  split_ifs with hempty
  · rfl
  · have href : data.firstKeptEntryId.getD "" ∈ entry.refs := by
      have hdata := h.data
      unfold TreeEntry.compaction? at hdata
      rw [TreeEntry.refs, mem_append]
      right
      split at hdata
      · next d hbody =>
        obtain rfl := Option.some.inj hdata
        cases hk : d.firstKeptEntryId with
        | none => simp [hk] at hempty
        | some k => simpa [hbody, hk] using hempty
      · cases hdata
    have hnone : (entry :: post).findIdx?
        (fun e => decide (e.id = data.firstKeptEntryId.getD "")) = none := by
      rw [findIdx?_eq_none_iff]
      intro e he
      rw [decide_eq_false_iff_not]
      intro hid
      rcases List.mem_cons.1 he with rfl | he
      · exact (hpath.sound e (by rw [h.eq]; simp)).2.2 (hid ▸ href)
      · have hpost := (List.pairwise_append.1 (h.eq ▸ hpath.pairwise)).2.1
        exact ((List.pairwise_cons.1 hpost).1 e he).2 (hid ▸ href)
    rw [h.eq, findIdx?_append, hnone]
    simp

/-- What a compaction with a retained tail keeps starts at its own entry. -/
theorem Split.nil_of_retained (h : Split path pre entry data post) (hpath : IsBranch path)
    (hretained : data.retainedTail.isSome = true) : pre = [] :=
  hpath.checkpoint pre entry post h.eq (by simpa [h.data] using hretained)

theorem keptFrom_eq_drop (id : Option String) (entries : List TreeEntry) :
    keptFrom id entries = match firstKeptEntryIndex? entries id with
      | some i => entries.drop i
      | none => [] := by
  unfold keptFrom firstKeptEntryIndex?
  dsimp only
  split_ifs
  · rfl
  · induction entries with
    | nil => rfl
    | cons e entries ih =>
      by_cases he : e.id = id.getD ""
      · simp [findIdx?_cons, he]
      · simp only [findIdx?_cons, he, decide_false, dropWhile_cons, ne_eq,
          not_false_eq_true, decide_true, if_true] at ih ⊢
        rw [ih]
        cases entries.findIdx? (fun e => decide (e.id = id.getD "")) <;> simp

/-- What the context shows are entries of the branch. -/
theorem mem_of_shown (hpath : IsBranch path) {pair : TreeEntry × Nat} (hpair : pair ∈ shown path) :
    pair.1 ∈ path := by
  have hcontext : pair.1 ∈ defaultContextEntryTransform path :=
    fst_mem_of_mem_zipIdx (mem_of_mem_drop hpair)
  rcases exists_split path with hnone | ⟨pre, entry, data, post, hsplit⟩
  · rwa [defaultContextEntryTransform, lastCompaction?_eq_none hnone] at hcontext
  · rw [hsplit.contextEntries hpath, mem_cons, mem_append] at hcontext
    rw [hsplit.eq, mem_append, mem_cons]
    rcases hcontext with hentry | hkept | hpost
    · exact Or.inr (Or.inl hentry)
    · refine Or.inl ?_
      unfold keptBefore keptFrom at hkept
      dsimp only at hkept
      split_ifs at hkept
      · cases hkept
      · cases hkept
      · exact (dropWhile_sublist _).subset hkept
    · exact Or.inr (Or.inr hpost)

/-- **A compaction reads the entries that the context shows**, the compactions apart. -/
theorem shown_read (hpath : IsBranch path) :
    ((shown path).map Prod.fst).filterMap getMessageFromEntryForCompaction =
      (path.drop (boundaryStart path)).filterMap getMessageFromEntryForCompaction := by
  rcases exists_split path with hnone | ⟨pre, entry, data, post, hsplit⟩
  · have hcontext : defaultContextEntryTransform path = path := by
      simp [defaultContextEntryTransform, lastCompaction?_eq_none hnone]
    have hstart : boundaryStart path = 0 := by
      simp [boundaryStart, prevCompaction?_eq_none hnone]
    rw [shown, any_eq_false hnone, hcontext, hstart]
    simp
  · have hentry : getMessageFromEntryForCompaction entry = none := by
      have hdata := hsplit.data
      unfold TreeEntry.compaction? at hdata
      split at hdata
      · next hbody => simp [getMessageFromEntryForCompaction, hbody]
      · cases hdata
    have hstart : boundaryStart path =
        (firstKeptEntryIndex? pre data.firstKeptEntryId).getD (pre.length + 1) := by
      rw [boundaryStart, hsplit.prevCompaction?]
      simp only
      rw [hsplit.firstKept hpath]
    have hshown : (shown path).map Prod.fst = keptBefore pre data ++ post := by
      rw [shown, hsplit.any, hsplit.contextEntries hpath]
      simp
    rw [hshown, hstart]
    have hkept : keptBefore pre data = keptFrom data.firstKeptEntryId pre := by
      unfold keptBefore
      split_ifs with hretained
      · rw [hsplit.nil_of_retained hpath hretained]
        simp [keptFrom]
      · rfl
    rw [hkept, keptFrom_eq_drop, hsplit.eq]
    cases hfirst : firstKeptEntryIndex? pre data.firstKeptEntryId with
    | none =>
      have hdrop : (pre ++ entry :: post).drop (pre.length + 1) = post := by
        rw [drop_append]
        simp
      simp [hdrop]
    | some i =>
      have hi : i ≤ pre.length := by
        unfold firstKeptEntryIndex? at hfirst
        dsimp only at hfirst
        split_ifs at hfirst
        exact (List.findIdx?_eq_some_iff_getElem.1 hfirst).1.le
      simp only [Option.getD_some]
      rw [drop_append_of_le_length hi, filterMap_append, filterMap_append,
        filterMap_cons, hentry]

/-! ## Where the cut lies -/

theorem moveBack_bounds (entries : List TreeEntry) {startIndex c : Nat} (h : startIndex ≤ c) :
    startIndex ≤ moveBack entries startIndex c ∧ moveBack entries startIndex c ≤ c := by
  induction c with
  | zero => exact ⟨by simpa [moveBack] using h, by simp [moveBack]⟩
  | succ c ih =>
    unfold moveBack
    split_ifs with hback
    · have := ih (by omega)
      omega
    · exact ⟨h, le_rfl⟩

theorem findTurnStartIndex_bounds {entries : List TreeEntry} {startIndex i t : Nat}
    (h : findTurnStartIndex entries startIndex i = some t) : startIndex ≤ t ∧ t ≤ i := by
  induction i with
  | zero =>
    unfold findTurnStartIndex at h
    split_ifs at h with hzero
    obtain rfl : 0 = t := Option.some.inj h
    omega
  | succ i ih =>
    unfold findTurnStartIndex at h
    split_ifs at h with hstart hturn
    · obtain rfl : i + 1 = t := Option.some.inj h
      omega
    · have := ih h
      omega

theorem chosenCut_mem (entries : List TreeEntry) (startIndex endIndex : Nat)
    (keepRecentTokens : ℚ) (first : Nat) (rest : List Nat) :
    chosenCut entries startIndex endIndex keepRecentTokens (first :: rest) first ∈
      first :: rest := by
  unfold chosenCut
  split
  · exact mem_cons_self
  · next i _ =>
    cases hfind : (first :: rest).find? (i ≤ ·) with
    | none => exact mem_cons_self
    | some c => exact mem_of_find?_eq_some hfind

/-- The history ends and the retained entries start within the range that is looked at. -/
theorem findCutPoint_bounds (entries : List TreeEntry) {startIndex endIndex : Nat}
    (h : startIndex ≤ endIndex) (keepRecentTokens : ℚ) :
    let cutPoint := findCutPoint entries startIndex endIndex keepRecentTokens
    startIndex ≤ cutPoint.historyEnd ∧
      cutPoint.historyEnd ≤ cutPoint.firstKeptEntryIndex ∧
      cutPoint.firstKeptEntryIndex ≤ endIndex ∧
      (cutPoint.isSplitTurn = false → cutPoint.historyEnd = cutPoint.firstKeptEntryIndex) := by
  unfold findCutPoint CutPointResult.historyEnd
  cases hpoints : findValidCutPoints entries startIndex endIndex with
  | nil => simp [h]
  | cons first rest =>
    have hmem : ∀ c ∈ first :: rest, startIndex ≤ c ∧ c ≤ endIndex := by
      intro c hc
      rw [← hpoints, findValidCutPoints, mem_filter, mem_range'_1] at hc
      omega
    have hchosen := chosenCut_mem entries startIndex endIndex keepRecentTokens first rest
    dsimp only
    generalize chosenCut entries startIndex endIndex keepRecentTokens (first :: rest) first =
      chosen at *
    have hback := moveBack_bounds entries (hmem chosen hchosen).1
    have hend := (hmem chosen hchosen).2
    cases huser : (entries[moveBack entries startIndex chosen]?).any isUserMessage with
    | true =>
      simp
      omega
    | false =>
      cases hturn : findTurnStartIndex entries startIndex (moveBack entries startIndex chosen) with
      | none =>
        simp
        omega
      | some t =>
        have := findTurnStartIndex_bounds hturn
        simp
        omega

theorem messagesBetween_append {entries : List TreeEntry} {a b c : Nat} (hab : a ≤ b)
    (hbc : b ≤ c) : messagesBetween entries a b ++ messagesBetween entries b c =
      messagesBetween entries a c := by
  unfold messagesBetween
  rw [← filterMap_append]
  have hdrop : entries.drop b = (entries.drop a).drop (b - a) := by
    rw [drop_drop]
    congr 1
    omega
  have hlength : c - a = (b - a) + (c - b) := by omega
  rw [hdrop, hlength, take_add]

/-- **A preparation divides what it reads.** -/
theorem Prepared.messages (h : Prepared path settings preparation) :
    preparation.messagesToSummarize ++ preparation.turnPrefixMessages ++
        preparation.retainedTail =
      (path.drop (boundaryStart path)).filterMap getMessageFromEntryForCompaction := by
  have hstart : boundaryStart path ≤ path.length := by
    rcases exists_split path with hnone | ⟨pre, entry, data, post, hsplit⟩
    · simp [boundaryStart, prevCompaction?_eq_none hnone]
    · rw [boundaryStart, hsplit.prevCompaction?]
      have hlength : path.length = pre.length + (post.length + 1) := by rw [hsplit.eq]; simp
      cases hfirst : firstKeptEntryIndex? path data.firstKeptEntryId with
      | none => simp [hfirst]; omega
      | some i =>
        unfold firstKeptEntryIndex? at hfirst
        dsimp only at hfirst
        split_ifs at hfirst with hempty
        have := (List.findIdx?_eq_some_iff_getElem.1 hfirst).1
        simp [firstKeptEntryIndex?, hempty, hfirst]
        omega
  obtain ⟨cutPoint, rfl, -, hsummarize, hpre, hretained⟩ := h.cut
  obtain ⟨hlow, hmid, hhigh, hsame⟩ :=
    findCutPoint_bounds path hstart settings.keepRecentTokens
  have hall : messagesBetween path (boundaryStart path) path.length =
      (path.drop (boundaryStart path)).filterMap getMessageFromEntryForCompaction := by
    rw [messagesBetween, take_of_length_le (by simp)]
  rw [hsummarize, hpre, hretained, ← hall]
  split_ifs with hturn
  · rw [messagesBetween_append hlow hmid, messagesBetween_append (hlow.trans hmid) hhigh]
  · rw [Bool.not_eq_true] at hturn
    rw [hsame hturn, append_nil,
      messagesBetween_append (hsame hturn ▸ hlow) hhigh]

/-! ## The messages of the context -/

/-- The messages of an entry of the context and of its index. -/
def messagesShown (projectors : Projectors) (path : List TreeEntry) (pair : TreeEntry × Nat) :
    List AgentMessage :=
  sessionEntryToContextMessages projectors (defaultContextEntryTransform path) pair.1 pair.2

/-- The messages that the latest compaction of a path retained. -/
def retainedOf (path : List TreeEntry) : List AgentMessage :=
  ((lastCompaction? path).bind fun latest => latest.2.retainedTail).getD []

/-- The context without its summary: what the latest compaction retained and what the entries
show. -/
theorem contextBody_eq (hpath : IsBranch path) (hbranch : s.getBranch = .ok path) :
    s.contextBody projectors =
      .ok (retainedOf path ++ (shown path).flatMap (messagesShown projectors path)) := by
  unfold Storage.contextBody
  rw [hbranch]
  have hbody : (if path.any (·.isCompaction) then
        (buildSessionContext projectors path).messages.tail
      else (buildSessionContext projectors path).messages) =
      retainedOf path ++ (shown path).flatMap (messagesShown projectors path) := by
    unfold buildSessionContext contextMessages shown retainedOf
    rcases exists_split path with hnone | ⟨pre, entry, data, post, hsplit⟩
    · rw [any_eq_false hnone, lastCompaction?_eq_none hnone]
      rfl
    · have hentry : ∀ i, messagesShown projectors path (entry, i) =
          createCompactionSummaryMessage data.summary data.tokensBefore entry.timestamp ::
            data.retainedTail.getD [] := by
        intro i
        have hdata := hsplit.data
        unfold TreeEntry.compaction? at hdata
        split at hdata
        · next hbody =>
          obtain rfl := Option.some.inj hdata
          simp [messagesShown, sessionEntryToContextMessages, hbody]
        · cases hdata
      have hcontext := hsplit.contextEntries hpath
      rw [hsplit.any, hsplit.lastCompaction?]
      simp only [if_true]
      have hzip : (defaultContextEntryTransform path).zipIdx =
          (entry, 0) :: (keptBefore pre data ++ post).zipIdx 1 := by
        rw [hcontext, zipIdx_cons]
      change ((defaultContextEntryTransform path).zipIdx.flatMap
        (messagesShown projectors path)).tail = _
      rw [hzip, flatMap_cons, hentry]
      rfl
  exact congrArg Except.ok hbody

/-- Among entries with a summary, what is shown is no less than what is read, and the same exactly
when it is the message alone. -/
theorem messagesShown_cases (projectors : Projectors) (path : List TreeEntry)
    {pair : TreeEntry × Nat} (hsummary : pair.1.hasSummary = true) :
    (getMessageFromEntryForCompaction pair.1).toList.length ≤
        (messagesShown projectors path pair).length ∧
      ((messagesShown projectors path pair).length =
          (getMessageFromEntryForCompaction pair.1).toList.length →
        messagesShown projectors path pair =
          (getMessageFromEntryForCompaction pair.1).toList) ∧
      (messagesShown projectors path pair =
          (getMessageFromEntryForCompaction pair.1).toList ↔
        ShowsOnlyMessage projectors path pair) := by
  obtain ⟨entry, i⟩ := pair
  unfold messagesShown ShowsOnlyMessage TreeEntry.isCompaction TreeEntry.compaction?
    getMessageFromEntryForCompaction
  unfold TreeEntry.hasSummary at hsummary
  cases hbody : entry.body with
  | branchSummary data =>
    have hne : data.summary ≠ "" := by simpa [hbody] using hsummary
    simp [sessionEntryToContextMessages, hbody, hne]
  | _ => simp [sessionEntryToContextMessages, hbody]

theorem append_flatMap_eq_iff {α β : Type} {f g : α → List β} (tail : List β) {l : List α}
    (hle : ∀ x ∈ l, (g x).length ≤ (f x).length)
    (heq : ∀ x ∈ l, (f x).length = (g x).length → f x = g x) :
    tail ++ l.flatMap f = l.flatMap g ↔ tail = [] ∧ ∀ x ∈ l, f x = g x := by
  have hlengths : ∀ l : List α, (∀ x ∈ l, (g x).length ≤ (f x).length) →
      (l.flatMap g).length ≤ (l.flatMap f).length ∧
      ((l.flatMap f).length ≤ (l.flatMap g).length → ∀ x ∈ l, (f x).length = (g x).length) := by
    intro l hl
    induction l with
    | nil => simp
    | cons x l ih =>
      obtain ⟨hx, hl⟩ := List.forall_mem_cons.1 hl
      obtain ⟨hrest, hsame⟩ := ih hl
      simp only [flatMap_cons, length_append]
      refine ⟨by omega, fun h => List.forall_mem_cons.2 ⟨by omega, hsame (by omega)⟩⟩
  obtain ⟨hshort, hsame⟩ := hlengths l hle
  constructor
  · intro h
    have hlength := congrArg List.length h
    rw [length_append] at hlength
    refine ⟨List.length_eq_zero_iff.1 (by omega), fun x hx => heq x hx ?_⟩
    exact hsame (by omega) x hx
  · rintro ⟨rfl, hall⟩
    exact flatMap_congr hall

/-! ## The compaction of a run -/

/-- The branch after a compaction that retains messages is its entry. -/
theorem getBranch_compaction (s : Storage) (hdata : entry.compaction? = some data)
    (hretained : data.retainedTail.isSome = true) :
    (s.appendEntry entry).getBranch = .ok [entry] := by
  have hleaf : (s.appendEntry entry).leafId = some entry.id := by
    unfold TreeEntry.compaction? at hdata
    split at hdata
    · next hbody => simp [Storage.appendEntry, leafIdAfterEntry, hbody]
    · cases hdata
  have hget : (s.appendEntry entry).byId.get? entry.id = some entry :=
    OrderedMap.get?_set_self _ _ _
  have hwalk : ∀ fuel, walkBack (s.appendEntry entry).byId (fuel + 1) none entry = .ok [entry] := by
    intro fuel
    simp [walkBack, hdata, hretained]
  unfold Storage.getBranch Storage.getLeafId
  simp only [hleaf, OrderedMap.has, hget, Option.isSome_some, if_true, bind, Except.bind,
    Storage.getPathToRootOrCompaction, hwalk]
  rfl

/-- A user message of a text. -/
def said (text : String) : TreeBody := .message (.user ⟨some (.str text), 0⟩)

/-- A summarizer that always answers. -/
def answering : Summarizer := ⟨fun _ _ => .ok ("", .zero), fun _ => .ok ("", .zero)⟩

/-- The session after one user message. -/
def askedOnce : Storage := (Storage.ofEntries []).appendEntry ⟨"a", none, "", said "one"⟩

theorem reachable_askedOnce : Reachable askedOnce :=
  @Reachable.step _ _ (.append "a" "" (said "one")) (.start .nil)
    ⟨⟨by decide, by decide⟩, rfl⟩ rfl

/-- A message, a compaction that retained nothing, and two messages. -/
def summarizedOnce : List TreeEntry :=
  [⟨"a", none, "", said "one"⟩,
    ⟨"b", some "a", "", .compaction ⟨"s", none, 0, some [], none, none, none⟩⟩,
    ⟨"c", some "b", "", said "two"⟩, ⟨"d", some "c", "", said "three"⟩]

theorem summarizedOnce_wellFormed : WellFormed summarizedOnce := by
  have ha : WellFormed (summarizedOnce.take 1) :=
    .snoc .nil ⟨by decide, by decide, by decide, rfl⟩
  have hb : WellFormed (summarizedOnce.take 2) :=
    .snoc ha ⟨by decide, by decide, by decide, rfl⟩
  have hc : WellFormed (summarizedOnce.take 3) :=
    .snoc hb ⟨by decide, by decide, by decide, rfl⟩
  exact .snoc hc ⟨by decide, by decide, by decide, rfl⟩

/-- A compaction, another user message and a second compaction: the session before it, its
preparation and the session after it. -/
def compactedAgain : Except HarnessError (Storage × CompactionPreparation × Storage) := do
  let compacted := (← askedOnce.compact "b" "" answering none).2
  let askedTwice ← compacted.step (.append "c" "" (said "two"))
  let result ← askedTwice.compact "d" "" answering none
  return (askedTwice, result)

end BeauPi.Harness
