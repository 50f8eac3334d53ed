import BeauPi.Compaction.Prepare
import BeauPi.Sessions.Paths

/-!
# What a compaction keeps of the context

A compaction should replace the messages it summarizes and nothing else.  It does so exactly when
its cut falls after the previous compaction entry: the boundary of `prepareCompaction` lies before
that entry, while `buildContextEntries` shows every compaction entry it keeps as a summary.

* `LosesNothing` — the old context is what is summarized, followed by what the new context keeps.
* `CutFits` — the budget puts the cut after the previous compaction entry.
* `losesNothing_iff` — the two are the same for every path.
-/

namespace BeauPi.Compaction

open Llm Sessions Machine List
open Option (any_some map_eq_some_iff some.inj)

/-! ## Vocabulary -/

/-- The messages that a list of entries contributes to the context. -/
def messagesOf (entries : List SessionEntry) : List AgentMessage :=
  entries.flatMap sessionEntryToContextMessages

/-- The messages of a context without its leading compaction summary. -/
def withoutSummary : List AgentMessage → List AgentMessage
  | [] => []
  | m :: rest => if m.isCompactionSummary then rest else m :: rest

/-- There is one compaction summary, and it comes first. -/
def SummaryAtHead : List AgentMessage → Prop
  | [] => False
  | m :: rest => m.isCompactionSummary = true ∧ ∀ x ∈ rest, x.isCompactionSummary = false

instance : (messages : List AgentMessage) → Decidable (SummaryAtHead messages)
  | [] => inferInstanceAs (Decidable False)
  | m :: rest => inferInstanceAs (Decidable
      (m.isCompactionSummary = true ∧ ∀ x ∈ rest, x.isCompactionSummary = false))

/-- Every compaction entry of a path was made from the path before it. -/
def EachCompaction (made : List SessionEntry → CompactionData → Prop)
    (path : List SessionEntry) : Prop :=
  ∀ pre entry data post, path = pre ++ entry :: post → entry.compaction? = some data →
    made pre data

/-- The compaction was produced by `prepareCompaction`. -/
def ProducedFrom (pre : List SessionEntry) (data : CompactionData) : Prop :=
  ∃ settings prep, prepareCompaction pre settings = some prep ∧
    data.firstKeptEntryId = prep.firstKeptEntryId

/-- Every compaction entry was produced by `prepareCompaction` on the path before it. -/
def Produced (path : List SessionEntry) : Prop := EachCompaction ProducedFrom path

/-- The context before the compaction is what is summarized and what the context after it keeps,
and the context after it holds one summary, at its head. -/
def LosesNothing (path : List SessionEntry) (prep : CompactionPreparation)
    (entry : SessionEntry) : Prop :=
  withoutSummary (buildSessionContext path none none).messages =
      prep.messagesToSummarize ++ prep.turnPrefixMessages ++
        withoutSummary (buildSessionContext (path ++ [entry]) none none).messages ∧
    SummaryAtHead (buildSessionContext (path ++ [entry]) none none).messages

instance (path : List SessionEntry) (prep : CompactionPreparation) (entry : SessionEntry) :
    Decidable (LosesNothing path prep entry) :=
  inferInstanceAs (Decidable (_ ∧ _))

/-- The budget puts the cut after the previous compaction, if there is one: what that compaction
kept holds no older compaction, each of its entries at which a cut is allowed is followed by enough
to spend the budget, and some entry after the compaction at which a cut is allowed is not. -/
def CutFits (path : List SessionEntry) (keepRecentTokens : ℚ) : Prop :=
  ∀ skipped kept entry data post, Split path (skipped ++ kept) entry data post →
    kept.head?.map (·.id) = some data.firstKeptEntryId →
    (∀ e ∈ kept, e.isCompaction = false) ∧
    (∀ before e after, kept = before ++ e :: after → isCutPointEntry e = true →
      spendsBudget keepRecentTokens (after ++ entry :: post) = true) ∧
    ∃ before e after, post = before ++ e :: after ∧ isCutPointEntry e = true ∧
      spendsBudget keepRecentTokens after = false

variable {path pre post : List SessionEntry} {entry e : SessionEntry} {data : CompactionData}
  {settings : CompactionSettings} {prep : CompactionPreparation} {b c : Nat}

/-! ## Messages and entries -/

@[simp] theorem messagesOf_nil : messagesOf [] = [] := rfl

@[simp] theorem messagesOf_cons (e : SessionEntry) (entries : List SessionEntry) :
    messagesOf (e :: entries) = sessionEntryToContextMessages e ++ messagesOf entries := rfl

@[simp] theorem messagesOf_append (first second : List SessionEntry) :
    messagesOf (first ++ second) = messagesOf first ++ messagesOf second := by
  simp [messagesOf]

/-- A compaction entry contributes its summary. -/
theorem messages_of_compaction (h : e.isCompaction = true) :
    ∃ m, sessionEntryToContextMessages e = [m] ∧ m.isCompactionSummary = true := by
  unfold SessionEntry.isCompaction SessionEntry.compaction? at h
  cases hbody : e.body with
  | compaction data =>
    refine ⟨createCompactionSummaryMessage data.summary data.tokensBefore e.timestamp, ?_, rfl⟩
    simp only [sessionEntryToContextMessages, hbody]
  | _ => simp [hbody] at h

/-- No other entry contributes a summary of a compaction. -/
theorem not_summary_of_entry (h : e.isCompaction = false) :
    ∀ m ∈ sessionEntryToContextMessages e, m.isCompactionSummary = false := by
  unfold SessionEntry.isCompaction SessionEntry.compaction? at h
  intro m hm
  unfold sessionEntryToContextMessages at hm
  cases hbody : e.body with
  | message message =>
    simp only [hbody, mem_singleton] at hm
    subst hm
    cases message <;> rfl
  | customMessage => simp only [hbody, mem_singleton] at hm; subst hm; rfl
  | branchSummary branch =>
    simp only [hbody] at hm
    split_ifs at hm
    · cases hm
    · rw [List.mem_singleton.1 hm]; rfl
  | compaction data => simp [hbody] at h
  | _ => simp [hbody] at hm

/-- The messages hold no summary of a compaction exactly when the entries hold no compaction. -/
theorem no_summary_iff {entries : List SessionEntry} :
    (∀ m ∈ messagesOf entries, m.isCompactionSummary = false) ↔
      ∀ e ∈ entries, e.isCompaction = false := by
  simp only [messagesOf, mem_flatMap, forall_exists_index, and_imp]
  constructor
  · intro h e he
    cases hc : e.isCompaction with
    | false => rfl
    | true =>
      obtain ⟨m, hm, hsummary⟩ := messages_of_compaction hc
      rw [h m e he (by simp [hm])] at hsummary
      cases hsummary
  · exact fun h m e he hm => not_summary_of_entry (h e he) m hm

theorem withoutSummary_of_none {messages : List AgentMessage}
    (h : ∀ m ∈ messages, m.isCompactionSummary = false) : withoutSummary messages = messages := by
  cases messages with
  | nil => rfl
  | cons m rest => simp [withoutSummary, h m mem_cons_self]

/-- What `getMessageFromEntryForCompaction` collects are the messages of the entries that are not
compactions. -/
theorem filterMap_getMessage (entries : List SessionEntry) :
    entries.filterMap getMessageFromEntryForCompaction =
      messagesOf (entries.filter fun e => !e.isCompaction) := by
  induction entries with
  | nil => rfl
  | cons e rest ih =>
    cases hc : e.isCompaction with
    | true => simp [getMessageFromEntryForCompaction, hc, ih]
    | false =>
      have hone : (sessionEntryToContextMessages e).head?.toList =
          sessionEntryToContextMessages e := by
        unfold sessionEntryToContextMessages
        split
        · rfl
        · rfl
        · split_ifs <;> rfl
        · rfl
        · rfl
      rw [filter_cons_of_pos (by simp [hc]), messagesOf_cons, ← ih, filterMap_cons,
        getMessageFromEntryForCompaction, hc]
      cases hhead : (sessionEntryToContextMessages e).head? with
      | none | some => rw [hhead] at hone; simp [← hone]

/-! ## Places on a path -/

/-- An entry of a path with unique ids is found at its index. -/
theorem findIdx?_of_getElem? (hnodup : (path.map (·.id)).Nodup) (h : path[c]? = some e) :
    path.findIdx? (fun x => decide (x.id = e.id)) = some c := by
  obtain ⟨hlt, rfl⟩ := List.getElem?_eq_some_iff.1 h
  have hsplit : path = path.take c ++ path[c] :: path.drop (c + 1) := by
    rw [← drop_eq_getElem_cons hlt, take_append_drop]
  rw [hsplit] at hnodup
  have hfind := findIdx?_id hnodup
  rw [← hsplit, length_take, Nat.min_eq_left hlt.le] at hfind
  exact hfind

/-- The entries kept from one on are those from its index on. -/
theorem keptFrom_eq (hnodup : (path.map (·.id)).Nodup) (h : path[c]? = some e) :
    keptFrom e.id path = path.drop c := by
  induction path generalizing c with
  | nil => simp at h
  | cons x rest ih =>
    rw [map_cons, nodup_cons] at hnodup
    cases c with
    | zero =>
      obtain rfl : x = e := by simpa using h
      simp [keptFrom]
    | succ c =>
      have hmem : e ∈ rest := mem_of_getElem? (by simpa using h)
      have hne : x.id ≠ e.id := fun heq => hnodup.1 (heq ▸ mem_map_of_mem hmem)
      have hrest := ih hnodup.2 (by simpa using h)
      rw [keptFrom] at hrest ⊢
      rw [dropWhile_cons_of_pos (by simpa using hne), hrest, drop_succ_cons]

theorem prevCompaction?_none (h : ∀ e ∈ path, e.isCompaction = false) :
    prevCompaction? path = none := by
  have hfind : prevCompactionIndex? path = none := by
    rw [prevCompactionIndex?, find?_eq_none]
    intro i _
    cases hget : path[i]? with
    | none => simp
    | some x => simpa using h x (mem_of_getElem? hget)
  simp [prevCompaction?, hfind]

theorem prevCompaction?_split (h : Split path pre entry data post) :
    prevCompaction? path = some (pre.length, data) := by
  have hget : path[pre.length]? = some entry := by simp [h.eq]
  have hlater : ∀ i, pre.length < i → (path[i]?).any (·.isCompaction) = false := by
    intro i hi
    cases hx : path[i]? with
    | none => rfl
    | some x =>
      rw [h.eq, getElem?_append_right (by omega),
        show i - pre.length = (i - pre.length - 1) + 1 by omega, getElem?_cons_succ] at hx
      simpa using h.last x (mem_of_getElem? hx)
  have hfind : prevCompactionIndex? path = some pre.length := by
    rw [prevCompactionIndex?, h.eq, length_append, length_cons,
      show pre.length + (post.length + 1) = (pre.length + 1) + post.length by omega,
      range_add, reverse_append, find?_append, List.find?_eq_none.2, Option.none_or,
      range_succ, reverse_concat, find?_cons_of_pos]
    · rw [← h.eq, hget]
      simpa using isCompaction_of_data h.data
    · intro i hi
      simp only [mem_reverse, mem_map, mem_range] at hi
      obtain ⟨k, -, rfl⟩ := hi
      rw [← h.eq, hlater _ (by omega)]
      simp
  simp [prevCompaction?, hfind, hget, h.data]

/-! ## The kept entries of a produced compaction -/

/-- A produced compaction keeps the path before it from some index on, and a cut is allowed at one
of the entries it keeps. -/
theorem Produced.kept (hproduced : Produced path) (h : Split path pre entry data post) :
    ∃ b chosen, b ≤ chosen ∧ chosen < pre.length ∧
      (pre[b]?).map (·.id) = some data.firstKeptEntryId ∧
      (pre[chosen]?).any isCutPointEntry = true := by
  obtain ⟨settings, prep, hprep, hfirst⟩ := hproduced pre entry data post h.eq h.data
  obtain ⟨chosen, cut, historyEnd, hspec⟩ := prepareCompaction_spec hprep
  exact ⟨cut, chosen, hspec.cut_le, hspec.chosen_lt, hfirst ▸ hspec.kept, hspec.allowed⟩

/-- The boundary is the index of the first entry that the previous compaction kept. -/
theorem boundaryStart_eq (hnodup : (path.map (·.id)).Nodup) (h : Split path pre entry data post)
    (hb : (pre[b]?).map (·.id) = some data.firstKeptEntryId) : boundaryStart path = b := by
  obtain ⟨first, hget, hid⟩ := map_eq_some_iff.1 hb
  have hlt : b < pre.length := (List.getElem?_eq_some_iff.1 hget).1
  have hpath : path[b]? = some first := by
    rw [h.eq, getElem?_append_left hlt, hget]
  rw [boundaryStart, prevCompaction?_split h]
  simp only [← hid, findIdx?_of_getElem? hnodup hpath, Option.getD_some]

/-- The context of a path that ends with a compaction entry. -/
theorem messages_after (hpath : IsSessionPath (path ++ [entry]))
    (hdata : entry.compaction? = some data)
    (hget : (path[c]?).map (·.id) = some data.firstKeptEntryId) :
    ∃ m, m.isCompactionSummary = true ∧
      (buildSessionContext (path ++ [entry]) none none).messages =
        m :: messagesOf (path.drop c) := by
  obtain ⟨first, hfirst, hid⟩ := map_eq_some_iff.1 hget
  obtain ⟨m, hm, hsummary⟩ := messages_of_compaction (isCompaction_of_data hdata)
  have hsplit : Split (path ++ [entry]) path entry data [] := ⟨rfl, hdata, by simp⟩
  refine ⟨m, hsummary, ?_⟩
  simp only [buildSessionContext, buildContextEntries, buildSessionPath_eq hpath,
    contextEntries_eq hsplit hpath.nodup, ← hid, keptFrom_eq hpath.of_concat.nodup hfirst,
    append_nil, flatMap_cons, hm, messagesOf, singleton_append]

/-- The context of a path before a compaction, without its leading summary. -/
theorem messages_before (hpath : IsSessionPath path) (h : Split path pre entry data post)
    (hget : (pre[b]?).map (·.id) = some data.firstKeptEntryId) :
    withoutSummary (buildSessionContext path none none).messages =
      messagesOf (pre.drop b ++ post) := by
  obtain ⟨first, hfirst, hid⟩ := map_eq_some_iff.1 hget
  obtain ⟨m, hm, hsummary⟩ := messages_of_compaction (isCompaction_of_data h.data)
  have hnodup : (pre.map (·.id)).Nodup := by
    have := hpath.nodup
    rw [h.eq, map_append] at this
    exact this.of_append_left
  simp only [buildSessionContext, buildContextEntries, buildSessionPath_eq hpath,
    contextEntries_eq h hpath.nodup, ← hid, keptFrom_eq hnodup hfirst, flatMap_cons, hm,
    messagesOf, singleton_append, withoutSummary, hsummary, if_true]

theorem summaryAtHead_cons {m : AgentMessage} (h : m.isCompactionSummary = true)
    (entries : List SessionEntry) :
    SummaryAtHead (m :: messagesOf entries) ↔ ∀ e ∈ entries, e.isCompaction = false := by
  rw [← no_summary_iff]
  exact ⟨fun hhead => hhead.2, fun hrest => ⟨h, hrest⟩⟩

/-! ## Where the cut falls -/

variable {chosen cut historyEnd : Nat}

/-- Taking in metadata does not move the cut over a compaction entry. -/
theorem Prepared.cut_gt_iff {p : Nat} (h : Prepared path settings prep chosen cut historyEnd)
    (hp : (path[p]?).any (·.isCompaction) = true) : p < cut ↔ p < chosen := by
  constructor
  · exact fun hlt => hlt.trans_le h.cut_le
  · intro hlt
    by_contra hge
    have hmeta := h.metadata p (by omega) hlt
    cases hget : path[p]? with
    | none => simp [hget] at hp
    | some x =>
      simp only [hget, any_some] at hp hmeta
      simp [isMetadataEntry, hp] at hmeta

/-- A list around one of its elements. -/
theorem around {α : Type} {l before after : List α} {x : α} (h : l = before ++ x :: after) :
    l[before.length]? = some x ∧ l.drop (before.length + 1) = after := by
  subst h
  simp

variable {i : Nat}

/-- The element at an index has the list around it. -/
theorem around_index {α : Type} {l : List α} {x : α} (h : l[i]? = some x) :
    ∃ before after, l = before ++ x :: after ∧ before.length = i := by
  obtain ⟨hlt, rfl⟩ := List.getElem?_eq_some_iff.1 h
  refine ⟨l.take i, l.drop (i + 1), ?_, by simp; omega⟩
  rw [← drop_eq_getElem_cons hlt, take_append_drop]

variable {skipped kept : List SessionEntry}

variable {x : SessionEntry}

/-- An entry that the latest compaction kept, with what follows it. -/
theorem split_in_kept (h : Split path (skipped ++ kept) entry data post) (hge : skipped.length ≤ i)
    (hlt : i < (skipped ++ kept).length) (hx : path[i]? = some x) :
    ∃ before after, kept = before ++ x :: after ∧ path.drop (i + 1) = after ++ entry :: post := by
  rw [h.eq, getElem?_append_left hlt, getElem?_append_right hge] at hx
  obtain ⟨before, after, hkept, hlength⟩ := around_index hx
  have hpath : path = (skipped ++ before) ++ x :: (after ++ entry :: post) := by
    rw [h.eq, hkept]; simp
  have hi : (skipped ++ before).length = i := by rw [length_append, hlength]; omega
  exact ⟨before, after, hkept, hi ▸ (around hpath).2⟩

/-- An entry after the latest compaction, with what follows it. -/
theorem split_in_post (h : Split path pre entry data post) (hlt : pre.length < i)
    (hx : path[i]? = some x) :
    ∃ before after, post = before ++ x :: after ∧ path.drop (i + 1) = after := by
  rw [h.eq, getElem?_append_right hlt.le,
    show i - pre.length = (i - pre.length - 1) + 1 by omega, getElem?_cons_succ] at hx
  obtain ⟨before, after, hpost, hlength⟩ := around_index hx
  have hpath : path = (pre ++ entry :: before) ++ x :: after := by rw [h.eq, hpost]; simp
  have hi : (pre ++ entry :: before).length = i := by
    rw [length_append, length_cons, hlength]; omega
  exact ⟨before, after, hpost, hi ▸ (around hpath).2⟩

/-- There is one way to take a path apart at its latest compaction and at the first entry that
compaction kept. -/
theorem split_unique {skipped' kept' post' : List SessionEntry} {entry' : SessionEntry}
    {data' : CompactionData} (hnodup : (path.map (·.id)).Nodup)
    (h : Split path (skipped ++ kept) entry data post)
    (hfirst : kept.head?.map (·.id) = some data.firstKeptEntryId)
    (h' : Split path (skipped' ++ kept') entry' data' post')
    (hfirst' : kept'.head?.map (·.id) = some data'.firstKeptEntryId) :
    skipped' = skipped ∧ kept' = kept ∧ entry' = entry ∧ post' = post := by
  have hstart : ∀ {skipped kept entry data post}, Split path (skipped ++ kept) entry data post →
      kept.head?.map (·.id) = some data.firstKeptEntryId →
      boundaryStart path = skipped.length := by
    intro skipped kept entry data post h hfirst
    refine boundaryStart_eq hnodup h ?_
    rw [getElem?_append_right le_rfl, Nat.sub_self, ← head?_eq_getElem?, hfirst]
  have hlength : (skipped' ++ kept').length = (skipped ++ kept).length := by
    have := (prevCompaction?_split h').symm.trans (prevCompaction?_split h)
    simp only [Option.some.injEq, Prod.mk.injEq] at this
    exact this.1
  obtain ⟨hpre, hrest⟩ := append_inj (h'.eq.symm.trans h.eq) hlength
  obtain ⟨rfl, rfl⟩ := append_inj hpre ((hstart h' hfirst').symm.trans (hstart h hfirst))
  obtain ⟨rfl, rfl⟩ := List.cons.inj hrest
  exact ⟨rfl, rfl, rfl, rfl⟩

/-- **The cut falls after the previous compaction exactly when the budget fits**, provided what
that compaction kept holds no older one. -/
theorem cutFits_iff (hnodup : (path.map (·.id)).Nodup)
    (h : Prepared path settings prep chosen cut historyEnd)
    (hsplit : Split path (skipped ++ kept) entry data post)
    (hfirst : kept.head?.map (·.id) = some data.firstKeptEntryId)
    (hstart : boundaryStart path = skipped.length)
    (hallowed : ∃ c, skipped.length ≤ c ∧ c < (skipped ++ kept).length ∧ (path[c]?).any
      isCutPointEntry = true) :
    CutFits path settings.keepRecentTokens ↔
      (∀ e ∈ kept, e.isCompaction = false) ∧ (skipped ++ kept).length < cut := by
  have hentry := (around hsplit.eq).1
  have hcompaction : (path[(skipped ++ kept).length]?).any (·.isCompaction) = true := by
    rw [hentry, any_some, isCompaction_of_data hsplit.data]
  have hge : skipped.length ≤ chosen := by
    rw [← hstart]
    exact h.start_le.trans (h.history_le.trans h.cut_le)
  rw [h.cut_gt_iff hcompaction]
  obtain ⟨x, hx, hcutx⟩ := (Option.any_eq_true _ _).1 h.allowed
  constructor
  · intro hfits
    obtain ⟨hnone, hspends, first, e, last, hlater, hcut, hspent⟩ :=
      hfits skipped kept entry data post hsplit hfirst
    refine ⟨hnone, ?_⟩
    by_contra hle
    have hne : chosen ≠ (skipped ++ kept).length := by
      rintro rfl
      obtain rfl : entry = x := some.inj (hentry.symm.trans hx)
      simp [isCutPointEntry, isCompaction_of_data hsplit.data] at hcutx
    -- a cut among the kept entries spends the budget, and then every allowed cut does
    obtain ⟨before, after, hkept, hdrop⟩ := split_in_kept hsplit hge (by omega) hx
    have hnow := hspends before x after hkept hcutx
    rw [← hdrop] at hnow
    have hwhole : path = (skipped ++ kept ++ entry :: first) ++ e :: last := by
      rw [hsplit.eq, hlater]; simp
    obtain ⟨hget, hafter⟩ := around hwhole
    have hall := (h.spent hnow _ (by rw [hstart]; simp)
      (List.getElem?_eq_some_iff.1 hget).1 (by rw [hget, any_some, hcut])).2
    rw [hafter, hspent] at hall
    cases hall
  · rintro ⟨hnone, hlt⟩ skipped' kept' entry' data' post' hsplit' hfirst'
    obtain ⟨rfl, rfl, rfl, rfl⟩ := split_unique hnodup hsplit hfirst hsplit' hfirst'
    refine ⟨hnone, fun before e after hkept hcut => ?_, ?_⟩
    · have hwhole : path = (skipped' ++ before) ++ e :: (after ++ entry' :: post') := by
        rw [hsplit.eq, hkept]; simp
      obtain ⟨hget, hafter⟩ := around hwhole
      rw [← hafter]
      refine h.before _ (by rw [hstart]; simp) ?_ (by rw [hget, any_some, hcut])
      rw [hkept] at hlt
      simp at hlt ⊢
      omega
    · obtain ⟨before, after, hpost, hdrop⟩ := split_in_post hsplit hlt hx
      refine ⟨before, x, after, hpost, hcutx, ?_⟩
      rw [← hdrop]
      obtain ⟨c, hcge, hclt, hc⟩ := hallowed
      by_contra hspent
      have := (h.spent (by simpa using hspent) c (hstart ▸ hcge)
        (by rw [hsplit.eq, length_append]; omega) hc).1
      omega

/-! ## The result -/

theorem messagesBetween_eq (path : List SessionEntry) (b c : Nat) :
    messagesBetween path b c =
      messagesOf (((path.drop b).take (c - b)).filter fun e => !e.isCompaction) :=
  filterMap_getMessage _

/-- A path without a compaction: what is summarized and what is kept are the whole path. -/
theorem messages_of_none (hpath : IsSessionPath path) (hnone : ∀ e ∈ path, e.isCompaction = false)
    (c : Nat) : withoutSummary (buildSessionContext path none none).messages =
      messagesBetween path 0 c ++ messagesOf (path.drop c) := by
  have hctx : (buildSessionContext path none none).messages = messagesOf path := by
    simp only [buildSessionContext, buildContextEntries, buildSessionPath_eq hpath,
      contextEntries_none hnone, messagesOf]
  have htake : (path.take c).filter (fun e => !e.isCompaction) = path.take c := by
    rw [filter_eq_self]
    intro e he
    simpa using hnone e (mem_of_mem_take he)
  rw [hctx, withoutSummary_of_none (no_summary_iff.2 hnone), messagesBetween_eq, Nat.sub_zero,
    drop_zero, htake, ← messagesOf_append, take_append_drop]

/-- When the cut falls after the latest compaction, what is summarized is what that compaction kept
and what followed it up to the cut. -/
theorem messages_of_later_cut (h : Split path (skipped ++ kept) entry data post)
    (hlt : (skipped ++ kept).length < c) :
    messagesBetween path skipped.length c ++ messagesOf (path.drop c) =
      messagesOf (kept.filter fun e => !e.isCompaction) ++ messagesOf post := by
  obtain ⟨k, rfl⟩ : ∃ k, c = (skipped ++ kept).length + 1 + k := ⟨c - (skipped ++ kept).length - 1,
    by omega⟩
  have hdrop : path.drop ((skipped ++ kept).length + 1 + k) = post.drop k := by
    rw [← drop_drop, (around h.eq).2]
  have hrange : (path.drop skipped.length).take
      ((skipped ++ kept).length + 1 + k - skipped.length) = kept ++ entry :: post.take k := by
    rw [h.eq, append_assoc, drop_left, length_append,
      show skipped.length + kept.length + 1 + k - skipped.length = kept.length + (k + 1) by omega,
      take_length_add_append, take_succ_cons]
  have hpost : (post.take k).filter (fun e => !e.isCompaction) = post.take k := by
    rw [filter_eq_self]
    intro e he
    simpa using h.last e (mem_of_mem_take he)
  rw [messagesBetween_eq, hrange, filter_append, filter_cons_of_neg
    (by simp [isCompaction_of_data h.data]), hpost, messagesOf_append, append_assoc,
    ← messagesOf_append (post.take k), hdrop, take_append_drop]

/-- **A compaction loses and repeats nothing exactly when its cut falls after the previous one.** -/
theorem losesNothing_iff (hpath : IsSessionPath (path ++ [entry])) (hproduced : Produced path)
    (hprep : prepareCompaction path settings = some prep)
    (hentry : entry.compaction?.map (·.firstKeptEntryId) = some prep.firstKeptEntryId) :
    LosesNothing path prep entry ↔ CutFits path settings.keepRecentTokens := by
  obtain ⟨chosen, cut, historyEnd, hspec⟩ := prepareCompaction_spec hprep
  obtain ⟨data, hdata, hfirstKept⟩ := Option.map_eq_some_iff.1 hentry
  obtain ⟨m, hsummary, hafter⟩ := messages_after hpath hdata (hfirstKept ▸ hspec.kept)
  have hsummarized : prep.messagesToSummarize ++ prep.turnPrefixMessages =
      messagesBetween path (boundaryStart path) cut := by
    rw [hspec.summarized, hspec.turnPrefix,
      messagesBetween_append path hspec.start_le hspec.history_le]
  rw [LosesNothing, hsummarized, hafter, summaryAtHead_cons hsummary, withoutSummary,
    if_pos hsummary]
  rcases exists_split path with hnone | ⟨pre, old, oldData, post, hsplit⟩
  · -- no earlier compaction
    have hzero : boundaryStart path = 0 := by simp [boundaryStart, prevCompaction?_none hnone]
    rw [hzero]
    refine ⟨fun _ skipped kept e data post hsplit => ?_, fun _ => ?_⟩
    · have := hnone e (by rw [hsplit.eq]; simp)
      rw [isCompaction_of_data hsplit.data] at this
      cases this
    · exact ⟨messages_of_none hpath.of_concat hnone cut,
        fun e he => hnone e (mem_of_mem_drop he)⟩
  · obtain ⟨b, c, hbc, hc, hb, hcut⟩ := hproduced.kept hsplit
    have hnodup := hpath.of_concat.nodup
    have hstart := boundaryStart_eq hnodup hsplit hb
    have hbefore := messages_before hpath.of_concat hsplit hb
    -- the kept entries of the earlier compaction
    have hpre : pre = pre.take b ++ pre.drop b := (take_append_drop b pre).symm
    have hlength : (pre.take b).length = b := by simp; omega
    generalize hskipped : pre.take b = skipped at hpre hlength
    generalize hkept : pre.drop b = kept at hpre hbefore
    subst hpre
    subst hlength
    have hfirst : kept.head?.map (·.id) = some oldData.firstKeptEntryId := by
      rw [head?_eq_getElem?, ← hb, getElem?_append_right le_rfl, Nat.sub_self]
    have hallowed : ∃ c, skipped.length ≤ c ∧ c < (skipped ++ kept).length ∧
        (path[c]?).any isCutPointEntry = true := by
      refine ⟨c, hbc, hc, ?_⟩
      rw [hsplit.eq, getElem?_append_left hc, hcut]
    rw [cutFits_iff hnodup hspec hsplit hfirst hstart hallowed, hbefore, hstart]
    constructor
    · rintro ⟨heq, hnone⟩
      have hlt : (skipped ++ kept).length < cut := by
        by_contra hle
        have hmem : old ∈ path.drop cut := by
          refine mem_of_getElem? (i := (skipped ++ kept).length - cut) ?_
          rw [getElem?_drop, show cut + ((skipped ++ kept).length - cut) =
            (skipped ++ kept).length by omega, (around hsplit.eq).1]
        have hold := hnone old hmem
        rw [isCompaction_of_data hsplit.data] at hold
        cases hold
      refine ⟨?_, hlt⟩
      rw [messages_of_later_cut hsplit hlt, messagesOf_append] at heq
      have hsame := append_cancel_right heq
      rw [← no_summary_iff, hsame, no_summary_iff]
      intro e he
      simpa using (List.mem_filter.1 he).2
    · rintro ⟨hnone, hlt⟩
      have hfilter : kept.filter (fun e => !e.isCompaction) = kept := by
        rw [filter_eq_self]
        simpa using hnone
      refine ⟨?_, fun e he => ?_⟩
      · rw [messages_of_later_cut hsplit hlt, hfilter, messagesOf_append]
      · obtain ⟨k, rfl⟩ : ∃ k, cut = (skipped ++ kept).length + 1 + k :=
          ⟨cut - (skipped ++ kept).length - 1, by omega⟩
        rw [← drop_drop, (around hsplit.eq).2] at he
        exact hsplit.last e (mem_of_mem_drop he)

/-! ## Two compactions of a short session -/

variable {made : List SessionEntry → CompactionData → Prop}

/-- A path is extended by an entry that is no compaction or one made from the path. -/
theorem each_concat (h : EachCompaction made path)
    (hentry : ∀ data, entry.compaction? = some data → made path data) :
    EachCompaction made (path ++ [entry]) := by
  intro pre e data post heq hdata
  rcases eq_nil_or_concat post with rfl | ⟨rest, last, rfl⟩
  · obtain ⟨rfl, hlast⟩ := append_inj' heq rfl
    obtain rfl : entry = e := by simpa using hlast
    exact hentry data hdata
  · rw [concat_eq_append, ← cons_append, ← append_assoc] at heq
    obtain ⟨rfl, -⟩ := append_inj' heq rfl
    exact h pre e data rest rfl hdata

/-- A user message of the short session. -/
def shortUser (id : String) (parentId : Option String) : SessionEntry :=
  ⟨id, parentId, "2026-01-01T00:00:00.000Z", .message (.user ⟨some (.str "abcd"), 0⟩)⟩

/-- An answer in the short session. -/
def shortAnswer (id : String) (parentId : Option String) : SessionEntry :=
  ⟨id, parentId, "2026-01-01T00:00:00.000Z", .message (.assistant
    ⟨some [.text "abcd"], "p", "m", .zero, .stop, none, 0⟩)⟩

/-- A compaction of the short session. -/
def shortCompaction (id : String) (parentId : Option String) (firstKeptEntryId : String) :
    SessionEntry :=
  ⟨id, parentId, "2026-01-01T00:00:00.000Z", .compaction
    ⟨"s", firstKeptEntryId, 4, none, none, none⟩⟩

/-- Two turns of one message and one answer. -/
def twoTurns : List SessionEntry :=
  [shortUser "u1" none, shortAnswer "a1" "u1", shortUser "u2" "a1", shortAnswer "a2" "u2"]

/-- The two turns, a compaction that keeps the second, and one message more. -/
def compactedTurns : List SessionEntry :=
  twoTurns ++ [shortCompaction "c1" "a2" "u2"] ++ [shortUser "u3" "c1"]

/-- Settings that keep `n` tokens. -/
def keepTokens (n : ℚ) : CompactionSettings := ⟨true, 16384, n⟩

theorem each_twoTurns :
    EachCompaction made twoTurns := by
  intro pre entry data post heq hdata
  have hmem : entry ∈ twoTurns := by rw [heq]; simp
  have hnone : ∀ e ∈ twoTurns, e.compaction? = none := by decide
  rw [hnone entry hmem] at hdata
  cases hdata

theorem produced_compactedTurns : Produced compactedTurns := by
  refine each_concat (each_concat each_twoTurns fun data hdata => ?_) fun _ h => by cases h
  obtain rfl := some.inj hdata
  refine ⟨keepTokens 2, (prepareCompaction twoTurns (keepTokens 2)).get (by decide),
    (Option.some_get _).symm, by decide⟩

/-- A second compaction whose budget ends after the first one loses nothing. -/
theorem losesNothing_iff_laterCut :
    ∃ prep, prepareCompaction compactedTurns (keepTokens 1) = some prep ∧
      LosesNothing compactedTurns prep (shortCompaction "c2" "u3" "u3") ∧
        CutFits compactedTurns 1 := by
  have hsome : (prepareCompaction compactedTurns (keepTokens 1)).isSome = true := by
    decide
  obtain ⟨prep, hprep⟩ := Option.isSome_iff_exists.1 hsome
  have hpath : IsSessionPath (compactedTurns ++ [shortCompaction "c2" "u3" "u3"]) := by
    decide
  have hiff := losesNothing_iff hpath produced_compactedTurns hprep (by
    have : (prepareCompaction compactedTurns (keepTokens 1)).map (·.firstKeptEntryId) =
      some "u3" := by decide
    rw [hprep] at this
    exact congrArg some (Option.some.inj this).symm)
  have hloses : ∀ p ∈ prepareCompaction compactedTurns (keepTokens 1),
      LosesNothing compactedTurns p (shortCompaction "c2" "u3" "u3") := by decide
  exact ⟨prep, hprep, hloses prep hprep, hiff.1 (hloses prep hprep)⟩

/-- A second compaction whose budget reaches behind the first one shows that one's summary again,
in the middle of the new context. -/
theorem earlier_cut_repeats_summary :
    ¬∀ (path : List SessionEntry) (entry : SessionEntry) (settings : CompactionSettings)
      (prep : CompactionPreparation), IsSessionPath (path ++ [entry]) → Produced path →
      prepareCompaction path settings = some prep →
      entry.compaction?.map (·.firstKeptEntryId) = some prep.firstKeptEntryId →
      LosesNothing path prep entry := by
  intro h
  have hsome : (prepareCompaction compactedTurns (keepTokens 3)).isSome = true := by
    decide
  have hkept : ∀ p ∈ prepareCompaction compactedTurns (keepTokens 3),
      (shortCompaction "c2" "u3" "a2").compaction?.map (·.firstKeptEntryId) =
        some p.firstKeptEntryId := by decide
  have hloses : ∀ p ∈ prepareCompaction compactedTurns (keepTokens 3),
      ¬LosesNothing compactedTurns p (shortCompaction "c2" "u3" "a2") := by decide
  obtain ⟨prep, hprep⟩ := Option.isSome_iff_exists.1 hsome
  exact hloses prep hprep (h compactedTurns (shortCompaction "c2" "u3" "a2") (keepTokens 3) prep
    (by decide) produced_compactedTurns hprep (hkept prep hprep))

end BeauPi.Compaction
