import BeauPi.Harness.Compaction
import BeauPi.Machine.Fallible

/-!
# Runs of a harness session

* `WellFormed` — every entry has an id of its own and refers to earlier entries only.
* `Storage.Sound` — the storage is the one made from its own well-formed entries.
* `Reachable` — the states of every run; `Reachable.sound` holds of them.
* `IsBranch` — what holds of the branch of a sound storage.
-/

namespace BeauPi.Harness

open Llm Sessions Machine List Storage
open Compaction (defaultCompactionSettings)

/-! ## Well-formed entries -/

/-- The ids by which an entry names others; an empty id of a parent or of the first kept entry
names none. -/
def TreeEntry.refs (entry : TreeEntry) : List String :=
  entry.parentId.toList.filter (· ≠ "") ++ match entry.body with
    | .compaction data => data.firstKeptEntryId.toList.filter (· ≠ "")
    | .leaf targetId => targetId.toList
    | _ => []

/-- Does the entry say something, if it is the summary of a branch? -/
def TreeEntry.hasSummary (entry : TreeEntry) : Bool :=
  match entry.body with
  | .branchSummary data => data.summary ≠ ""
  | _ => true

/-- The ids of some entries. -/
abbrev ids (entries : List TreeEntry) : List String := entries.map (·.id)

/-- What an entry may look like that is added to others. -/
structure Extends (entries : List TreeEntry) (entry : TreeEntry) : Prop where
  named : entry.id ≠ ""
  fresh : entry.id ∉ ids entries
  refs : ∀ id ∈ entry.refs, id ∈ ids entries
  summary : entry.hasSummary = true

/-- Every entry has an id of its own and refers to earlier entries only. -/
inductive WellFormed : List TreeEntry → Prop
  | nil : WellFormed []
  | snoc {entries : List TreeEntry} {entry : TreeEntry} :
      WellFormed entries → Extends entries entry → WellFormed (entries ++ [entry])

variable {entries pre post : List TreeEntry} {entry : TreeEntry} {s s' : Storage}

/-- Each entry of well-formed ones extends those before it. -/
theorem WellFormed.extends (h : WellFormed entries) (heq : entries = pre ++ entry :: post) :
    Extends pre entry := by
  induction h generalizing post with
  | nil => simp at heq
  | @snoc entries last _ hlast ih =>
    rcases eq_nil_or_concat post with rfl | ⟨post, e, rfl⟩
    · obtain ⟨rfl, hsame⟩ := append_inj' heq rfl
      obtain rfl : last = entry := by simpa using hsame
      exact hlast
    · rw [concat_eq_append, ← cons_append, ← append_assoc] at heq
      exact ih (append_inj' heq rfl).1

theorem WellFormed.nodup (h : WellFormed entries) : (ids entries).Nodup := by
  induction h with
  | nil => simp
  | snoc _ hlast ih =>
    rw [ids, map_append, nodup_append]
    refine ⟨ih, by simp, ?_⟩
    rintro a ha b hb rfl
    obtain rfl : a = _ := by simpa using hb
    exact hlast.fresh ha

theorem WellFormed.of_mem (h : WellFormed entries) (hmem : entry ∈ entries) :
    entry.id ≠ "" ∧ entry.hasSummary = true ∧ entry.id ∉ entry.refs := by
  obtain ⟨pre, post, heq⟩ := append_of_mem hmem
  have hext := h.extends heq
  exact ⟨hext.named, hext.summary, fun hself => hext.fresh (hext.refs _ hself)⟩

/-- No entry refers to a later one or shares its id. -/
theorem WellFormed.pairwise (h : WellFormed entries) :
    entries.Pairwise fun a b => b.id ≠ a.id ∧ b.id ∉ a.refs := by
  induction h with
  | nil => exact List.Pairwise.nil
  | @snoc entries last hentries hlast ih =>
    refine pairwise_append.2 ⟨ih, pairwise_singleton _ _, fun a ha b hb => ?_⟩
    obtain rfl : b = last := by simpa using hb
    refine ⟨fun hsame => hlast.fresh (hsame ▸ mem_map_of_mem ha), fun href => ?_⟩
    obtain ⟨pre, post, heq⟩ := append_of_mem ha
    refine hlast.fresh ?_
    rw [heq, ids, map_append]
    exact mem_append_left _ ((hentries.extends heq).refs _ href)

/-! ## The index of entries with ids of their own -/

theorem indexOf_concat : indexOf (entries ++ [entry]) = (indexOf entries).set entry.id entry := by
  simp [indexOf]

theorem entries_indexOf (h : (ids entries).Nodup) :
    (indexOf entries).entries = entries.map fun entry => (entry.id, entry) := by
  induction entries using List.reverseRecOn with
  | nil => rfl
  | append_singleton entries last ih =>
    rw [ids, map_append, nodup_append] at h
    obtain ⟨hentries, -, hfresh⟩ := h
    have hnew : (indexOf entries).get? last.id = none := by
      rw [OrderedMap.get?_eq_none, OrderedMap.keys, ih hentries]
      intro hmem
      obtain ⟨pair, hpair, hid⟩ := mem_map.1 hmem
      obtain ⟨e, he, rfl⟩ := mem_map.1 hpair
      exact hfresh e.id (mem_map_of_mem he) last.id (by simp) hid
    rw [indexOf_concat, OrderedMap.entries_set_of_none hnew, ih hentries]
    simp

variable {id : String}

theorem get?_indexOf (h : (ids entries).Nodup) :
    (indexOf entries).get? id = some entry ↔ entry ∈ entries ∧ entry.id = id := by
  rw [OrderedMap.get?_eq_some, entries_indexOf h]
  simp only [mem_map, Prod.mk.injEq]
  constructor
  · rintro ⟨e, hmem, hid, rfl⟩
    exact ⟨hmem, hid⟩
  · rintro ⟨hmem, hid⟩
    exact ⟨entry, hmem, hid, rfl⟩

theorem has_indexOf (h : (ids entries).Nodup) :
    (indexOf entries).has id = true ↔ id ∈ ids entries := by
  rw [OrderedMap.has, Option.isSome_iff_exists]
  simp only [get?_indexOf h, mem_map]

theorem size_indexOf (h : (ids entries).Nodup) : (indexOf entries).size = entries.length := by
  rw [OrderedMap.size, entries_indexOf h, length_map]

/-! ## The storage -/

/-- The storage is the one made from its own well-formed entries. -/
structure Storage.Sound (s : Storage) : Prop where
  wellFormed : WellFormed s.entries
  rebuilt : s = ofEntries s.entries

theorem ofEntries_concat :
    ofEntries (entries ++ [entry]) = (ofEntries entries).appendEntry entry := by
  simp [ofEntries, Storage.appendEntry, indexOf, buildLabelsById]

/-- A well-formed new entry keeps the storage sound. -/
theorem Storage.Sound.appendEntry (h : s.Sound) (hext : Extends s.entries entry) :
    (s.appendEntry entry).Sound where
  wellFormed := .snoc h.wellFormed hext
  rebuilt := by
    have hrebuilt := h.rebuilt
    calc s.appendEntry entry = (ofEntries s.entries).appendEntry entry := by rw [← hrebuilt]
      _ = ofEntries (s.entries ++ [entry]) := ofEntries_concat.symm

theorem Storage.Sound.byId (h : s.Sound) : s.byId = indexOf s.entries := by
  conv_lhs => rw [h.rebuilt]
  rfl

theorem Storage.Sound.has (h : s.Sound) :
    s.byId.has id = true ↔ id ∈ ids s.entries := by
  rw [h.byId, has_indexOf h.wellFormed.nodup]

theorem WellFormed.leaf (h : WellFormed entries) (hleaf : (ofEntries entries).leafId = some id) :
    id ∈ ids entries := by
  cases h with
  | nil => simp [ofEntries] at hleaf
  | @snoc entries last _ hlast =>
    rw [ofEntries_concat] at hleaf
    change leafIdAfterEntry last = some id at hleaf
    unfold leafIdAfterEntry at hleaf
    split at hleaf
    · next targetId hbody =>
      have href : id ∈ last.refs := by simp [TreeEntry.refs, hbody, hleaf]
      rw [ids, map_append]
      exact mem_append_left _ (hlast.refs id href)
    · obtain rfl : last.id = id := by simpa using hleaf
      simp [ids]

/-- The leaf of a sound storage is one of its entries. -/
theorem Storage.Sound.leaf (h : s.Sound) (hleaf : s.leafId = some id) :
    id ∈ ids s.entries := by
  rw [h.rebuilt] at hleaf
  exact h.wellFormed.leaf hleaf

/-- A sound storage always has a leaf to give. -/
theorem Storage.Sound.getLeafId (h : s.Sound) : s.getLeafId = .ok s.leafId := by
  unfold Storage.getLeafId
  cases hleaf : s.leafId with
  | none => rfl
  | some id =>
    simp only
    rw [if_pos (h.has.2 (h.leaf hleaf))]

variable {timestamp : String}

/-- An entry below the leaf extends the entries if the other ids it names are there. -/
theorem Storage.Sound.extends (h : s.Sound) {body : TreeBody} (hnew : s.byId.has id = false)
    (hnamed : id ≠ "")
    (hrefs : ∀ ref ∈ (TreeEntry.mk id none timestamp body).refs, ref ∈ ids s.entries)
    (hsummary : (TreeEntry.mk id none timestamp body).hasSummary = true) :
    Extends s.entries ⟨id, s.leafId, timestamp, body⟩ where
  named := hnamed
  fresh := by rw [← h.has]; simp [hnew]
  refs := by
    intro ref href
    rw [TreeEntry.refs, mem_append] at href
    rcases href with hparent | hother
    · exact h.leaf (by simpa using (mem_filter.1 hparent).1)
    · exact hrefs ref (by rw [TreeEntry.refs, mem_append]; exact Or.inr hother)
  summary := hsummary

/-! ## The events of a run -/

/-- What `Session` appends by itself: everything but compactions, summaries of branches and
leaves. -/
def TreeBody.isAppended : TreeBody → Bool
  | .compaction _ => false
  | .branchSummary _ => false
  | .leaf _ => false
  | _ => true

/-- `appendMessage`, `appendThinkingLevelChange`, …, `appendSessionName`; of these `appendLabel`
alone looks at the storage first. -/
def Storage.append (s : Storage) (id timestamp : String) (body : TreeBody) :
    Except SessionError Storage := do
  if let .label targetId _ := body then
    unless s.byId.has targetId do
      throw (.notFound ("Entry " ++ targetId ++ " not found"))
  let parentId ← s.getLeafId
  return s.appendEntry ⟨id, parentId, timestamp, body⟩

/-- The summary of `moveTo`; `navigateTree` gives one only if it is not empty. -/
structure MoveSummary where
  id : String
  timestamp : String
  summary : String
  details : Option Json
  usage : Option Usage
  fromHook : Option Bool
  nonempty : summary ≠ ""

/-- `Session.moveTo` -/
def Storage.moveTo (s : Storage) (id timestamp : String) (entryId : Option String)
    (summary : Option MoveSummary) : Except SessionError Storage := do
  let moved ← s.setLeafId id timestamp entryId
  match summary with
  | none => return moved
  | some m =>
    let data : BranchSummaryData :=
      ⟨entryId.getD "root", m.summary, m.details, m.usage, m.fromHook⟩
    return moved.appendEntry ⟨m.id, entryId, m.timestamp, .branchSummary data⟩

/-- One call on a session or its harness; the ids are those of `generateEntryId`. -/
inductive Event
  | append (id timestamp : String) (body : TreeBody)
  | moveTo (id timestamp : String) (entryId : Option String) (summary : Option MoveSummary)
  | compact (id timestamp : String) (summarizer : Summarizer) (provided : Option CompactionResult)
  /-- The session is opened again from its entries. -/
  | reopen

/-- A call that succeeds. -/
def Storage.step (s : Storage) : Event → Except HarnessError Storage
  | .append id timestamp body => (s.append id timestamp body).mapError .session
  | .moveTo id timestamp entryId summary =>
    (s.moveTo id timestamp entryId summary).mapError .session
  | .compact id timestamp summarizer provided =>
    (s.compact id timestamp summarizer provided).map Prod.snd
  | .reopen => .ok (ofEntries s.entries)

/-- `generateEntryId` returns an id that no entry has. -/
def Storage.IsNew (s : Storage) (id : String) : Prop := id ≠ "" ∧ s.byId.has id = false

/-- What callers keep to: ids are new, and the compaction of a hook names an entry. -/
def Storage.Admits (s : Storage) : Event → Prop
  | .append id _ body => s.IsNew id ∧ body.isAppended = true
  | .moveTo id _ _ summary => s.IsNew id ∧ ∀ m ∈ summary, s.IsNew m.id ∧ m.id ≠ id
  | .compact id _ _ provided =>
    s.IsNew id ∧ ∀ result ∈ provided, ∀ ref ∈ result.firstKeptEntryId,
      ref = "" ∨ s.byId.has ref = true
  | .reopen => True

/-- The states of every run that starts from well-formed entries. -/
inductive Reachable : Storage → Prop
  | start {entries : List TreeEntry} : WellFormed entries →
      Reachable (ofEntries entries)
  | step {s s' : Storage} {event : Event} : Reachable s → s.Admits event →
      s.step event = .ok s' → Reachable s'

/-! ## Every reachable state is sound -/

theorem Storage.Sound.append (h : s.Sound) {body : TreeBody} (hnew : s.IsNew id)
    (hbody : body.isAppended = true) (hs : s.append id timestamp body = .ok s') : s'.Sound := by
  have hext : Extends s.entries ⟨id, s.leafId, timestamp, body⟩ := by
    refine h.extends hnew.2 hnew.1 ?_ ?_
    · cases body <;> simp_all [TreeBody.isAppended, TreeEntry.refs]
    · cases body <;> simp_all [TreeBody.isAppended, TreeEntry.hasSummary]
  have heq : s' = s.appendEntry ⟨id, s.leafId, timestamp, body⟩ := by
    unfold Storage.append at hs
    rw [h.getLeafId] at hs
    split at hs
    · next targetId label =>
      by_cases hhas : s.byId.has targetId = true
      · simp only [hhas, if_true] at hs
        exact (Except.ok.inj hs).symm
      · simp only [hhas] at hs
        cases hs
    · exact (Except.ok.inj hs).symm
  rw [heq]
  exact h.appendEntry hext

/-- Moving the leaf appends a `leaf` entry. -/
theorem setLeafId_eq {entryId : Option String} (hs : s.setLeafId id timestamp entryId = .ok s') :
    s' = s.appendEntry ⟨id, s.leafId, timestamp, .leaf entryId⟩ ∧
      ∀ target ∈ entryId, s.byId.has target = true := by
  unfold setLeafId at hs
  split at hs
  · split_ifs at hs with hhas
    · exact ⟨(Except.ok.inj hs).symm, by simpa using hhas⟩
  · exact ⟨(Except.ok.inj hs).symm, by simp⟩

theorem Storage.Sound.moveTo (h : s.Sound) {entryId : Option String} {summary : Option MoveSummary}
    (hnew : s.IsNew id) (hsummary : ∀ m ∈ summary, s.IsNew m.id ∧ m.id ≠ id)
    (hs : s.moveTo id timestamp entryId summary = .ok s') : s'.Sound := by
  unfold Storage.moveTo at hs
  cases hmoved : s.setLeafId id timestamp entryId with
  | error e => simp [hmoved] at hs; cases hs
  | ok moved =>
    obtain ⟨heq, htarget⟩ := setLeafId_eq hmoved
    have hmovedSound : moved.Sound := by
      rw [heq]
      refine h.appendEntry (h.extends hnew.2 hnew.1 ?_ rfl)
      intro ref href
      exact h.has.1 (htarget ref (by simpa [TreeEntry.refs] using href))
    rw [hmoved] at hs
    cases summary with
    | none =>
      obtain rfl : moved = s' := Except.ok.inj hs
      exact hmovedSound
    | some m =>
      obtain ⟨hm, hne⟩ := hsummary m rfl
      have hleaf : moved.leafId = entryId := by rw [heq]; rfl
      rw [← Except.ok.inj hs, ← hleaf]
      refine hmovedSound.appendEntry (hmovedSound.extends ?_ hm.1 ?_ ?_)
      · rw [heq, Storage.appendEntry, OrderedMap.has, OrderedMap.get?_set_ne _ _ hne]
        exact hm.2
      · simp [TreeEntry.refs]
      · simpa [TreeEntry.hasSummary] using m.nonempty

/-! ## What a compaction does -/

theorem mapError_eq_ok {α ε ε' : Type} {f : ε → ε'} {x : Except ε α} {a : α} :
    x.mapError f = .ok a ↔ x = .ok a := by
  cases x <;> simp [Except.mapError]

variable {summarizer : Summarizer} {preparation : CompactionPreparation}

/-- A successful compaction prepares the branch and appends an entry for its result. -/
theorem Storage.compact_cases {provided : Option CompactionResult}
    (hs : s.compact id timestamp summarizer provided = .ok (preparation, s')) :
    ∃ path result parentId, s.getBranch = .ok path ∧
      prepareCompaction path defaultCompactionSettings = .ok (some preparation) ∧
      compactResult summarizer preparation provided = .ok result ∧
      s.getLeafId = .ok parentId ∧ s' = s.appendEntry
        ⟨id, parentId, timestamp, .compaction (result.toData provided.isSome)⟩ := by
  obtain ⟨path, hbranch, hs⟩ := bind_eq_ok.1 hs
  obtain ⟨prepared, hprep, hs⟩ := bind_eq_ok.1 hs
  rw [mapError_eq_ok] at hbranch hprep
  cases prepared with
  | none => cases hs
  | some prep =>
    obtain ⟨result, hresult, hs⟩ := bind_eq_ok.1 hs
    obtain ⟨parentId, hleaf, hs⟩ := bind_eq_ok.1 hs
    rw [mapError_eq_ok] at hleaf
    cases hs
    exact ⟨path, result, parentId, hbranch, hprep, hresult, hleaf, rfl⟩

/-- The first kept entry of this program's own compaction is an entry of the branch. -/
theorem Prepared.firstKept {path : List TreeEntry} {settings : Compaction.CompactionSettings}
    (h : Prepared path settings preparation) :
    preparation.firstKeptEntryId ∈ ids path := by
  obtain ⟨cutPoint, -, hget, -⟩ := h.cut
  obtain ⟨entry, hat, hid⟩ := Option.map_eq_some_iff.1 hget
  rw [← hid]
  exact mem_map_of_mem (mem_of_getElem? hat)

/-- The result that `compact` returns names the first kept entry and holds the retained tail. -/
theorem compact_eq_ok {result : CompactionResult}
    (h : compact summarizer preparation = .ok result) :
    result.firstKeptEntryId = some preparation.firstKeptEntryId ∧
      result.retainedTail = some preparation.retainedTail := by
  unfold compact at h
  split at h
  · cases h
  · obtain ⟨summary, -, h⟩ := bind_eq_ok.1 h
    cases h
    exact ⟨rfl, rfl⟩

/-! ## The branch -/

/-- What holds of the branch of a sound storage. -/
structure IsBranch (path : List TreeEntry) : Prop where
  /-- No entry refers to a later one or shares its id. -/
  pairwise : path.Pairwise fun a b => b.id ≠ a.id ∧ b.id ∉ a.refs
  sound : ∀ entry ∈ path, entry.id ≠ "" ∧ entry.hasSummary = true ∧ entry.id ∉ entry.refs
  /-- A compaction with a retained tail is the first entry. -/
  checkpoint : ∀ pre entry post, path = pre ++ entry :: post →
    (entry.compaction?.bind (·.retainedTail)).isSome = true → pre = []

/-- The walk back from an entry succeeds and stays among the entries up to it. -/
theorem walkBack_ok (h : WellFormed entries) {fuel : Nat} (stopAtEntryId : Option String)
    (heq : entries = pre ++ entry :: post) (hfuel : pre.length < fuel) :
    ∃ back, walkBack (indexOf entries) fuel stopAtEntryId entry = .ok (entry :: back) ∧
      List.Sublist back.reverse pre ∧ (∀ x c y, entry :: back = x ++ c :: y →
        (c.compaction?.bind (·.retainedTail)).isSome = true → y = []) := by
  induction fuel generalizing pre entry post stopAtEntryId with
  | zero => omega
  | succ fuel ih =>
    have halone : ∀ x c y, [entry] = x ++ c :: y → y = [] := by
      intro x c y hsplit
      cases x with
      | nil => exact (List.cons.inj hsplit).2.symm
      | cons e x => simp at hsplit
    have hsingle : ∃ back : List TreeEntry, Except.ok (ε := SessionError) [entry] =
        .ok (entry :: back) ∧ List.Sublist back.reverse pre ∧ (∀ x c y, entry :: back = x ++ c :: y →
        (c.compaction?.bind (·.retainedTail)).isSome = true → y = []) :=
      ⟨[], rfl, by simp, fun x c y hsplit _ => halone x c y hsplit⟩
    unfold walkBack
    split_ifs with hstop hcheckpoint
    · exact hsingle
    · exact hsingle
    · dsimp only
      split_ifs with hroot
      · exact hsingle
      · have hparent : entry.parentId.getD "" ∈ ids pre := by
          refine (h.extends heq).refs _ ?_
          rw [TreeEntry.refs, mem_append]
          left
          cases hp : entry.parentId with
          | none => simp [hp] at hroot
          | some parentId => simpa [hp] using hroot
        obtain ⟨parent, hmem, hid⟩ := mem_map.1 hparent
        have hget : (indexOf entries).get? (entry.parentId.getD "") = some parent := by
          rw [get?_indexOf h.nodup]
          exact ⟨by rw [heq]; exact mem_append_left _ hmem, hid⟩
        obtain ⟨earlier, later, hpre⟩ := append_of_mem hmem
        have hlength : earlier.length < fuel := by
          have : pre.length = earlier.length + (later.length + 1) := by rw [hpre]; simp
          omega
        have hearlier : entries = earlier ++ parent :: (later ++ entry :: post) := by
          rw [heq, hpre]
          simp
        obtain ⟨back, hback, hsub, hends⟩ :=
          ih (stopAfter stopAtEntryId entry) hearlier hlength
        rw [hget]
        refine ⟨parent :: back, by simp only [hback]; rfl, ?_, ?_⟩
        · rw [hpre, reverse_cons]
          exact hsub.append (by simp)
        · intro x c y hsplit hc
          rcases cons_eq_append_iff.1 hsplit with ⟨rfl, hcons⟩ | ⟨x, rfl, hcons⟩
          · obtain ⟨rfl, -⟩ := List.cons.inj hcons
            exact absurd hc hcheckpoint
          · exact hends x c y hcons hc

/-- **The branch of a sound storage is there, ends at the leaf and is a branch.** -/
theorem Storage.Sound.getBranch (h : s.Sound) : ∃ path, s.getBranch = .ok path ∧
    IsBranch path ∧ List.Sublist path s.entries := by
  unfold Storage.getBranch
  rw [h.getLeafId]
  cases hleaf : s.leafId with
  | none => exact ⟨[], rfl, ⟨List.Pairwise.nil, by simp, by simp⟩, by simp⟩
  | some id =>
    obtain ⟨entry, hmem, hid⟩ := mem_map.1 (h.leaf hleaf)
    obtain ⟨pre, post, heq⟩ := append_of_mem hmem
    have hget : (indexOf s.entries).get? id = some entry :=
      (get?_indexOf h.wellFormed.nodup).2 ⟨hmem, hid⟩
    have hlength : pre.length < s.entries.length + 1 := by rw [heq]; simp
    obtain ⟨back, hback, hsub, hends⟩ :=
      walkBack_ok h.wellFormed none heq hlength
    have hpath : List.Sublist (entry :: back).reverse s.entries := by
      rw [heq, reverse_cons]
      exact hsub.append (by simp)
    refine ⟨(entry :: back).reverse, ?_, ⟨h.wellFormed.pairwise.sublist hpath, ?_, ?_⟩, hpath⟩
    · simp only [getPathToRootOrCompaction, h.byId, bind, Except.bind, hget,
        size_indexOf h.wellFormed.nodup, hback]
      rfl
    · exact fun e he => h.wellFormed.of_mem (hpath.subset he)
    · intro x c y hsplit hc
      have hrev : entry :: back = y.reverse ++ c :: x.reverse := by
        have := congrArg List.reverse hsplit
        simpa using this
      simpa using hends _ _ _ hrev hc

/-! ## Every state of a run is sound -/

theorem Storage.Sound.compact (h : s.Sound) {provided : Option CompactionResult} (hnew : s.IsNew id)
    (hprovided : ∀ result ∈ provided, ∀ ref ∈ result.firstKeptEntryId, ref = "" ∨ s.byId.has ref = true)
    (hs : s.compact id timestamp summarizer provided = .ok (preparation, s')) : s'.Sound := by
  obtain ⟨path, result, parentId, hbranch, hprep, hresult, hleaf, rfl⟩ := s.compact_cases hs
  obtain ⟨path', hbranch', hpath, hsub⟩ := h.getBranch
  obtain rfl : path' = path := Except.ok.inj (hbranch'.symm.trans hbranch)
  obtain rfl : s.leafId = parentId := Except.ok.inj (h.getLeafId.symm.trans hleaf)
  refine h.appendEntry (h.extends hnew.2 hnew.1 ?_ rfl)
  intro ref href
  have hkept : result.firstKeptEntryId = some ref ∧ ref ≠ "" := by
    simpa [TreeEntry.refs, CompactionResult.toData] using href
  cases provided with
  | some r =>
    obtain rfl : r = result := Except.ok.inj hresult
    exact h.has.1 ((hprovided r rfl ref hkept.1).resolve_left hkept.2)
  | none =>
    have hown := (compact_eq_ok (mapError_eq_ok.1 hresult)).1
    obtain rfl : preparation.firstKeptEntryId = ref := Option.some.inj (hown.symm.trans hkept.1)
    exact (hsub.map _).subset (prepareCompaction_spec hprep).firstKept

theorem Reachable.sound (h : Reachable s) : s.Sound := by
  induction h with
  | start hwf => exact ⟨hwf, rfl⟩
  | @step s s' event _ hadmits hs ih =>
    cases event with
    | append id timestamp body =>
      exact ih.append hadmits.1 hadmits.2 (mapError_eq_ok.1 hs)
    | moveTo id timestamp entryId summary =>
      exact ih.moveTo hadmits.1 hadmits.2 (mapError_eq_ok.1 hs)
    | compact id timestamp summarizer provided =>
      obtain ⟨result, hresult, rfl⟩ : ∃ result,
          s.compact id timestamp summarizer provided = .ok result ∧ result.2 = s' := by
        cases hc : s.compact id timestamp summarizer provided with
        | error e => simp [Storage.step, hc, Except.map] at hs
        | ok result => exact ⟨result, rfl, by simpa [Storage.step, hc, Except.map] using hs⟩
      exact ih.compact hadmits.1 hadmits.2 hresult
    | reopen =>
      obtain rfl : ofEntries s.entries = s' := Except.ok.inj hs
      exact ⟨ih.wellFormed, rfl⟩


end BeauPi.Harness
