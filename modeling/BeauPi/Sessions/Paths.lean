import BeauPi.Sessions.Entries
import Mathlib.Data.List.Induction

/-!
# Session paths

A session path lists entries with unique ids of which each is the child of the one before.

* `buildSessionPath_eq` — the way to the last entry of a path is the path.
* `Split` — a path taken apart at its latest compaction.
* `contextEntries_eq` — what the context keeps of such a path.
-/

namespace BeauPi.Sessions

open Machine List

/-! ## Chains of parents -/

/-- Every entry is the child of the one before; `parent` is that of the first. -/
def Chained : Option String → List SessionEntry → Prop
  | _, [] => True
  | parent, entry :: rest => entry.parentId = parent ∧ Chained (some entry.id) rest

instance : (parent : Option String) → (path : List SessionEntry) → Decidable (Chained parent path)
  | _, [] => inferInstanceAs (Decidable True)
  | parent, entry :: rest =>
    have := instDecidableChained (some entry.id) rest
    inferInstanceAs (Decidable (entry.parentId = parent ∧ Chained (some entry.id) rest))

/-- A session path: unique ids, none empty, each entry the child of the one before. -/
structure IsSessionPath (path : List SessionEntry) : Prop where
  nodup : (path.map (·.id)).Nodup
  named : ∀ entry ∈ path, entry.id ≠ ""
  chained : Chained none path

instance (path : List SessionEntry) : Decidable (IsSessionPath path) :=
  decidable_of_iff ((path.map (·.id)).Nodup ∧ (∀ entry ∈ path, entry.id ≠ "") ∧ Chained none path)
    ⟨fun h => ⟨h.1, h.2.1, h.2.2⟩, fun h => ⟨h.1, h.2, h.3⟩⟩

variable {path pre post : List SessionEntry} {entry : SessionEntry} {parent : Option String}

/-- The last entry of a chain is the child of the one before it. -/
theorem chained_concat : Chained parent (path ++ [entry]) ↔
    Chained parent path ∧ entry.parentId = (path.getLast?.map (·.id)).or parent := by
  induction path generalizing parent with
  | nil => simp [Chained]
  | cons e rest ih =>
    simp only [cons_append, Chained, ih, and_assoc]
    cases rest with
    | nil => simp
    | cons f rest =>
      have hlast : (f :: rest).getLast? = some ((f :: rest).getLast (by simp)) :=
        getLast?_eq_some_getLast (by simp)
      rw [getLast?_cons_cons, hlast, Option.map_some, Option.some_or, Option.some_or]

theorem IsSessionPath.of_concat (h : IsSessionPath (path ++ [entry])) : IsSessionPath path where
  nodup := by
    have := h.nodup
    rw [map_append, nodup_append] at this
    exact this.1
  named := fun e he => h.named e (mem_append_left _ he)
  chained := (chained_concat.1 h.chained).1

/-! ## The index of a path -/

/-- Entries with new ids are added to the index in order. -/
theorem entries_foldl_set (path : List SessionEntry) (index : EntryIndex)
    (hnodup : (index.keys ++ path.map (·.id)).Nodup) :
    (path.foldl (fun index entry => index.set entry.id entry) index).entries =
      index.entries ++ path.map fun entry => (entry.id, entry) := by
  induction path generalizing index with
  | nil => simp
  | cons e rest ih =>
    have hnew : index.get? e.id = none := by
      rw [OrderedMap.get?_eq_none]
      intro hmem
      exact disjoint_of_nodup_append hnodup hmem mem_cons_self
    have hset := OrderedMap.entries_set_of_none hnew e
    rw [foldl_cons, ih, hset]
    · simp
    · simpa [OrderedMap.keys, hset] using hnodup

theorem entries_buildEntryIndex (h : (path.map (·.id)).Nodup) :
    (buildEntryIndex path none).entries = path.map fun entry => (entry.id, entry) := by
  have := entries_foldl_set path .empty (by simpa [OrderedMap.keys, OrderedMap.empty] using h)
  simpa [buildEntryIndex, OrderedMap.empty] using this

theorem get?_buildEntryIndex (h : (path.map (·.id)).Nodup) (hmem : entry ∈ path) :
    (buildEntryIndex path none).get? entry.id = some entry := by
  rw [OrderedMap.get?_eq_some, entries_buildEntryIndex h]
  exact mem_map_of_mem hmem

/-! ## The way to the last entry -/

/-- Following the parents from the last entry of a chain goes back along the chain. -/
theorem ancestors_eq {index : EntryIndex} {fuel : Nat}
    (hindex : ∀ e ∈ path, e.id ≠ "" ∧ index.get? e.id = some e) (hchained : Chained none path)
    (hfuel : path.length ≤ fuel) : ancestors index fuel path.getLast? = path.reverse := by
  induction path using List.reverseRecOn generalizing fuel with
  | nil => cases fuel <;> rfl
  | append_singleton path entry ih =>
    obtain ⟨hrest, hparent⟩ := chained_concat.1 hchained
    obtain ⟨fuel, rfl⟩ : ∃ k, fuel = k + 1 := ⟨fuel - 1, by simp at hfuel; omega⟩
    have hstep : parentOf index entry = path.getLast? := by
      unfold parentOf
      rw [hparent]
      cases hlast : path.getLast? with
      | none => rfl
      | some e =>
        obtain ⟨hid, hget⟩ := hindex e (mem_append_left _ (mem_of_getLast? hlast))
        simp [hid, hget]
    have hback : ancestors index fuel path.getLast? = path.reverse :=
      ih (fun e he => hindex e (mem_append_left _ he)) hrest (by simp at hfuel; omega)
    rw [getLast?_concat, reverse_concat, ancestors, hstep, hback]

/-- **The way to the last entry of a path is the path.** -/
theorem buildSessionPath_eq (h : IsSessionPath path) : buildSessionPath path none none = path := by
  have hback : ancestors (buildEntryIndex path none) ((buildEntryIndex path none).size + 1)
      path.getLast? = path.reverse := by
    refine ancestors_eq ?_ h.chained ?_
    · exact fun e he => ⟨h.named e he, get?_buildEntryIndex h.nodup he⟩
    · simp [OrderedMap.size, entries_buildEntryIndex h.nodup]
  simp [buildSessionPath, hback]

/-! ## The latest compaction -/

/-- A path taken apart at its latest compaction. -/
structure Split (path pre : List SessionEntry) (entry : SessionEntry) (data : CompactionData)
    (post : List SessionEntry) : Prop where
  eq : path = pre ++ entry :: post
  data : entry.compaction? = some data
  last : ∀ e ∈ post, e.isCompaction = false

theorem isCompaction_of_data {data : CompactionData} (h : entry.compaction? = some data) :
    entry.isCompaction = true := by
  simp [SessionEntry.isCompaction, h]

/-- A path holds no compaction or is taken apart at its latest one. -/
theorem exists_split (path : List SessionEntry) :
    (∀ e ∈ path, e.isCompaction = false) ∨
      ∃ pre entry data post, Split path pre entry data post := by
  induction path using List.reverseRecOn with
  | nil => exact .inl fun e he => absurd he not_mem_nil
  | append_singleton path last ih =>
    cases hlast : last.compaction? with
    | some data => exact .inr ⟨path, last, data, [], rfl, hlast, by simp⟩
    | none =>
      have hnot : last.isCompaction = false := by simp [SessionEntry.isCompaction, hlast]
      rcases ih with hnone | ⟨pre, entry, data, post, rfl, hdata, hpost⟩
      · refine .inl fun e he => ?_
        rcases mem_append.1 he with he | he
        · exact hnone e he
        · rw [mem_singleton.1 he]; exact hnot
      · refine .inr ⟨pre, entry, data, post ++ [last], by simp, hdata, fun e he => ?_⟩
        rcases mem_append.1 he with he | he
        · exact hpost e he
        · rw [mem_singleton.1 he]; exact hnot

theorem lastCompaction?_none (h : ∀ e ∈ path, e.isCompaction = false) :
    lastCompaction? path = none := by
  rw [lastCompaction?, find?_eq_none]
  intro e he
  simp [h e (mem_reverse.1 he)]

theorem Split.lastCompaction? {data : CompactionData} (h : Split path pre entry data post) :
    lastCompaction? path = some entry := by
  rw [Sessions.lastCompaction?, h.eq, reverse_append, reverse_cons, append_assoc,
    find?_append, find?_eq_none.2, Option.none_or]
  · simp [isCompaction_of_data h.data]
  · intro e he
    simp [h.last e (mem_reverse.1 he)]

/-- An entry of a path with unique ids is found at its place. -/
theorem findIdx?_id (h : ((pre ++ entry :: post).map (·.id)).Nodup) :
    (pre ++ entry :: post).findIdx? (fun e => decide (e.id = entry.id)) = some pre.length := by
  have hpre : pre.findIdx? (fun e => decide (e.id = entry.id)) = none := by
    rw [findIdx?_eq_none_iff]
    intro e he
    rw [map_append, nodup_append] at h
    have := h.2.2 e.id (mem_map_of_mem he) entry.id (by simp)
    simpa using this
  simp [findIdx?_append, hpre, findIdx?_cons]

theorem contextEntries_none (h : ∀ e ∈ path, e.isCompaction = false) :
    contextEntries path = path := by
  simp [contextEntries, lastCompaction?_none h]

/-- **What the context keeps of a path**: its latest compaction, the entries before it from the
first kept one on, and those after it. -/
theorem contextEntries_eq {data : CompactionData} (h : Split path pre entry data post)
    (hnodup : (path.map (·.id)).Nodup) :
    contextEntries path = entry :: (keptFrom data.firstKeptEntryId pre ++ post) := by
  have hfind : path.findIdx? (fun e => decide (e.id = entry.id)) = some pre.length := by
    rw [h.eq] at hnodup ⊢
    exact findIdx?_id hnodup
  have htake : path.take pre.length = pre := by simp [h.eq]
  have hdrop : path.drop (pre.length + 1) = post := by simp [h.eq]
  simp only [contextEntries, h.lastCompaction?, h.data, hfind, htake, hdrop]

end BeauPi.Sessions
