import BeauPi.Harness.Runs
import Mathlib.Data.List.TakeWhile

/-!
# The entries of an abandoned branch

Before the leaf of a harness session moves, the entries that it leaves are collected for a summary.
Where the two ways meet is looked up in the branches, which end at a checkpoint; the collection
follows all parents.

* `Storage.collectEntriesForBranchSummary` — the collection.
* `Way`, `OnWay` — the way from an entry to the root.
* `CoversAbandoned` — what the collection should be.
* `Passes` — the branch of an entry reaches another one.
* `collectEntries_covers_iff` — exactly then the collection is what it should be.
-/

namespace BeauPi.Harness

open Llm Sessions Machine List
open Option (some.inj)

/-! ## The collection -/

/-- `CollectEntriesResult` -/
structure CollectEntriesResult where
  entries : List TreeEntry
  commonAncestorId : Option String
  deriving DecidableEq, Repr

/-- The loop of `collectEntriesForBranchSummary`, latest entry first. -/
def collectUpTo (byId : EntryMap) (commonAncestorId : Option String) :
    Nat → Option String → Except SessionError (List TreeEntry)
  | 0, _ => .error .endless
  | fuel + 1, current =>
    let id := current.getD ""
    if id = "" ∨ current = commonAncestorId then .ok []
    else
      match byId.get? id with
      | none => .error (.invalidSession ("Entry " ++ id ++ " not found"))
      | some entry =>
        (collectUpTo byId commonAncestorId fuel entry.parentId).map (entry :: ·)

/-- `collectEntriesForBranchSummary` -/
def Storage.collectEntriesForBranchSummary (s : Storage) (oldLeafId : Option String)
    (targetId : String) : Except SessionError CollectEntriesResult :=
  if oldLeafId.getD "" = "" then .ok ⟨[], none⟩
  else do
    let oldPath ← s.getPathToRootOrCompaction oldLeafId
    let targetPath ← s.getPathToRootOrCompaction (some targetId)
    let commonAncestorId :=
      (targetPath.reverse.find? fun entry => entry.id ∈ oldPath.map (·.id)).map (·.id)
    let entries ← collectUpTo s.byId commonAncestorId (s.byId.size + 1) oldLeafId
    return ⟨entries.reverse, commonAncestorId⟩

/-! ## What it should be -/

/-- The way from an entry to the root, the entry first. -/
inductive Way (byId : EntryMap) : TreeEntry → List TreeEntry → Prop
  | root {entry : TreeEntry} (hroot : entry.parentId.getD "" = "") : Way byId entry [entry]
  | up {entry parent : TreeEntry} {way : List TreeEntry} (hchild : entry.parentId.getD "" ≠ "")
      (hparent : byId.get? (entry.parentId.getD "") = some parent) (hway : Way byId parent way) :
      Way byId entry (entry :: way)

/-- The entry has the id, or is an ancestor of the one that has it. -/
def OnWay (byId : EntryMap) (entry : TreeEntry) (id : String) : Prop :=
  ∃ start way, byId.get? id = some start ∧ Way byId start way ∧ entry ∈ way

/-- An ancestor of both or one of both. -/
def Common (byId : EntryMap) (oldLeafId : Option String) (targetId : String)
    (entry : TreeEntry) : Prop :=
  (∃ id ∈ oldLeafId, OnWay byId entry id) ∧ OnWay byId entry targetId

/-- The common ancestor that all others are ancestors of. -/
def DeepestCommon (byId : EntryMap) (oldLeafId : Option String) (targetId : String)
    (entry : TreeEntry) : Prop :=
  Common byId oldLeafId targetId entry ∧
    ∀ other, Common byId oldLeafId targetId other → OnWay byId other entry.id

/-- The summary covers what the leaf leaves: the deepest common ancestor is returned and, from the
root to the leaf, what is above the old leaf and not above the target. -/
structure CoversAbandoned (byId : EntryMap) (oldLeafId : Option String) (targetId : String)
    (result : CollectEntriesResult) : Prop where
  deepest : ∀ c, result.commonAncestorId = some c ↔
    ∃ entry, entry.id = c ∧ DeepestCommon byId oldLeafId targetId entry
  mem : ∀ entry, entry ∈ result.entries ↔
    (∃ id ∈ oldLeafId, OnWay byId entry id) ∧ ¬OnWay byId entry targetId
  ordered : result.entries.Pairwise fun a b => a ≠ b ∧ OnWay byId a b.id

/-- The walk back from an entry reaches `c`: no entry below has a retained tail or is the first
one that the latest compaction before it kept. -/
inductive Passes (byId : EntryMap) (c : TreeEntry) : Option String → TreeEntry → Prop
  | here (stopAtEntryId : Option String) : Passes byId c stopAtEntryId c
  | up {stopAtEntryId : Option String} {entry parent : TreeEntry}
      (hstop : stopAtEntryId ≠ some entry.id)
      (htail : (entry.compaction?.bind (·.retainedTail)).isSome = false)
      (hchild : entry.parentId.getD "" ≠ "")
      (hparent : byId.get? (entry.parentId.getD "") = some parent)
      (hpasses : Passes byId c (stopAfter stopAtEntryId entry) parent) :
      Passes byId c stopAtEntryId entry

/-- The branch of an id reaches `c`. -/
def BranchReaches (byId : EntryMap) (c : TreeEntry) (id : String) : Prop :=
  ∃ start, byId.get? id = some start ∧ Passes byId c none start

variable {entries pre post : List TreeEntry} {entry : TreeEntry} {s : Storage} {byId : EntryMap}

/-! ## Ways -/

/-- There is a way from every entry, among the entries up to it. -/
theorem WellFormed.exists_way (h : WellFormed entries) (heq : entries = pre ++ entry :: post) :
    ∃ way, Way (indexOf entries) entry (entry :: way) ∧ List.Sublist way.reverse pre := by
  induction hn : pre.length using Nat.strong_induction_on generalizing pre entry post with
  | _ n ih =>
    by_cases hroot : entry.parentId.getD "" = ""
    · exact ⟨[], .root hroot, by simp⟩
    · have hparent : entry.parentId.getD "" ∈ ids pre := by
        refine (h.extends heq).refs _ ?_
        rw [TreeEntry.refs, mem_append]
        left
        cases hp : entry.parentId with
        | none => simp [hp] at hroot
        | some parentId => simpa [hp] using hroot
      obtain ⟨parent, hmem, hid⟩ := List.mem_map.1 hparent
      obtain ⟨earlier, later, rfl⟩ := append_of_mem hmem
      have hearlier : entries = earlier ++ parent :: (later ++ entry :: post) := by
        rw [heq]
        simp
      have hlength : earlier.length < n := by
        rw [← hn]
        simp
      obtain ⟨way, hway, hsub⟩ := ih _ hlength hearlier rfl
      have hget : (indexOf entries).get? (entry.parentId.getD "") = some parent := by
        rw [get?_indexOf h.nodup]
        exact ⟨by rw [hearlier]; simp, hid⟩
      refine ⟨parent :: way, .up hroot hget hway, ?_⟩
      rw [reverse_cons]
      exact hsub.append (by simp)

theorem Way.unique {way way' : List TreeEntry} (h : Way byId entry way)
    (h' : Way byId entry way') : way = way' := by
  induction h generalizing way' with
  | root hroot =>
    cases h' with
    | root => rfl
    | up hchild => exact absurd hroot hchild
  | up hchild hparent _ ih =>
    cases h' with
    | root hroot => exact absurd hroot hchild
    | up _ hparent' hway' =>
      obtain rfl := some.inj (hparent.symm.trans hparent')
      rw [ih hway']

/-- The rest of a way is the way from there. -/
theorem Way.suffix {x y : List TreeEntry} {c : TreeEntry}
    (h : Way byId entry (x ++ c :: y)) : Way byId c (c :: y) := by
  induction x generalizing entry with
  | nil =>
    cases h with
    | root hroot => exact .root hroot
    | up hchild hparent hway => exact .up hchild hparent hway
  | cons e x ih =>
    generalize hl : e :: x ++ c :: y = l at h
    cases h with
    | root => simp at hl
    | up hchild hparent hway =>
      obtain ⟨-, rfl⟩ := List.cons.inj hl
      exact ih hway

/-- What the walk back returns is the part of the way that it passes. -/
theorem walkBack_way {way : List TreeEntry} (h : Way byId entry way) (hnodup : way.Nodup)
    {fuel : Nat} (hfuel : way.length ≤ fuel) (stopAtEntryId : Option String) :
    ∃ walked, walkBack byId fuel stopAtEntryId entry = .ok walked ∧ walked <+: way ∧
      ∀ c ∈ way, c ∈ walked ↔ Passes byId c stopAtEntryId entry := by
  induction h generalizing fuel stopAtEntryId with
  | @root entry hroot =>
    obtain ⟨fuel, rfl⟩ := Nat.exists_eq_succ_of_ne_zero (Nat.one_le_iff_ne_zero.1 hfuel)
    refine ⟨[entry], ?_, prefix_refl _, ?_⟩
    · unfold walkBack
      split_ifs
      · rfl
      · rfl
      · exact if_pos hroot
    · intro c hc
      obtain rfl := List.mem_singleton.1 hc
      exact iff_of_true hc (.here _)
  | @up entry parent way hchild hparent hway ih =>
    obtain ⟨fuel, rfl⟩ := @Nat.exists_eq_succ_of_ne_zero fuel (by
      rw [length_cons] at hfuel
      omega)
    obtain ⟨hfresh, hnodup⟩ := List.nodup_cons.1 hnodup
    have hstopped : ∀ c ∈ entry :: way, (stopAtEntryId = some entry.id ∨
        (entry.compaction?.bind (·.retainedTail)).isSome = true) →
        (c ∈ [entry] ↔ Passes byId c stopAtEntryId entry) := by
      intro c hc hstop
      constructor
      · intro hself
        obtain rfl := List.mem_singleton.1 hself
        exact .here _
      · intro hpasses
        cases hpasses with
        | here => exact mem_singleton_self _
        | up hne htail => exact (hstop.elim hne (by simp [htail])).elim
    by_cases hstop : stopAtEntryId = some entry.id
    · exact ⟨[entry], by rw [walkBack, if_pos hstop], by simp,
        fun c hc => hstopped c hc (.inl hstop)⟩
    by_cases htail : (entry.compaction?.bind (·.retainedTail)).isSome = true
    · exact ⟨[entry], by rw [walkBack, if_neg hstop, if_pos htail], by simp,
        fun c hc => hstopped c hc (.inr htail)⟩
    obtain ⟨walked, hwalked, hfront, hmem⟩ := ih hnodup (by simpa using hfuel)
      (stopAfter stopAtEntryId entry)
    refine ⟨entry :: walked, ?_, by simpa using hfront, ?_⟩
    · rw [walkBack, if_neg hstop, if_neg htail]
      simp only [if_neg hchild, hparent, hwalked]
      rfl
    · intro c hc
      by_cases hself : c = entry
      · subst hself
        exact iff_of_true mem_cons_self (.here _)
      · have hrest : c ∈ way := (List.mem_cons.1 hc).resolve_left hself
        rw [mem_cons, or_iff_right hself, hmem c hrest]
        constructor
        · exact fun h => .up hstop (by simpa using htail) hchild hparent h
        · intro h
          cases h with
          | here => exact absurd rfl hself
          | up _ _ _ hparent' hpasses =>
            obtain rfl := some.inj (hparent.symm.trans hparent')
            exact hpasses

/-- The entries are found by their own ids, which are not empty. -/
def Keyed (byId : EntryMap) : Prop :=
  ∀ id entry, byId.get? id = some entry → entry.id = id ∧ id ≠ ""

/-- The loop of the collection returns the part of the way before the common ancestor. -/
theorem collectUpTo_way {way : List TreeEntry} (h : Way byId entry way) (hkeyed : Keyed byId)
    (hget : byId.get? entry.id = some entry) {commonAncestorId : Option String}
    {fuel : Nat} (hfuel : way.length < fuel) :
    collectUpTo byId commonAncestorId fuel (some entry.id) =
      .ok (way.takeWhile fun x => some x.id ≠ commonAncestorId) := by
  induction h generalizing fuel with
  | @root entry hroot =>
    have hnamed := (hkeyed _ _ hget).2
    obtain ⟨fuel, rfl⟩ := Nat.exists_eq_add_of_le' hfuel
    by_cases hcommon : some entry.id = commonAncestorId
    · simp [collectUpTo, hcommon]
    · have hrest : collectUpTo byId commonAncestorId (fuel + 1) entry.parentId = .ok [] := by
        simp [collectUpTo, hroot]
      have hstep : collectUpTo byId commonAncestorId (fuel + 1 + 1) (some entry.id) =
          (collectUpTo byId commonAncestorId (fuel + 1) entry.parentId).map (entry :: ·) := by
        rw [collectUpTo]
        simp [hnamed, hcommon, hget]
      rw [takeWhile_cons_of_pos (by simpa using hcommon)]
      exact hstep.trans (by rw [hrest]; rfl)
  | @up entry parent way hchild hparent hway ih =>
    have hnamed := (hkeyed _ _ hget).2
    obtain ⟨fuel, rfl⟩ := Nat.exists_eq_add_of_le' hfuel
    by_cases hcommon : some entry.id = commonAncestorId
    · simp [collectUpTo, hcommon]
    · have hparentId := (hkeyed _ _ hparent).1
      have hid : entry.parentId = some parent.id := by
        cases hp : entry.parentId with
        | none => simp [hp] at hchild
        | some id => simp [hparentId, hp]
      rw [← hparentId] at hparent
      have hrest := @ih hparent (fuel + way.length + 1) (by omega)
      have hstep : collectUpTo byId commonAncestorId (fuel + (way.length + 1) + 1)
          (some entry.id) = (collectUpTo byId commonAncestorId (fuel + way.length + 1)
            (some parent.id)).map (entry :: ·) := by
        rw [collectUpTo, ← hid]
        simp [hnamed, hcommon, hget, Nat.add_assoc]
      rw [takeWhile_cons_of_pos (by simpa using hcommon)]
      exact hstep.trans (by rw [hrest]; rfl)

/-! ## Sound storages -/

theorem Storage.Sound.keyed (h : s.Sound) : Keyed s.byId := by
  intro id entry hget
  rw [h.byId] at hget
  obtain ⟨hmem, rfl⟩ := (get?_indexOf h.wellFormed.nodup).1 hget
  exact ⟨rfl, (h.wellFormed.of_mem hmem).1⟩

/-- The way from an entry to the root, whose entries are in the storage, each once. -/
structure WayFrom (s : Storage) (id : String) (way : List TreeEntry) : Prop where
  start : ∃ entry, s.byId.get? id = some entry ∧ Way s.byId entry way
  nodup : way.Nodup
  length_le : way.length ≤ s.byId.size
  found : ∀ x ∈ way, s.byId.get? x.id = some x

theorem Storage.Sound.wayFrom (h : s.Sound) {id : String} (hhas : s.byId.has id = true) :
    ∃ way, WayFrom s id way := by
  obtain ⟨entry, hget⟩ := Option.isSome_iff_exists.1 hhas
  have hmem := hget
  rw [h.byId, get?_indexOf h.wellFormed.nodup] at hmem
  obtain ⟨pre, post, heq⟩ := append_of_mem hmem.1
  obtain ⟨way, hway, hsub⟩ := h.wellFormed.exists_way heq
  have hpath : List.Sublist (entry :: way).reverse s.entries := by
    rw [heq, reverse_cons]
    exact hsub.append (by simp)
  refine ⟨entry :: way, ⟨entry, hget, h.byId ▸ hway⟩, ?_, ?_, fun x hx => ?_⟩
  · exact List.nodup_reverse.1 (hpath.nodup h.wellFormed.nodup.of_map)
  · rw [h.byId, size_indexOf h.wellFormed.nodup, ← length_reverse]
    exact hpath.length_le
  · rw [h.byId, get?_indexOf h.wellFormed.nodup]
    exact ⟨hpath.subset (List.mem_reverse.2 hx), rfl⟩

namespace WayFrom

variable {id : String} {way : List TreeEntry} {a : TreeEntry}

theorem onWay_iff (h : WayFrom s id way) : OnWay s.byId a id ↔ a ∈ way := by
  obtain ⟨entry, hget, hway⟩ := h.start
  constructor
  · rintro ⟨start, way', hstart, hway', ha⟩
    obtain rfl := some.inj (hget.symm.trans hstart)
    rwa [hway.unique hway']
  · exact fun ha => ⟨entry, way, hget, hway, ha⟩

theorem suffix {x y : List TreeEntry} (h : WayFrom s id (x ++ a :: y)) :
    WayFrom s a.id (a :: y) := by
  have hsuffix : a :: y <:+ x ++ a :: y := suffix_append _ _
  obtain ⟨entry, hget, hway⟩ := h.start
  exact ⟨⟨a, h.found a (by simp), hway.suffix⟩, h.nodup.sublist hsuffix.sublist,
    hsuffix.length_le.trans h.length_le, fun b hb => h.found b (hsuffix.subset hb)⟩

/-- The branch of an id, against the whole way. -/
theorem getPath (h : WayFrom s id way) :
    ∃ walked, s.getPathToRootOrCompaction (some id) = .ok walked.reverse ∧ walked <+: way ∧
      ∀ c ∈ way, c ∈ walked ↔ BranchReaches s.byId c id := by
  obtain ⟨entry, hget, hway⟩ := h.start
  obtain ⟨walked, hwalked, hfront, hmem⟩ :=
    walkBack_way hway h.nodup (Nat.le_succ_of_le h.length_le) none
  refine ⟨walked, ?_, hfront, fun c hc => ?_⟩
  · simp only [Storage.getPathToRootOrCompaction, hget, hwalked]
    rfl
  · rw [hmem c hc]
    constructor
    · exact fun hpasses => ⟨entry, hget, hpasses⟩
    · rintro ⟨start, hstart, hpasses⟩
      obtain rfl := some.inj (hget.symm.trans hstart)
      exact hpasses

/-- The collection from an id, against the whole way. -/
theorem collectUpTo (h : WayFrom s id way) (hkeyed : Keyed s.byId)
    (commonAncestorId : Option String) :
    collectUpTo s.byId commonAncestorId (s.byId.size + 1) (some id) =
      .ok (way.takeWhile fun x => some x.id ≠ commonAncestorId) := by
  obtain ⟨entry, hget, hway⟩ := h.start
  obtain ⟨rfl, -⟩ := hkeyed _ _ hget
  exact collectUpTo_way hway hkeyed hget (Nat.lt_succ_of_le h.length_le)

end WayFrom

/-! ## Where two ways meet -/

/-- Two ways that meet are one from there. -/
theorem ways_meet {id id' : String} {way way' : List TreeEntry} (h : WayFrom s id way)
    (h' : WayFrom s id' way') : (∀ a ∈ way', a ∉ way) ∨
      ∃ x x' c y, way = x ++ c :: y ∧ way' = x' ++ c :: y ∧ ∀ a ∈ x', a ∉ way := by
  by_cases hmeet : ∀ a ∈ way', a ∉ way
  · exact .inl hmeet
  · right
    have hsome : (way'.find? (· ∈ way)).isSome = true := by
      rw [find?_isSome]
      simpa using hmeet
    obtain ⟨c, hfind⟩ := Option.isSome_iff_exists.1 hsome
    obtain ⟨hc, x', y, heq, hbefore⟩ := List.find?_eq_some_iff_append.1 hfind
    obtain ⟨x, y', hway⟩ := append_of_mem (of_decide_eq_true hc)
    obtain ⟨e, hget, hrest⟩ := (hway ▸ h).suffix.start
    obtain ⟨e', hget', hrest'⟩ := (heq ▸ h').suffix.start
    obtain rfl : e = e' := some.inj (hget.symm.trans hget')
    obtain rfl : y' = y := (List.cons.inj (hrest.unique hrest')).2
    refine ⟨x, x', c, y', hway, heq, fun a ha => ?_⟩
    simpa using hbefore a ha

/-- A part of the front that goes beyond `x` holds what comes next. -/
theorem mem_of_front {x y part : List TreeEntry} {a c : TreeEntry}
    (hfront : part <+: x ++ c :: y) (ha : a ∈ part) (hx : a ∉ x) : c ∈ part := by
  rcases prefix_or_prefix_of_prefix hfront (prefix_append x (c :: y)) with h | ⟨z, rfl⟩
  · exact absurd (h.subset ha) hx
  · have hz := (prefix_append_right_inj x).1 hfront
    cases z with
    | nil => exact absurd (by simpa using ha) hx
    | cons b z =>
      obtain ⟨rfl, -⟩ := List.cons_prefix_cons.1 hz
      simp

/-! ## The collection covers what is left -/

variable {targetId id : String} {oldWay targetWay x x' y : List TreeEntry} {a c : TreeEntry}

theorem common_iff (hold : WayFrom s id oldWay) (htarget : WayFrom s targetId targetWay) :
    Common s.byId (some id) targetId a ↔ a ∈ oldWay ∧ a ∈ targetWay := by
  have honly : (∃ i ∈ some id, OnWay s.byId a i) ↔ OnWay s.byId a id := by simp
  rw [Common, honly, hold.onWay_iff, htarget.onWay_iff]

/-- Where two ways meet is the deepest common ancestor. -/
theorem deepestCommon_iff (hold : WayFrom s id (x ++ c :: y))
    (htarget : WayFrom s targetId (x' ++ c :: y)) (hapart : ∀ a ∈ x', a ∉ x ++ c :: y) :
    DeepestCommon s.byId (some id) targetId a ↔ a = c := by
  have hcommon : ∀ a, Common s.byId (some id) targetId a ↔ a ∈ c :: y := by
    intro a
    rw [common_iff hold htarget]
    constructor
    · rintro ⟨ha, ha'⟩
      exact (List.mem_append.1 ha').resolve_left fun hx => hapart a hx ha
    · exact fun ha => ⟨mem_append_right _ ha, mem_append_right _ ha⟩
  constructor
  · rintro ⟨ha, hall⟩
    have habove := hall c ((hcommon c).2 mem_cons_self)
    rcases List.mem_cons.1 ((hcommon a).1 ha) with heq | hmem
    · exact heq
    · -- below `a` there is no `c` again
      obtain ⟨before, later, rfl⟩ := append_of_mem hmem
      have hrest : WayFrom s a.id (a :: later) := (hold.suffix (x := x)).suffix (x := c :: before)
      have hagain := hrest.onWay_iff.1 habove
      have hnodup := (hold.suffix (x := x)).nodup
      exact absurd (mem_append_right before hagain) (List.nodup_cons.1 hnodup).1
  · rintro rfl
    refine ⟨(hcommon a).2 mem_cons_self, fun other hother => ?_⟩
    exact (hold.suffix (x := x)).onWay_iff.2 ((hcommon other).1 hother)

/-- The entries of a part of a way, from the root on, are in order. -/
theorem pairwise_reverse (hold : WayFrom s id oldWay) {part : List TreeEntry}
    (hpart : part <+: oldWay) : part.reverse.Pairwise fun a b => a ≠ b ∧ OnWay s.byId a b.id := by
  rw [List.pairwise_reverse]
  obtain ⟨rest, rfl⟩ := hpart
  induction part generalizing id with
  | nil => exact .nil
  | cons b part ih =>
    have hnodup := List.nodup_cons.1 hold.nodup
    refine List.pairwise_cons.2 ⟨fun a ha => ⟨?_, ?_⟩, ?_⟩
    · rintro rfl
      exact hnodup.1 (mem_append_left _ ha)
    · exact (hold.suffix (x := [])).onWay_iff.2 (mem_cons_of_mem _ (mem_append_left _ ha))
    · cases part with
      | nil => exact .nil
      | cons a part => exact ih (hold.suffix (x := [b]))

theorem mem_ids_of_front (hold : WayFrom s id oldWay) (htarget : WayFrom s targetId targetWay)
    {walked : List TreeEntry} (hwalked : walked <+: oldWay) (ha : a ∈ targetWay) :
    a.id ∈ walked.reverse.map (·.id) ↔ a ∈ walked := by
  simp only [mem_map, mem_reverse]
  constructor
  · rintro ⟨b, hb, hid⟩
    have hfound := hold.found b (hwalked.subset hb)
    rw [hid, htarget.found a ha] at hfound
    rwa [some.inj hfound]
  · exact fun hmem => ⟨a, hmem, rfl⟩

theorem find?_congr {p q : TreeEntry → Bool} {l : List TreeEntry} (h : ∀ a ∈ l, p a = q a) :
    l.find? p = l.find? q := by
  induction l with
  | nil => rfl
  | cons a l ih =>
    rw [find?_cons, find?_cons, h a mem_cons_self,
      ih fun b hb => h b (mem_cons_of_mem _ hb)]

/-- What the collection returns, by the two ways and what the branches hold of them. -/
theorem collectEntries_eq (h : s.Sound) (hold : WayFrom s id oldWay)
    (htarget : WayFrom s targetId targetWay) :
    ∃ walked walked' common, walked <+: oldWay ∧ walked' <+: targetWay ∧
      (∀ a ∈ oldWay, a ∈ walked ↔ BranchReaches s.byId a id) ∧
      (∀ a ∈ targetWay, a ∈ walked' ↔ BranchReaches s.byId a targetId) ∧
      common = (walked'.find? (· ∈ walked)).map (·.id) ∧
      s.collectEntriesForBranchSummary (some id) targetId =
        .ok ⟨(oldWay.takeWhile fun x => some x.id ≠ common).reverse, common⟩ := by
  obtain ⟨walked, hwalked, hfront, hmem⟩ := hold.getPath
  obtain ⟨walked', hwalked', hfront', hmem'⟩ := htarget.getPath
  refine ⟨walked, walked', _, hfront, hfront', hmem, hmem', rfl, ?_⟩
  have hnamed : id ≠ "" := by
    obtain ⟨entry, hget, -⟩ := hold.start
    exact (h.keyed _ _ hget).2
  have hfind : walked'.find? (fun entry => decide (entry.id ∈ walked.reverse.map (·.id))) =
      walked'.find? (· ∈ walked) := by
    refine find?_congr fun a ha => ?_
    rw [decide_eq_decide, mem_ids_of_front hold htarget hfront (hfront'.subset ha)]
  unfold Storage.collectEntriesForBranchSummary
  rw [if_neg (by simpa using hnamed), hwalked, hwalked']
  simp only [bind, Except.bind, reverse_reverse, hfind, hold.collectUpTo h.keyed]
  rfl

/-- Ways that do not meet: everything is collected, and rightly. -/
theorem covers_of_apart (hold : WayFrom s id oldWay) (htarget : WayFrom s targetId targetWay)
    (hapart : ∀ a ∈ targetWay, a ∉ oldWay) :
    CoversAbandoned s.byId (some id) targetId ⟨oldWay.reverse, none⟩ where
  deepest c := by
    refine iff_of_false (by simp) ?_
    rintro ⟨a, -, ha, -⟩
    rw [common_iff hold htarget] at ha
    exact hapart a ha.2 ha.1
  mem a := by
    have honly : (∃ i ∈ some id, OnWay s.byId a i) ↔ OnWay s.byId a id := by simp
    rw [mem_reverse, honly, hold.onWay_iff, htarget.onWay_iff]
    exact ⟨fun ha => ⟨ha, fun ha' => hapart a ha' ha⟩, And.left⟩
  ordered := pairwise_reverse hold (prefix_refl _)

/-- Ways that meet: what is before is rightly collected. -/
theorem covers_of_meet (hold : WayFrom s id (x ++ c :: y))
    (htarget : WayFrom s targetId (x' ++ c :: y)) (hapart : ∀ a ∈ x', a ∉ x ++ c :: y) :
    CoversAbandoned s.byId (some id) targetId ⟨x.reverse, some c.id⟩ where
  deepest d := by
    constructor
    · intro heq
      exact ⟨c, some.inj heq, (deepestCommon_iff hold htarget hapart).2 rfl⟩
    · rintro ⟨a, rfl, ha⟩
      rw [(deepestCommon_iff hold htarget hapart).1 ha]
  mem a := by
    have honly : (∃ i ∈ some id, OnWay s.byId a i) ↔ OnWay s.byId a id := by simp
    rw [mem_reverse, honly, hold.onWay_iff, htarget.onWay_iff]
    constructor
    · refine fun ha => ⟨mem_append_left _ ha, fun ha' => ?_⟩
      rcases List.mem_append.1 ha' with hx | hrest
      · exact hapart a hx (mem_append_left _ ha)
      · exact (List.nodup_append.1 hold.nodup).2.2 a ha a hrest rfl
    · rintro ⟨ha, hnot⟩
      exact (List.mem_append.1 ha).resolve_right fun hrest =>
        hnot (mem_append_right _ hrest)
  ordered := pairwise_reverse hold (prefix_append _ _)

/-- The entries before the meeting have other ids. -/
theorem takeWhile_of_meet (hold : WayFrom s id (x ++ c :: y)) :
    ((x ++ c :: y).takeWhile fun e => some e.id ≠ some c.id) = x := by
  rw [takeWhile_append_of_pos, takeWhile_cons_of_neg (by simp), append_nil]
  intro e he
  have hne : e.id ≠ c.id := by
    intro heq
    have hfound := hold.found e (by simp [he])
    rw [heq, hold.found c (by simp)] at hfound
    obtain rfl := some.inj hfound
    exact (List.nodup_append.1 hold.nodup).2.2 c he c mem_cons_self rfl
  simpa using hne

/-- Where both branches reach the meeting, it is found. -/
theorem find?_meet (htarget : WayFrom s targetId (x' ++ c :: y))
    (hapart : ∀ a ∈ x', a ∉ x ++ c :: y) {walked walked' : List TreeEntry}
    (hwalked : walked <+: x ++ c :: y) (hwalked' : walked' <+: x' ++ c :: y) (hc : c ∈ walked)
    (hc' : c ∈ walked') : walked'.find? (· ∈ walked) = some c := by
  obtain ⟨before, later, rfl⟩ := append_of_mem hc'
  obtain ⟨rest, heq⟩ := hwalked'
  rw [append_assoc, cons_append] at heq
  have hnodup := htarget.nodup
  have hfresh : c ∉ x' ∧ c ∉ y :=
    ⟨fun hx => (List.nodup_append.1 hnodup).2.2 c hx c mem_cons_self rfl,
      (List.nodup_cons.1 (List.nodup_append.1 hnodup).2.1).1⟩
  obtain ⟨rfl, -, -⟩ := (append_cons_inj_of_notMem hfresh.1 hfresh.2).1 heq.symm
  rw [find?_eq_some_iff_append]
  refine ⟨by simpa using hc, x', later, rfl, fun a ha => ?_⟩
  simpa using fun hmem => hapart a ha (hwalked.subset hmem)

/-- **The summary covers exactly the abandoned part where the ways do not meet, or both branches
reach the entry where they do.** -/
theorem collectEntries_covers_iff (h : Reachable s) (oldLeafId : Option String)
    (hold : ∀ id ∈ oldLeafId, s.byId.has id = true) (htarget : s.byId.has targetId = true) :
    ∃ result, s.collectEntriesForBranchSummary oldLeafId targetId = .ok result ∧
      (CoversAbandoned s.byId oldLeafId targetId result ↔
        ∀ id ∈ oldLeafId, ∀ c, DeepestCommon s.byId oldLeafId targetId c →
          BranchReaches s.byId c id ∧ BranchReaches s.byId c targetId) := by
  cases oldLeafId with
  | none =>
    refine ⟨⟨[], none⟩, rfl, iff_of_true ⟨?_, ?_, .nil⟩ (by simp)⟩
    · simp [DeepestCommon, Common]
    · simp
  | some id =>
    obtain ⟨oldWay, hold⟩ := h.sound.wayFrom (hold id rfl)
    obtain ⟨targetWay, htarget⟩ := h.sound.wayFrom htarget
    obtain ⟨walked, walked', common, hwalked, hwalked', hreach, hreach', hcommon, hresult⟩ :=
      collectEntries_eq h.sound hold htarget
    refine ⟨_, hresult, ?_⟩
    rcases ways_meet hold htarget with hapart | ⟨x, x', c, y, rfl, rfl, hapart⟩
    · have hnone : common = none := by
        rw [hcommon, List.find?_eq_none.2, Option.map_none]
        intro a ha
        simpa using fun hmem => hapart a (hwalked'.subset ha) (hwalked.subset hmem)
      subst hnone
      have hall : (oldWay.takeWhile fun x => decide (some x.id ≠ none)) = oldWay := by
        rw [takeWhile_eq_self_iff]
        simp
      rw [hall]
      refine iff_of_true (covers_of_apart hold htarget hapart) fun _ _ c hc => ?_
      exact absurd ((common_iff hold htarget).1 hc.1).1
        (hapart c ((common_iff hold htarget).1 hc.1).2)
    · have hdeep : (∀ i ∈ some id, ∀ d, DeepestCommon s.byId (some id) targetId d →
          BranchReaches s.byId d i ∧ BranchReaches s.byId d targetId) ↔
          c ∈ walked ∧ c ∈ walked' := by
        simp only [Option.mem_some_iff, deepestCommon_iff hold htarget hapart]
        simp [hreach c (by simp), hreach' c (by simp)]
      rw [hdeep]
      by_cases hboth : c ∈ walked ∧ c ∈ walked'
      · have hsome : common = some c.id := by
          rw [hcommon, find?_meet htarget hapart hwalked hwalked' hboth.1 hboth.2]
          rfl
        subst hsome
        rw [takeWhile_of_meet hold]
        exact iff_of_true (covers_of_meet hold htarget hapart) hboth
      · have hnone : common = none := by
          rw [hcommon, List.find?_eq_none.2, Option.map_none]
          intro a ha'
          rw [decide_eq_true_eq]
          intro ha
          have hx' : a ∉ x' := fun hx => hapart a hx (hwalked.subset ha)
          have hrest : a ∈ c :: y :=
            (List.mem_append.1 (hwalked'.subset ha')).resolve_left hx'
          have hx : a ∉ x := fun hx => (List.nodup_append.1 hold.nodup).2.2 a hx a hrest rfl
          exact hboth ⟨mem_of_front hwalked ha hx, mem_of_front hwalked' ha' hx'⟩
        subst hnone
        refine iff_of_false (fun hcovers => ?_) hboth
        have hdeepest := (deepestCommon_iff (a := c) hold htarget hapart).2 rfl
        exact absurd ((hcovers.deepest c.id).2 ⟨c, rfl, hdeepest⟩) (by simp)

/-- An entry, a checkpoint below it and an entry below the checkpoint. -/
def checkpointed : List TreeEntry :=
  [⟨"a", none, "", .sessionInfo none⟩,
    ⟨"b", some "a", "", .compaction ⟨"", none, 0, some [], none, none, none⟩⟩,
    ⟨"c", some "b", "", .sessionInfo none⟩]

theorem checkpointed_wellFormed : WellFormed checkpointed := by
  have ha : WellFormed (checkpointed.take 1) :=
    .snoc .nil ⟨by decide, by decide, by decide, rfl⟩
  have hb : WellFormed (checkpointed.take 2) :=
    .snoc ha ⟨by decide, by decide, by decide, rfl⟩
  exact .snoc hb ⟨by decide, by decide, by decide, rfl⟩

/-- From below the checkpoint to the checkpoint the collection is right. -/
theorem collectEntries_covers_iff_checkpointed :
    ∃ result, (Storage.ofEntries checkpointed).collectEntriesForBranchSummary (some "c") "b" =
        .ok result ∧ CoversAbandoned (indexOf checkpointed) (some "c") "b" result := by
  obtain ⟨result, hresult, hiff⟩ := collectEntries_covers_iff (.start checkpointed_wellFormed)
    (some "c") (by decide) (by decide : (indexOf checkpointed).has "b" = true)
  have hold : WayFrom (Storage.ofEntries checkpointed) "c"
      ([⟨"c", some "b", "", .sessionInfo none⟩] ++
        ⟨"b", some "a", "", .compaction ⟨"", none, 0, some [], none, none, none⟩⟩ ::
          [⟨"a", none, "", .sessionInfo none⟩]) :=
    ⟨⟨_, rfl, .up (by decide) rfl (.up (by decide) rfl (.root rfl))⟩, by decide, by decide,
      by decide⟩
  refine ⟨result, hresult, hiff.2 fun id hid e he => ?_⟩
  obtain rfl := (@deepestCommon_iff _ _ _ _ [] _ _ _ hold hold.suffix (by simp)).1 he
  obtain rfl := Option.mem_some.1 hid
  exact ⟨⟨_, rfl, .up (by decide) (by decide) (by decide) rfl (.here _)⟩, ⟨_, rfl, .here _⟩⟩

/-- The walk from `c` ends at the checkpoint `b`, so `a` is not found and is collected as well. -/
theorem checkpoint_hides_ancestor :
    ∃ result, (Storage.ofEntries checkpointed).collectEntriesForBranchSummary (some "c") "a" =
        .ok result ∧ ¬CoversAbandoned (indexOf checkpointed) (some "c") "a" result := by
  refine ⟨⟨checkpointed, none⟩, by decide, fun h => ?_⟩
  have hcollected := (h.mem ⟨"a", none, "", .sessionInfo none⟩).1 (by decide)
  exact hcollected.2 ⟨_, [_], rfl, .root rfl, mem_singleton_self _⟩

end BeauPi.Harness
