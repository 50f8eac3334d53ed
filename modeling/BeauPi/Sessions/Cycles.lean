import BeauPi.Machine.Walks
import BeauPi.Sessions.Paths

/-!
# Opening sessions with arbitrary parents

The entries of a session file are not checked, so ids may repeat and parents may form cycles.

* `buildSessionPathIn`, `getBranchIn`, `collectEntriesIn`, `getTreeIn` — the loops of the source,
  limited to a number of turns.
* `OpensWell` — every loop ends and the tree holds every entry once.
* `opensWell_iff` — it does exactly if the ids differ and no entry is its own ancestor.
-/

namespace BeauPi.Sessions

open Machine Relation List
open Option (some.inj some_or)

/-! ## Walks to the root -/

/-- The entry with an id; the empty id names none. -/
def lookup (index : EntryIndex) (id : Option String) : Option SessionEntry :=
  match id with
  | none => none
  | some id => if id = "" then none else index.get? id

/-- `buildSessionPath` with `n` turns of its loop; `none` if they are not enough. -/
def buildSessionPathIn (n : Nat) (entries : List SessionEntry)
    (leafId : Option (Option String)) : Option (List SessionEntry) :=
  let index := buildEntryIndex entries none
  if leafId = some none then some []
  else
    let leaf := (lookup index (leafId.getD none)).or entries.getLast?
    (walk (parentOf index) n leaf).map List.reverse

/-- `getBranch` with `n` turns of its loop, in a session at `leafId`. -/
def getBranchIn (n : Nat) (index : EntryIndex) (leafId fromId : Option String) :
    Option (List SessionEntry) :=
  (walk (parentOf index) n (lookup index (fromId.or leafId))).map List.reverse

/-- The next entry to summarize, unless it is the common ancestor. -/
def lookupBelow (index : EntryIndex) (commonAncestorId id : Option String) :
    Option SessionEntry :=
  if id = commonAncestorId then none else lookup index id

/-- `CollectEntriesResult` -/
structure CollectEntriesResult where
  entries : List SessionEntry
  commonAncestorId : Option String
  deriving DecidableEq, Repr

/-- `collectEntriesForBranchSummary` with `n` turns for each of its loops. -/
def collectEntriesIn (n : Nat) (index : EntryIndex) (leafId oldLeafId : Option String)
    (targetId : String) : Option CollectEntriesResult :=
  match oldLeafId with
  | none => some ⟨[], none⟩
  | some oldId =>
    if oldId = "" then some ⟨[], none⟩
    else do
      let oldPath ← getBranchIn n index leafId (some oldId)
      let targetPath ← getBranchIn n index leafId (some targetId)
      let common := targetPath.reverse.find? fun entry => entry.id ∈ oldPath.map (·.id)
      let commonAncestorId := common.map (·.id)
      let entries ← walk (fun entry => lookupBelow index commonAncestorId entry.parentId) n
        (lookupBelow index commonAncestorId (some oldId))
      return ⟨entries.reverse, commonAncestorId⟩

/-! ## The tree -/

/-- `SessionTreeNode`; a child is the node with its id. -/
structure SessionTreeNode where
  entry : SessionEntry
  children : List String
  label : Option String
  labelTimestamp : Option String
  deriving DecidableEq, Repr

/-- The nodes of `getTree` and its roots. -/
structure SessionTree where
  nodeMap : OrderedMap String SessionTreeNode
  roots : List String

/-- The label of an entry with its timestamp, after `_buildIndex`. -/
def labelsById (entries : List SessionEntry) : OrderedMap String (String × String) :=
  entries.foldl (fun labels entry =>
    match entry.body with
    | .label targetId label =>
      match label with
      | none => labels.delete targetId
      | some label =>
        if label = "" then labels.delete targetId
        else labels.set targetId (label, entry.timestamp)
    | _ => labels) .empty

/-- The first loop of `getTree`: the nodes. -/
def createNodes (labels : OrderedMap String (String × String)) (entries : List SessionEntry) :
    OrderedMap String SessionTreeNode :=
  entries.foldl (fun nodes entry =>
    nodes.set entry.id ⟨entry, [], (labels.get? entry.id).map (·.1),
      (labels.get? entry.id).map (·.2)⟩) .empty

/-- One turn of the second loop of `getTree`: the node becomes a root or a child. -/
def attach (tree : SessionTree) (entry : SessionEntry) : SessionTree :=
  match entry.parentId with
  | none => { tree with roots := tree.roots ++ [entry.id] }
  | some parentId =>
    if parentId = entry.id then { tree with roots := tree.roots ++ [entry.id] }
    else
      match tree.nodeMap.get? parentId with
      | none => { tree with roots := tree.roots ++ [entry.id] }
      | some parent =>
        { tree with nodeMap :=
            tree.nodeMap.set parentId { parent with children := parent.children ++ [entry.id] } }

/-- The order by timestamp; one that is no date is equal to every other. -/
def notAfter (nodeMap : OrderedMap String SessionTreeNode) (a b : String) : Bool :=
  let time (id : String) := (nodeMap.get? id).bind fun node => Js.getTime node.entry.timestamp
  match time a, time b with
  | some s, some t => decide (s ≤ t)
  | _, _ => true

/-- One turn of the last loop of `getTree`: the children are sorted and go on the stack. -/
def sortNode (tree : SessionTree) (id : String) : SessionTree × List String :=
  match tree.nodeMap.get? id with
  | none => (tree, [])
  | some node =>
    let children := node.children.mergeSort (notAfter tree.nodeMap)
    ({ tree with nodeMap := tree.nodeMap.set id { node with children := children } }, children)

/-- The tree before its children are sorted. -/
def linkedTree (entries : List SessionEntry) : SessionTree :=
  entries.foldl attach ⟨createNodes (labelsById entries) entries, []⟩

/-- `getTree` with `n` turns of its last loop.  The loop comes to each place in the forest once;
the ids at these places are returned with the tree. -/
def getTreeIn (n : Nat) (entries : List SessionEntry) : Option (SessionTree × List String) :=
  sweep sortNode n (linkedTree entries) (linkedTree entries).roots.reverse

/-! ## What opening should do -/

/-- Whatever is asked of a session, the loops end, and the tree holds every id once. -/
structure OpensWell (entries : List SessionEntry) : Prop where
  path : ∀ leafId, ∃ n path, buildSessionPathIn n entries leafId = some path
  branch : ∀ leafId fromId, ∃ n path,
    getBranchIn n (buildEntryIndex entries none) leafId fromId = some path
  collect : ∀ leafId oldLeafId targetId, ∃ n result,
    collectEntriesIn n (buildEntryIndex entries none) leafId oldLeafId targetId = some result
  tree : ∃ n tree ids, getTreeIn n entries = some (tree, ids) ∧ ids.Nodup ∧
    ∀ id, id ∈ ids ↔ id ∈ entries.map (·.id)

/-- An entry names the parent that is found, unless both ids are empty. -/
def Refers (entries : List SessionEntry) (id parentId : String) : Prop :=
  ∃ entry ∈ entries, entry.id = id ∧ entry.parentId = some parentId ∧
    parentId ∈ entries.map (·.id) ∧ ¬(id = "" ∧ parentId = "")

/-- The ids differ, and no entry is its own ancestor. -/
def IsForest (entries : List SessionEntry) : Prop :=
  (entries.map (·.id)).Nodup ∧ ∀ id, ¬TransGen (Refers entries) id id

variable {entries : List SessionEntry} {index : EntryIndex} {e f : SessionEntry} {id p : String}
  {n : Nat}

/-! ## The index -/

theorem mem_foldl_set (entries : List SessionEntry) (index : EntryIndex)
    (h : (entries.foldl (fun index entry => index.set entry.id entry) index).get? id = some e) :
    index.get? id = some e ∨ (e ∈ entries ∧ e.id = id) := by
  induction entries generalizing index with
  | nil => exact .inl h
  | cons first rest ih =>
    rcases ih _ h with hset | ⟨hmem, hid⟩
    · by_cases hfirst : id = first.id
      · rw [hfirst, OrderedMap.get?_set_self] at hset
        obtain rfl := some.inj hset
        exact .inr ⟨mem_cons_self, hfirst.symm⟩
      · rw [OrderedMap.get?_set_ne _ _ hfirst] at hset
        exact .inl hset
    · exact .inr ⟨mem_cons_of_mem _ hmem, hid⟩

theorem mem_of_get? (h : (buildEntryIndex entries none).get? id = some e) :
    e ∈ entries ∧ e.id = id := by
  rcases mem_foldl_set entries .empty h with hempty | h
  · simp at hempty
  · exact h

/-- An entry whose parent is found refers to it. -/
theorem refers_of_stepsTo (he : e ∈ entries)
    (h : StepsTo (parentOf (buildEntryIndex entries none)) e f) :
    f ∈ entries ∧ Refers entries e.id f.id := by
  unfold StepsTo parentOf at h
  cases hparent : e.parentId with
  | none => simp [hparent] at h
  | some p =>
    simp only [hparent] at h
    split_ifs at h with hp
    obtain ⟨hf, hid⟩ := mem_of_get? h
    refine ⟨hf, e, he, rfl, by rw [hparent, hid], mem_map_of_mem hf, ?_⟩
    rw [hid]
    exact fun hboth => hp hboth.2

theorem transGen_refers (he : e ∈ entries)
    (h : TransGen (StepsTo (parentOf (buildEntryIndex entries none))) e f) :
    f ∈ entries ∧ TransGen (Refers entries) e.id f.id := by
  induction h with
  | single h =>
    obtain ⟨hf, href⟩ := refers_of_stepsTo he h
    exact ⟨hf, .single href⟩
  | tail _ h ih =>
    obtain ⟨hf, href⟩ := refers_of_stepsTo ih.1 h
    exact ⟨hf, ih.2.tail href⟩

/-! ## Walks end -/

theorem lookup_mem {id : Option String}
    (h : lookup (buildEntryIndex entries none) id = some e) : e ∈ entries := by
  unfold lookup at h
  cases id with
  | none => cases h
  | some id =>
    dsimp only at h
    split_ifs at h
    exact (mem_of_get? h).1

theorem lookup_of_lookupBelow {common id : Option String}
    (h : lookupBelow index common id = some e) : lookup index id = some e := by
  unfold lookupBelow at h
  split_ifs at h
  exact h

theorem parentOf_eq_lookup (index : EntryIndex) (entry : SessionEntry) :
    parentOf index entry = lookup index entry.parentId := by
  unfold parentOf lookup
  cases entry.parentId <;> rfl

/-- Without a cycle the way from every entry to its root ends. -/
theorem walk_parents_ends (hforest : IsForest entries) (start : Option SessionEntry)
    (hstart : ∀ e, start = some e → e ∈ entries) :
    ∃ n path, walk (parentOf (buildEntryIndex entries none)) n start = some path := by
  cases start with
  | none => exact ⟨0, [], rfl⟩
  | some e =>
    refine walk_ends (fun a ha b hab => (refers_of_stepsTo ha hab).1)
      (fun a ha hcycle => ?_) (hstart e rfl)
    exact hforest.2 a.id (transGen_refers ha hcycle).2

theorem getBranch_ends (hforest : IsForest entries) (leafId fromId : Option String) :
    ∃ n path, getBranchIn n (buildEntryIndex entries none) leafId fromId = some path := by
  obtain ⟨n, path, hpath⟩ := walk_parents_ends hforest
    (lookup (buildEntryIndex entries none) (fromId.or leafId)) fun _ => lookup_mem
  exact ⟨n, path.reverse, by rw [getBranchIn, hpath]; rfl⟩

theorem getBranch_le {leafId fromId : Option String} {m : Nat} {path : List SessionEntry}
    (hle : n ≤ m) (h : getBranchIn n index leafId fromId = some path) :
    getBranchIn m index leafId fromId = some path := by
  unfold getBranchIn at h ⊢
  obtain ⟨back, hback, rfl⟩ := Option.map_eq_some_iff.1 h
  rw [walk_le hle hback]
  rfl

theorem buildSessionPath_ends (hforest : IsForest entries) (leafId : Option (Option String)) :
    ∃ n path, buildSessionPathIn n entries leafId = some path := by
  by_cases hnull : leafId = some none
  · exact ⟨0, [], by rw [buildSessionPathIn, if_pos hnull]⟩
  · obtain ⟨n, path, hpath⟩ := walk_parents_ends hforest
      ((lookup (buildEntryIndex entries none) (leafId.getD none)).or entries.getLast?)
      fun e he => by
        cases hnamed : lookup (buildEntryIndex entries none) (leafId.getD none) with
        | none =>
          rw [hnamed, Option.none_or] at he
          exact mem_of_getLast? he
        | some f =>
          rw [hnamed, some_or] at he
          exact some.inj he ▸ lookup_mem hnamed
    exact ⟨n, path.reverse, by simp only [buildSessionPathIn, if_neg hnull, hpath, Option.map_some]⟩

/-- The walk to the common ancestor is a part of the way to the root. -/
theorem below_ends (hforest : IsForest entries) (common id : Option String) :
    ∃ n below,
      walk (fun entry => lookupBelow (buildEntryIndex entries none) common entry.parentId) n
        (lookupBelow (buildEntryIndex entries none) common id) = some below := by
  cases hstart : lookupBelow (buildEntryIndex entries none) common id with
  | none => exact ⟨0, [], rfl⟩
  | some e =>
    have he : e ∈ entries := lookup_mem (lookup_of_lookupBelow hstart)
    obtain ⟨n, path, hpath⟩ := walk_parents_ends hforest (some e)
      fun f hf => some.inj hf ▸ he
    have hsub : ∀ a b, StepsTo (fun entry : SessionEntry =>
        lookupBelow (buildEntryIndex entries none) common entry.parentId) a b →
        StepsTo (parentOf (buildEntryIndex entries none)) a b := by
      intro a b hab
      rw [StepsTo, parentOf_eq_lookup]
      exact lookup_of_lookupBelow hab
    obtain ⟨path', hpath'⟩ := walk_sub hsub hpath
    exact ⟨n, path', hpath'⟩

theorem collect_ends (hforest : IsForest entries) (leafId oldLeafId : Option String)
    (targetId : String) : ∃ n result,
      collectEntriesIn n (buildEntryIndex entries none) leafId oldLeafId targetId =
        some result := by
  unfold collectEntriesIn
  cases oldLeafId with
  | none => exact ⟨0, _, rfl⟩
  | some oldId =>
    by_cases hempty : oldId = ""
    · exact ⟨0, ⟨[], none⟩, by simp only [if_pos hempty]⟩
    · obtain ⟨n₁, oldPath, hold⟩ := getBranch_ends hforest leafId (some oldId)
      obtain ⟨n₂, targetPath, htarget⟩ := getBranch_ends hforest leafId (some targetId)
      obtain ⟨n₃, below, hbelow⟩ := below_ends hforest
        ((targetPath.reverse.find? fun entry => entry.id ∈ oldPath.map (·.id)).map (·.id))
        (some oldId)
      refine ⟨max n₁ (max n₂ n₃), ⟨below.reverse, (targetPath.reverse.find? fun entry =>
        entry.id ∈ oldPath.map (·.id)).map (·.id)⟩, ?_⟩
      simp only [if_neg hempty, getBranch_le (le_max_left n₁ _) hold,
        getBranch_le (le_max_of_le_right (le_max_left n₂ n₃)) htarget, Option.bind_eq_bind,
        Option.bind_some, walk_le (le_max_of_le_right (le_max_right n₂ n₃)) hbelow]
      rfl

/-! ## Links of the tree -/

/-- The node that an entry becomes a child of. -/
def parentKey (ids : List String) (entry : SessionEntry) : Option String :=
  match entry.parentId with
  | none => none
  | some parentId => if parentId = entry.id ∨ parentId ∉ ids then none else some parentId

/-- The children of a node. -/
def childrenOf (nodeMap : OrderedMap String SessionTreeNode) (id : String) : List String :=
  ((nodeMap.get? id).map (·.children)).getD []

/-- The entries with a parent, or without one. -/
def idsUnder (entries : List SessionEntry) (ids : List String) (key : Option String) :
    List String :=
  (entries.filter fun entry => parentKey ids entry = key).map (·.id)

theorem get?_createNodes (labels : OrderedMap String (String × String))
    (entries : List SessionEntry) (id : String) :
    ((createNodes labels entries).get? id).isSome = decide (id ∈ entries.map (·.id)) ∧
      childrenOf (createNodes labels entries) id = [] := by
  unfold createNodes
  suffices h : ∀ nodes : OrderedMap String SessionTreeNode, childrenOf nodes id = [] →
      ((entries.foldl (fun nodes entry =>
        nodes.set entry.id ⟨entry, [], (labels.get? entry.id).map (·.1),
          (labels.get? entry.id).map (·.2)⟩) nodes).get? id).isSome =
        ((nodes.get? id).isSome || decide (id ∈ entries.map (·.id))) ∧
      childrenOf (entries.foldl (fun nodes entry =>
        nodes.set entry.id ⟨entry, [], (labels.get? entry.id).map (·.1),
          (labels.get? entry.id).map (·.2)⟩) nodes) id = [] by
    simpa using h .empty rfl
  induction entries with
  | nil =>
    intro nodes hnodes
    exact ⟨by simp, hnodes⟩
  | cons first rest ih =>
    intro nodes hnodes
    obtain ⟨hsome, hchildren⟩ := ih (nodes.set first.id ⟨first, [],
      (labels.get? first.id).map (·.1), (labels.get? first.id).map (·.2)⟩) (by
        unfold childrenOf at hnodes ⊢
        rw [OrderedMap.get?_set]
        split_ifs
        · rfl
        · exact hnodes)
    refine ⟨?_, hchildren⟩
    rw [foldl_cons, hsome, OrderedMap.get?_set]
    by_cases hid : id = first.id <;> simp [hid]

variable {ids : List String} {tree : SessionTree}

/-- One turn of the loop puts the entry under its parent or among the roots. -/
theorem attach_spec (hids : ∀ id, (tree.nodeMap.get? id).isSome = decide (id ∈ ids))
    (entry : SessionEntry) :
    (∀ id, ((attach tree entry).nodeMap.get? id).isSome = decide (id ∈ ids)) ∧
      (attach tree entry).roots = tree.roots ++ idsUnder [entry] ids none ∧
      ∀ p, childrenOf (attach tree entry).nodeMap p =
        childrenOf tree.nodeMap p ++ idsUnder [entry] ids (some p) := by
  unfold attach idsUnder
  have hroot : parentKey ids entry = none →
      [entry].filter (fun e => decide (parentKey ids e = none)) = [entry] ∧
      ∀ p, [entry].filter (fun e => decide (parentKey ids e = some p)) = [] := by
    intro h
    simp [h]
  cases hparent : entry.parentId with
  | none =>
    have hkey : parentKey ids entry = none := by rw [parentKey, hparent]
    simp [(hroot hkey).1, (hroot hkey).2, hids]
  | some p =>
    dsimp only
    by_cases hself : p = entry.id
    · have hkey : parentKey ids entry = none := by simp [parentKey, hparent, hself]
      simp [hself, (hroot hkey).1, (hroot hkey).2, hids]
    · rw [if_neg hself]
      have hp := hids p
      cases hget : tree.nodeMap.get? p with
      | none =>
        have hnot : p ∉ ids := by simpa [hget] using hp
        have hkey : parentKey ids entry = none := by simp [parentKey, hparent, hnot]
        simp [(hroot hkey).1, (hroot hkey).2, hids]
      | some parent =>
        have hin : p ∈ ids := by simpa [hget] using hp
        have hkey : parentKey ids entry = some p := by simp [parentKey, hparent, hself, hin]
        refine ⟨fun id => ?_, by simp [hkey], fun q => ?_⟩
        · dsimp only
          rw [OrderedMap.get?_set]
          by_cases hid : id = p
          · simp [hid, hin]
          · rw [if_neg hid, hids]
        · unfold childrenOf
          dsimp only
          rw [OrderedMap.get?_set]
          by_cases hq : q = p
          · subst hq
            simp [hget, hkey]
          · simp [hq, hkey, Ne.symm hq]

theorem idsUnder_cons (first : SessionEntry) (rest : List SessionEntry) (ids : List String)
    (key : Option String) :
    idsUnder (first :: rest) ids key = idsUnder [first] ids key ++ idsUnder rest ids key := by
  rw [idsUnder, idsUnder, idsUnder, ← map_append, ← filter_append,
    singleton_append]

/-- The second loop. -/
theorem foldl_attach_spec (rest : List SessionEntry) (tree : SessionTree)
    (hids : ∀ id, (tree.nodeMap.get? id).isSome = decide (id ∈ ids)) :
    (rest.foldl attach tree).roots = tree.roots ++ idsUnder rest ids none ∧
      ∀ p, childrenOf (rest.foldl attach tree).nodeMap p =
        childrenOf tree.nodeMap p ++ idsUnder rest ids (some p) := by
  induction rest generalizing tree with
  | nil => simp [idsUnder]
  | cons first rest ih =>
    obtain ⟨hids', hroots, hchildren⟩ := attach_spec hids first
    obtain ⟨hroots', hchildren'⟩ := ih _ hids'
    refine ⟨?_, fun p => ?_⟩
    · rw [foldl_cons, hroots', hroots, idsUnder_cons first rest, append_assoc]
    · rw [foldl_cons, hchildren', hchildren, idsUnder_cons first rest, append_assoc]

/-- **The roots are the entries without a parent, and the children of a node the entries that
name it as their parent.** -/
theorem linkedTree_spec (entries : List SessionEntry) :
    (linkedTree entries).roots = idsUnder entries (entries.map (·.id)) none ∧
      ∀ p, childrenOf (linkedTree entries).nodeMap p =
        idsUnder entries (entries.map (·.id)) (some p) := by
  obtain ⟨hroots, hchildren⟩ := foldl_attach_spec entries
    ⟨createNodes (labelsById entries) entries, []⟩
    fun id => (get?_createNodes (labelsById entries) entries id).1
  refine ⟨by rw [linkedTree, hroots, nil_append], fun p => ?_⟩
  rw [linkedTree, hchildren, (get?_createNodes (labelsById entries) entries p).2, nil_append]

/-- Sorting moves children, and a node is expanded to its children. -/
theorem expands_sortNode (kids : String → List String) :
    Expands sortNode kids fun tree => ∀ p, (childrenOf tree.nodeMap p).Perm (kids p) := by
  have hsort : ∀ tree id, (sortNode tree id).2.Perm (childrenOf tree.nodeMap id) ∧
      ∀ p, (childrenOf (sortNode tree id).1.nodeMap p).Perm (childrenOf tree.nodeMap p) := by
    intro tree id
    unfold sortNode
    cases hget : tree.nodeMap.get? id with
    | none => simp [childrenOf, hget]
    | some node =>
      refine ⟨by simpa [childrenOf, hget] using mergeSort_perm node.children _, fun p => ?_⟩
      unfold childrenOf
      dsimp only
      rw [OrderedMap.get?_set]
      by_cases hp : p = id
      · subst hp
        simpa [hget] using mergeSort_perm node.children _
      · simp [hp]
  exact {
    keeps := fun tree id hgood p => ((hsort tree id).2 p).trans (hgood p)
    perm := fun tree id hgood => (hsort tree id).1.trans (hgood id) }

/-! ## The tree of different ids -/

/-- The children of a node of the tree. -/
abbrev kidsOf (entries : List SessionEntry) (id : String) : List String :=
  idsUnder entries (entries.map (·.id)) (some id)

theorem mem_idsUnder {key : Option String} :
    id ∈ idsUnder entries ids key ↔ ∃ e ∈ entries, parentKey ids e = key ∧ e.id = id := by
  simp [idsUnder, and_assoc]

theorem eq_of_id (hnodup : (entries.map (·.id)).Nodup) (he : e ∈ entries) (hf : f ∈ entries)
    (h : e.id = f.id) : e = f :=
  inj_on_of_nodup_map hnodup he hf h

/-- An id stands under one key only. -/
theorem key_unique (hnodup : (entries.map (·.id)).Nodup) {key key' : Option String}
    (h : id ∈ idsUnder entries ids key) (h' : id ∈ idsUnder entries ids key') : key = key' := by
  obtain ⟨e, he, rfl, rfl⟩ := mem_idsUnder.1 h
  obtain ⟨f, hf, rfl, hid⟩ := mem_idsUnder.1 h'
  rw [eq_of_id hnodup he hf hid.symm]

theorem idsUnder_nodup (hnodup : (entries.map (·.id)).Nodup) (ids : List String)
    (key : Option String) : (idsUnder entries ids key).Nodup :=
  hnodup.sublist (List.filter_sublist.map _)

theorem treelike_kidsOf (hnodup : (entries.map (·.id)).Nodup) :
    Treelike (kidsOf entries) (entries.map (·.id)) where
  mem := fun p c hc => by
    obtain ⟨e, he, -, rfl⟩ := mem_idsUnder.1 hc
    exact mem_map_of_mem he
  once := fun p => idsUnder_nodup hnodup _ _
  unique := fun p q c hp hq => some.inj (key_unique hnodup hp hq)

/-- A parent in the tree is one that the entry refers to. -/
theorem refers_of_parentKey (he : e ∈ entries)
    (h : parentKey (entries.map (·.id)) e = some p) : Refers entries e.id p := by
  unfold parentKey at h
  cases hparent : e.parentId with
  | none => simp [hparent] at h
  | some q =>
    simp only [hparent] at h
    split_ifs at h with hcase
    obtain rfl := some.inj h
    obtain ⟨hne, hmem⟩ := not_or.1 hcase
    exact ⟨e, he, rfl, hparent, not_not.1 hmem, fun hboth => hne (hboth.2.trans hboth.1.symm)⟩

/-- The ids that the last loop comes to, from a result of the loop. -/
theorem mem_seen (h : getTreeIn n entries = some (tree, ids)) :
    ids.Perm (idsUnder entries (entries.map (·.id)) none ++ ids.flatMap (kidsOf entries)) := by
  obtain ⟨hroots, hchildren⟩ := linkedTree_spec entries
  have hperm := sweep_perm (expands_sortNode (kidsOf entries))
    (fun p => by rw [hchildren p]) h
  rw [hroots] at hperm
  exact hperm.trans ((reverse_perm _).append_right _)

/-- **Different ids without a cycle: the tree is built and holds every id once.** -/
theorem getTree_ends (hforest : IsForest entries) :
    ∃ n tree ids, getTreeIn n entries = some (tree, ids) ∧ ids.Nodup ∧
      ∀ id, id ∈ ids ↔ id ∈ entries.map (·.id) := by
  obtain ⟨hnodup, hacyclic⟩ := hforest
  obtain ⟨hroots, hchildren⟩ := linkedTree_spec entries
  have hroot : ∀ id, id ∈ (linkedTree entries).roots.reverse ↔
      id ∈ idsUnder entries (entries.map (·.id)) none := by
    intro id
    rw [mem_reverse, hroots]
  obtain ⟨n, tree, ids, hseen, hids⟩ := sweep_ends []
    (linkedTree entries).roots.reverse (expands_sortNode (kidsOf entries))
    (treelike_kidsOf hnodup) (fun p => by rw [hchildren p])
    (by rw [nil_append, nodup_reverse, hroots]; exact idsUnder_nodup hnodup _ _)
    (fun id hid => by
      obtain ⟨e, he, -, rfl⟩ := mem_idsUnder.1 ((hroot id).1 hid)
      exact mem_map_of_mem he)
    (fun id hid p hp => by cases key_unique hnodup ((hroot id).1 hid) hp)
  rw [nil_append] at hids
  have hperm := mem_seen (n := n) hseen
  refine ⟨n, tree, ids, hseen, hids, fun id => ⟨fun hid => ?_, fun hid => ?_⟩⟩
  · rcases List.mem_append.1 (hperm.mem_iff.1 hid) with hroot | hkid
    · obtain ⟨e, he, -, rfl⟩ := mem_idsUnder.1 hroot
      exact mem_map_of_mem he
    · obtain ⟨p, -, hp⟩ := List.mem_flatMap.1 hkid
      exact (treelike_kidsOf hnodup).mem p id hp
  · -- by induction from the root of the entry
    refine @acyclic_induction String id (Refers entries) (entries.map (·.id)) (· ∈ ids)
      (fun id _ => hacyclic id) (fun id hid ih => hperm.mem_iff.2 ?_) hid
    obtain ⟨e, he, rfl⟩ := List.mem_map.1 hid
    cases hkey : parentKey (entries.map (·.id)) e with
    | none => exact mem_append_left _ (mem_idsUnder.2 ⟨e, he, hkey, rfl⟩)
    | some p =>
      have href := refers_of_parentKey he hkey
      have hp : p ∈ entries.map (·.id) := by
        obtain ⟨-, -, -, -, hp, -⟩ := href
        exact hp
      exact mem_append_right _ (List.mem_flatMap.2
        ⟨p, ih p hp href, mem_idsUnder.2 ⟨e, he, hkey, rfl⟩⟩)

/-! ## What a good tree says about the entries -/

/-- A tree that holds every id once has different ids: each entry is a root or a child once. -/
theorem nodup_of_getTree (h : getTreeIn n entries = some (tree, ids)) (hids : ids.Nodup)
    (hall : ∀ id, id ∈ ids ↔ id ∈ entries.map (·.id)) : (entries.map (·.id)).Nodup := by
  have hgroups := groups_perm hids (parentKey (entries.map (·.id))) entries fun e he p hp => by
    obtain ⟨-, -, -, -, hmem, -⟩ := refers_of_parentKey he hp
    exact (hall p).2 hmem
  have hmap := hgroups.map (·.id)
  rw [map_append, map_flatMap] at hmap
  exact ((mem_seen h).trans hmap).nodup_iff.1 hids

/-- In the tree an ancestor comes before its descendants, so none is its own. -/
theorem acyclic_of_getTree (h : getTreeIn n entries = some (tree, ids)) (hids : ids.Nodup)
    (hall : ∀ id, id ∈ ids ↔ id ∈ entries.map (·.id)) (id : String) :
    ¬TransGen (fun child parent => child ∈ kidsOf entries parent) id id := by
  have hnodup := nodup_of_getTree h hids hall
  obtain ⟨hroots, hchildren⟩ := linkedTree_spec entries
  have horder := sweep_order (expands_sortNode (kidsOf entries)) (fun p => by rw [hchildren p]) h
  have hbefore : ∀ child parent, child ∈ kidsOf entries parent →
      ids.idxOf parent < ids.idxOf child := by
    intro child parent hkid
    have hmem : child ∈ ids := (hall child).2 ((treelike_kidsOf hnodup).mem parent child hkid)
    obtain ⟨before, after, rfl⟩ := append_of_mem hmem
    rcases horder before child after rfl with hroot | ⟨q, hq, hkid'⟩
    · rw [mem_reverse, hroots] at hroot
      cases key_unique hnodup hroot hkid
    · obtain rfl := (treelike_kidsOf hnodup).unique q parent child hkid' hkid
      have hchild : child ∉ before := fun hin =>
        (List.nodup_append.1 hids).2.2 child hin child mem_cons_self rfl
      rw [idxOf_append_of_mem hq, idxOf_append_of_notMem hchild]
      have := idxOf_lt_length_of_mem hq
      omega
  have hlt : ∀ a b, TransGen (fun child parent => child ∈ kidsOf entries parent) a b →
      ids.idxOf b < ids.idxOf a := by
    intro a b hab
    induction hab with
    | single hab => exact hbefore _ _ hab
    | tail _ hab ih => exact (hbefore _ _ hab).trans ih
  exact fun hcycle => Nat.lt_irrefl _ (hlt id id hcycle)

/-- A chain of references is one of parents in the tree, or some entry names itself. -/
theorem refers_cases {a b : String} (h : TransGen (Refers entries) a b) :
    (∃ e ∈ entries, e.parentId = some e.id ∧ e.id ≠ "") ∨
      TransGen (fun child parent => child ∈ kidsOf entries parent) a b := by
  have hone : ∀ a b, Refers entries a b →
      (∃ e ∈ entries, e.parentId = some e.id ∧ e.id ≠ "") ∨ a ∈ kidsOf entries b := by
    rintro a b ⟨e, he, rfl, hparent, hmem, hne⟩
    by_cases hself : b = e.id
    · subst hself
      exact .inl ⟨e, he, hparent, fun hempty => hne ⟨hempty, hempty⟩⟩
    · refine .inr (mem_idsUnder.2 ⟨e, he, ?_, rfl⟩)
      simp [parentKey, hparent, hself, hmem]
  induction h with
  | single hab => exact (hone _ _ hab).imp_right .single
  | tail _ hab ih =>
    rcases ih with hself | hchain
    · exact .inl hself
    · exact (hone _ _ hab).imp_right hchain.tail

/-- From an entry that names itself the way to the root does not end. -/
theorem getBranch_of_self (hnodup : (entries.map (·.id)).Nodup) (he : e ∈ entries)
    (hparent : e.parentId = some e.id) (hne : e.id ≠ "") (n : Nat) (leafId : Option String) :
    getBranchIn n (buildEntryIndex entries none) leafId (some e.id) = none := by
  have hget : lookup (buildEntryIndex entries none) (some e.id) = some e := by
    rw [lookup, if_neg hne]
    exact get?_buildEntryIndex hnodup he
  have hstep : StepsTo (parentOf (buildEntryIndex entries none)) e e := by
    rw [StepsTo, parentOf_eq_lookup, hparent]
    exact hget
  rw [getBranchIn, some_or, hget, walk_cycle (.single hstep)]
  rfl

/-- **Opening a session works exactly if its ids differ and no entry is its own ancestor.** -/
theorem opensWell_iff (entries : List SessionEntry) : OpensWell entries ↔ IsForest entries := by
  constructor
  · intro h
    obtain ⟨n, tree, ids, hseen, hids, hall⟩ := h.tree
    have hnodup := nodup_of_getTree hseen hids hall
    refine ⟨hnodup, fun id hcycle => ?_⟩
    rcases refers_cases hcycle with ⟨e, he, hparent, hne⟩ | hchain
    · obtain ⟨m, path, hpath⟩ := h.branch none (some e.id)
      rw [getBranch_of_self hnodup he hparent hne] at hpath
      cases hpath
    · exact acyclic_of_getTree hseen hids hall id hchain
  · intro hforest
    exact ⟨buildSessionPath_ends hforest, getBranch_ends hforest, collect_ends hforest,
      getTree_ends hforest⟩

/-- An entry that names itself as its parent. -/
def selfParent : SessionEntry :=
  ⟨"a", some "a", "2026-01-01T00:00:00.000Z", .sessionInfo none⟩

/-- In a session with an entry that is its own parent `getBranch` runs forever. -/
theorem selfParent_never_opens : ¬ ∀ entries : List SessionEntry, OpensWell entries := by
  intro h
  obtain ⟨n, path, hpath⟩ := (h [selfParent]).branch none (some "a")
  rw [show "a" = selfParent.id from rfl,
    getBranch_of_self (by simp) mem_cons_self rfl (by decide)] at hpath
  cases hpath

end BeauPi.Sessions
