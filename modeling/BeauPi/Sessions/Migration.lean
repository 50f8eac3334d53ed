import BeauPi.Sessions.Paths
import Mathlib.Algebra.Order.Ring.Unbundled.Rat
import Mathlib.Data.Nat.Cast.Order.Ring

/-!
# Migrating session files of earlier versions

The entries of a file of the first version have no ids; a compaction names the first entry it
keeps by an index.  The migration draws an id for each entry and links each to the one before.

* `StoredEntry`, `FileEntry` — what a file of any version holds.
* `generateId`, `migrateV1ToV2`, `migrateV2ToV3`, `migrateToCurrentVersion`.
* `linkEntries_spec` — the migration of the rest of a file, behind what is done.
* `migrate_preserves_iff` — the conversation is preserved exactly if the drawn ids differ: the
  set that `generateId` checks is never added to.
* `migrate_again_iff` — a migrated file is left alone exactly if it has a header.
-/

namespace BeauPi.Sessions

open Llm Machine List

/-! ## Files -/

/-- `SessionHeader` -/
structure SessionHeader where
  version : Option ℚ
  id : String
  timestamp : String
  cwd : String
  parentSession : Option String
  deriving DecidableEq, Repr

/-- The fields of a `CompactionEntry` of any version. -/
structure StoredCompaction where
  summary : String
  firstKeptEntryId : Option String
  firstKeptEntryIndex : Option ℚ
  tokensBefore : Nat
  details : Option Json
  usage : Option Usage
  fromHook : Option Bool
  deriving DecidableEq, Repr

/-- What an entry of any version says. -/
inductive StoredBody
  /-- An entry as the current version writes it. -/
  | current (body : EntryBody)
  | compaction (data : StoredCompaction)
  /-- A message of the role `hookMessage`, later `custom`. -/
  | hookMessage (message : CustomMessage)
  deriving DecidableEq, Repr

/-- An entry of any version. -/
structure StoredEntry where
  id : Option String
  parentId : Option String
  timestamp : String
  body : StoredBody
  deriving DecidableEq, Repr

/-- `FileEntry` -/
inductive FileEntry
  | session (header : SessionHeader)
  | entry (entry : StoredEntry)
  deriving DecidableEq, Repr

/-- `CURRENT_SESSION_VERSION` -/
def currentSessionVersion : ℚ := 3

/-! ## Drawing ids -/

/-- `randomUUID().slice(0, 8)` -/
def shortId (uuid : String) : String := String.ofList (uuid.toList.take 8)

/-- The loop of `generateId`: the id, and how many values of `randomUUID` are drawn by then.
After the last try a whole value is taken. -/
def drawId (uuids : Nat → String) (has : String → Bool) : Nat → Nat → String × Nat
  | 0, drawn => (uuids drawn, drawn + 1)
  | tries + 1, drawn =>
    if has (shortId (uuids drawn)) then drawId uuids has tries (drawn + 1)
    else (shortId (uuids drawn), drawn + 1)

/-- `generateId` -/
def generateId (uuids : Nat → String) (has : String → Bool) (drawn : Nat) : String × Nat :=
  drawId uuids has 100 drawn

/-! ## From version 1 to version 2 -/

/-- `entries[index]` -/
def elementAt (entries : List FileEntry) (index : ℚ) : Option FileEntry :=
  if index.isInt = true ∧ 0 ≤ index then entries[index.num.toNat]? else none

/-- `firstKeptEntryIndex` is replaced by the id of the entry there. -/
def convertIndex (entries : List FileEntry) (data : StoredCompaction) : StoredCompaction :=
  match data.firstKeptEntryIndex with
  | none => data
  | some index =>
    { data with
      firstKeptEntryId := match elementAt entries index with
        | some (.entry target) => target.id
        | _ => data.firstKeptEntryId
      firstKeptEntryIndex := none }

/-- The body of an entry when the entries of the file are these. -/
def convertBody (entries : List FileEntry) : StoredBody → StoredBody
  | .compaction data => .compaction (convertIndex entries data)
  | body => body

/-- The loop of `migrateV1ToV2`: the entries behind those that are done.  The loop changes the
entries in place, so a compaction sees the new ids of the ones before it; the set of ids stays
empty. -/
def linkEntries (uuids : Nat → String) (done : List FileEntry) (prevId : Option String)
    (drawn : Nat) : List FileEntry → List FileEntry
  | [] => done
  | .session header :: rest =>
    linkEntries uuids (done ++ [.session { header with version := some 2 }]) prevId drawn rest
  | .entry entry :: rest =>
    let ids : List String := []
    let (id, drawn) := generateId uuids (fun id => decide (id ∈ ids)) drawn
    let named := { entry with id := some id, parentId := prevId }
    let converted := { named with body := convertBody (done ++ .entry named :: rest) named.body }
    linkEntries uuids (done ++ [.entry converted]) (some id) drawn rest

/-- `migrateV1ToV2` -/
def migrateV1ToV2 (uuids : Nat → String) (entries : List FileEntry) : List FileEntry :=
  linkEntries uuids [] none 0 entries

/-! ## From version 2 to version 3 -/

/-- The role `hookMessage` becomes `custom`. -/
def renameRole : StoredBody → StoredBody
  | .hookMessage message => .current (.message (.custom message))
  | body => body

/-- `migrateV2ToV3` -/
def migrateV2ToV3 (entries : List FileEntry) : List FileEntry :=
  entries.map fun
    | .session header => .session { header with version := some 3 }
    | .entry entry => .entry { entry with body := renameRole entry.body }

/-! ## To the current version -/

/-- The version of a file, by its first header. -/
def fileVersion (entries : List FileEntry) : ℚ :=
  (entries.findSome? fun
    | .session header => some header
    | .entry _ => none).bind (·.version) |>.getD 1

/-- `migrateToCurrentVersion`, and whether something was migrated. -/
def migrateToCurrentVersion (uuids : Nat → String) (entries : List FileEntry) :
    List FileEntry × Bool :=
  let version := fileVersion entries
  if currentSessionVersion ≤ version then (entries, false)
  else
    let entries := if version < 2 then migrateV1ToV2 uuids entries else entries
    let entries := if version < 3 then migrateV2ToV3 entries else entries
    (entries, true)

/-- `migrateSessionEntries` -/
def migrateSessionEntries (uuids : Nat → String) (entries : List FileEntry) : List FileEntry :=
  (migrateToCurrentVersion uuids entries).1

/-! ## The conversation of a file -/

/-- The body of a migrated entry; a compaction without an id names no entry. -/
def StoredBody.toBody : StoredBody → EntryBody
  | .current body => body
  | .compaction data => .compaction
      ⟨data.summary, data.firstKeptEntryId.getD "", data.tokensBefore, data.details, data.usage,
        data.fromHook⟩
  | .hookMessage message => .message (.custom message)

/-- A migrated entry. -/
def StoredEntry.toSessionEntry (entry : StoredEntry) : SessionEntry :=
  ⟨entry.id.getD "", entry.parentId, entry.timestamp, entry.body.toBody⟩

/-- The entry of a line that is no header. -/
def FileEntry.stored? : FileEntry → Option StoredEntry
  | .session _ => none
  | .entry stored => some stored

/-- The entries of a session, without its headers. -/
def sessionEntries (entries : List FileEntry) : List SessionEntry :=
  (entries.filterMap (·.stored?)).map (·.toSessionEntry)

/-- The index by which a compaction names the first entry it keeps. -/
def StoredEntry.firstKeptEntryIndex (entry : StoredEntry) : Option ℚ :=
  match entry.body with
  | .compaction data => data.firstKeptEntryIndex
  | _ => none

/-- The id by which a compaction names the first entry it keeps. -/
def StoredEntry.firstKeptEntryId (entry : StoredEntry) : Option String :=
  match entry.body with
  | .compaction data => data.firstKeptEntryId
  | _ => none

/-- What a migration should keep of the conversation of a file. -/
structure PreservesConversation (entries migrated : List FileEntry) : Prop where
  distinct : ((sessionEntries migrated).map (·.id)).Nodup
  linked : Chained none (sessionEntries migrated)
  kept : ∀ (i j : Nat) (source target : StoredEntry), i < j → entries[j]? = some (.entry source) →
    entries[i]? = some (.entry target) → source.firstKeptEntryIndex = some (i : ℚ) →
    ∃ source' target', migrated[j]? = some (.entry source') ∧
      migrated[i]? = some (.entry target') ∧ target'.id.isSome = true ∧
      source'.firstKeptEntryId = target'.id
  walked : buildSessionPath (sessionEntries migrated) none none = sessionEntries migrated
  complete : (sessionEntries migrated).map (·.timestamp) =
    (sessionEntries entries).map (·.timestamp)

/-! ## Linking the entries -/

variable {uuids : Nat → String} {done rest migrated : List FileEntry} {prevId : Option String}
  {drawn : Nat} {entry : StoredEntry} {header : SessionHeader}

/-- No id counts as used, so the first draw is taken. -/
theorem generateId_empty (uuids : Nat → String) (drawn : Nat) :
    generateId uuids (fun id => decide (id ∈ ([] : List String))) drawn =
      (shortId (uuids drawn), drawn + 1) := by
  simp [generateId, drawId]

/-- The entry as it leaves the loop. -/
def linked (entries : List FileEntry) (id : String) (prevId : Option String)
    (entry : StoredEntry) : StoredEntry :=
  { entry with id := some id, parentId := prevId, body := convertBody entries entry.body }

theorem linkEntries_session (uuids : Nat → String) (done : List FileEntry)
    (prevId : Option String) (drawn : Nat) (header : SessionHeader) (rest : List FileEntry) :
    linkEntries uuids done prevId drawn (.session header :: rest) =
      linkEntries uuids (done ++ [.session { header with version := some 2 }]) prevId drawn
        rest := rfl

theorem linkEntries_entry (uuids : Nat → String) (done : List FileEntry)
    (prevId : Option String) (drawn : Nat) (entry : StoredEntry) (rest : List FileEntry) :
    ∃ entries, entries.take done.length = done ∧
      linkEntries uuids done prevId drawn (.entry entry :: rest) =
        linkEntries uuids
          (done ++ [.entry (linked entries (shortId (uuids drawn)) prevId entry)])
          (some (shortId (uuids drawn))) (drawn + 1) rest := by
  refine ⟨done ++ .entry { entry with id := some (shortId (uuids drawn)), parentId := prevId } ::
    rest, take_left, ?_⟩
  rw [linkEntries]
  simp only [generateId_empty]
  rfl

/-- The number of entries of a file. -/
def entryCount (entries : List FileEntry) : Nat := (entries.filterMap (·.stored?)).length

@[simp] theorem sessionEntries_nil : sessionEntries [] = [] := rfl

@[simp] theorem sessionEntries_entry (entry : StoredEntry) (rest : List FileEntry) :
    sessionEntries (.entry entry :: rest) = entry.toSessionEntry :: sessionEntries rest := rfl

/-- What the loop makes of the entries that are not done. -/
structure Links (uuids : Nat → String) (done : List FileEntry) (prevId : Option String)
    (drawn : Nat) (rest new : List FileEntry) : Prop where
  chained : Chained prevId (sessionEntries new)
  ids : (sessionEntries new).map (·.id) =
    (List.range (entryCount rest)).map fun k => shortId (uuids (drawn + k))
  timestamps : (sessionEntries new).map (·.timestamp) = (sessionEntries rest).map (·.timestamp)
  each : ∀ j entry, rest[j]? = some (.entry entry) →
    ∃ entries id prev, entries.take (done.length + j) = (done ++ new).take (done.length + j) ∧
      new[j]? = some (.entry (linked entries id prev entry))

/-- **The loop links the entries that are not done to those that are.** -/
theorem linkEntries_spec (uuids : Nat → String) (rest : List FileEntry) :
    ∀ done prevId drawn, ∃ new, linkEntries uuids done prevId drawn rest = done ++ new ∧
      Links uuids done prevId drawn rest new := by
  induction rest with
  | nil =>
    intro done prevId drawn
    exact ⟨[], (append_nil done).symm, trivial, rfl, rfl, fun j entry h => by simp at h⟩
  | cons first rest ih =>
    intro done prevId drawn
    cases first with
    | session header =>
      obtain ⟨new, heq, hlinks⟩ :=
        ih (done ++ [.session { header with version := some 2 }]) prevId drawn
      refine ⟨.session { header with version := some 2 } :: new, ?_, hlinks.chained, hlinks.ids,
        hlinks.timestamps, fun j entry hj => ?_⟩
      · rw [linkEntries_session, heq, append_assoc, singleton_append]
      · cases j with
        | zero => simp at hj
        | succ j =>
          obtain ⟨entries, id, prev, htake, hnew⟩ := hlinks.each j entry (by simpa using hj)
          refine ⟨entries, id, prev, ?_, by simpa using hnew⟩
          simpa [Nat.add_assoc, Nat.add_comm 1] using htake
    | entry entry =>
      obtain ⟨entries, htake, hstep⟩ := linkEntries_entry uuids done prevId drawn entry rest
      obtain ⟨new, heq, hlinks⟩ :=
        ih (done ++ [.entry (linked entries (shortId (uuids drawn)) prevId entry)])
          (some (shortId (uuids drawn))) (drawn + 1)
      refine ⟨.entry (linked entries (shortId (uuids drawn)) prevId entry) :: new, ?_,
        ⟨rfl, hlinks.chained⟩, ?_, ?_, fun j other hj => ?_⟩
      · rw [hstep, heq, append_assoc, singleton_append]
      · have hcount : entryCount (.entry entry :: rest) = entryCount rest + 1 := rfl
        rw [sessionEntries_entry, map_cons, hlinks.ids, hcount, range_succ_eq_map,
          map_cons, map_map]
        simp only [Function.comp_def, Nat.succ_eq_add_one, Nat.add_zero]
        congr 1
        refine map_congr_left fun k _ => ?_
        rw [Nat.add_assoc, Nat.add_comm 1 k]
      · rw [sessionEntries_entry, sessionEntries_entry, map_cons, map_cons,
          hlinks.timestamps]
        rfl
      · cases j with
        | zero =>
          obtain rfl : entry = other := by simpa using hj
          refine ⟨entries, _, _, ?_, rfl⟩
          rw [Nat.add_zero, take_left, htake]
        | succ j =>
          obtain ⟨entries', id, prev, htake', hnew⟩ := hlinks.each j other (by simpa using hj)
          refine ⟨entries', id, prev, ?_, by simpa using hnew⟩
          simpa [Nat.add_assoc, Nat.add_comm 1] using htake'

/-! ## The migrated file -/

theorem toBody_renameRole (body : StoredBody) : (renameRole body).toBody = body.toBody := by
  cases body <;> rfl

/-- The step to version 3 changes no id and no message. -/
theorem sessionEntries_migrateV2ToV3 (entries : List FileEntry) :
    sessionEntries (migrateV2ToV3 entries) = sessionEntries entries := by
  induction entries with
  | nil => rfl
  | cons first rest ih =>
    cases first with
    | session header => exact ih
    | entry entry =>
      simp only [migrateV2ToV3, map_cons, sessionEntries_entry] at ih ⊢
      rw [ih]
      simp only [StoredEntry.toSessionEntry, toBody_renameRole]

variable {entries : List FileEntry} {j : Nat}

theorem getElem?_migrateV2ToV3 (h : entries[j]? = some (.entry entry)) :
    (migrateV2ToV3 entries)[j]? = some (.entry { entry with body := renameRole entry.body }) := by
  rw [migrateV2ToV3, getElem?_map, h]
  rfl

theorem firstKeptEntryId_renameRole (entry : StoredEntry) :
    ({ entry with body := renameRole entry.body } : StoredEntry).firstKeptEntryId =
      entry.firstKeptEntryId := by
  unfold StoredEntry.firstKeptEntryId
  cases entry.body <;> rfl

theorem elementAt_natCast (entries : List FileEntry) (i : Nat) :
    elementAt entries (i : ℚ) = entries[i]? := by
  have hint : ((i : ℚ)).isInt = true := by simp [Rat.isInt]
  rw [elementAt, if_pos ⟨hint, Nat.cast_nonneg i⟩]
  simp

variable {source target : StoredEntry} {i : Nat}

/-- A compaction names the entry that its index names. -/
theorem firstKeptEntryId_linked {id : String} (hindex : source.firstKeptEntryIndex = some (i : ℚ))
    (htarget : entries[i]? = some (.entry target)) :
    (linked entries id prevId source).firstKeptEntryId = target.id := by
  unfold StoredEntry.firstKeptEntryIndex at hindex
  unfold StoredEntry.firstKeptEntryId linked
  cases hbody : source.body with
  | compaction data =>
    rw [hbody] at hindex
    simp only [convertBody, convertIndex]
    rw [show data.firstKeptEntryIndex = some (i : ℚ) from hindex]
    simp only [elementAt_natCast, htarget]
  | _ => simp [hbody] at hindex

/-- A value of `randomUUID` has a first part. -/
theorem shortId_ne_empty {uuid : String} (h : uuid.length = 36) : shortId uuid ≠ "" := by
  intro hempty
  have hlist := congrArg String.toList hempty
  rw [shortId, String.toList_ofList] at hlist
  have hlen := congrArg List.length hlist
  rw [length_take, String.length_toList, h] at hlen
  simp at hlen

/-- The first part of a value of `randomUUID` that is drawn for each entry of a file. -/
def drawnIds (uuids : Nat → String) (entries : List FileEntry) : List String :=
  (List.range (entryCount entries)).map fun k => shortId (uuids k)

theorem Links.kept (hlinks : Links uuids [] none 0 rest migrated) (hij : i < j)
    (hsource : rest[j]? = some (.entry source)) (htarget : rest[i]? = some (.entry target))
    (hindex : source.firstKeptEntryIndex = some (i : ℚ)) :
    ∃ source' target', migrated[j]? = some (.entry source') ∧
      migrated[i]? = some (.entry target') ∧ target'.id.isSome = true ∧
      source'.firstKeptEntryId = target'.id := by
  obtain ⟨entries, id, prev, htake, hsource'⟩ := hlinks.each j source hsource
  obtain ⟨_, id', prev', -, htarget'⟩ := hlinks.each i target htarget
  refine ⟨_, _, hsource', htarget', rfl, firstKeptEntryId_linked hindex ?_⟩
  have hsame := congrArg (·[i]?) htake
  simp only [length_nil, Nat.zero_add, nil_append, getElem?_take_of_lt hij]
    at hsame
  rw [hsame, htarget']

/-- A file of the first version is linked and brought to the current version. -/
theorem migrate_versionOne (uuids : Nat → String) (rest : List FileEntry)
    (hversion : header.version.getD 1 < 2) :
    ∃ new, Links uuids [] none 0 (.session header :: rest) new ∧
      migrateSessionEntries uuids (.session header :: rest) = migrateV2ToV3 new := by
  obtain ⟨new, heq, hlinks⟩ := linkEntries_spec uuids (.session header :: rest) [] none 0
  refine ⟨new, hlinks, ?_⟩
  have hfile : fileVersion (.session header :: rest) = header.version.getD 1 := rfl
  have hthree : header.version.getD 1 < 3 := hversion.trans (by decide)
  have hold : ¬currentSessionVersion ≤ header.version.getD 1 := not_le.2 hthree
  rw [migrateSessionEntries, migrateToCurrentVersion]
  simp only [hfile, hold, hversion, hthree, if_true, if_false]
  rw [migrateV1ToV2, heq, nil_append]

/-- **The conversation of a file of the first version is preserved exactly if the ids that are
drawn for its entries differ, and a file of the current version stays as it is.** -/
theorem migrate_preserves_iff (uuids : Nat → String) (header : SessionHeader)
    (rest : List FileEntry) (hlength : ∀ n, (uuids n).length = 36)
    (hversion : header.version.getD 1 < 2) :
    PreservesConversation (.session header :: rest)
          (migrateSessionEntries uuids (.session header :: rest)) ∧
        (∀ entries, currentSessionVersion ≤ fileVersion entries →
          migrateSessionEntries uuids entries = entries) ↔
      (drawnIds uuids rest).Nodup := by
  obtain ⟨new, hlinks, hmigrate⟩ := migrate_versionOne uuids rest hversion
  have hids : (sessionEntries new).map (·.id) = drawnIds uuids rest := by
    rw [hlinks.ids]
    simp only [Nat.zero_add]
    rfl
  have hcurrent : ∀ entries, currentSessionVersion ≤ fileVersion entries →
      migrateSessionEntries uuids entries = entries := by
    intro entries h
    rw [migrateSessionEntries, migrateToCurrentVersion]
    simp only [h, if_true]
  rw [hmigrate]
  constructor
  · rintro ⟨h, -⟩
    have hdistinct := h.distinct
    rwa [sessionEntries_migrateV2ToV3, hids] at hdistinct
  · intro hnodup
    have hpath : IsSessionPath (sessionEntries new) := by
      refine ⟨hids ▸ hnodup, fun entry hentry => ?_, hlinks.chained⟩
      have hmem : entry.id ∈ drawnIds uuids rest := hids ▸ mem_map_of_mem hentry
      obtain ⟨k, -, hk⟩ := mem_map.1 hmem
      rw [← hk]
      exact shortId_ne_empty (hlength k)
    refine ⟨⟨?_, ?_, fun i j source target hij hsource htarget hindex => ?_, ?_, ?_⟩, hcurrent⟩
    · rw [sessionEntries_migrateV2ToV3]
      exact hpath.nodup
    · rw [sessionEntries_migrateV2ToV3]
      exact hpath.chained
    · obtain ⟨source', target', hsource', htarget', hsome, hid⟩ :=
        hlinks.kept hij hsource htarget hindex
      refine ⟨_, _, getElem?_migrateV2ToV3 hsource', getElem?_migrateV2ToV3 htarget', hsome, ?_⟩
      rw [firstKeptEntryId_renameRole, hid]
    · rw [sessionEntries_migrateV2ToV3]
      exact buildSessionPath_eq hpath
    · rw [sessionEntries_migrateV2ToV3, hlinks.timestamps]

/-- The header of a file of the first version. -/
def oldHeader : SessionHeader := ⟨none, "s1", "2025-01-01T00:00:00.000Z", "/work", none⟩

/-- A message of the first version. -/
def oldMessage (text : String) : FileEntry :=
  .entry ⟨none, none, "2025-01-01T00:00:01.000Z",
    .current (.message (.user ⟨some (.str text), 0⟩))⟩

/-- A value of `randomUUID`, by its first and its last character. -/
def uuidOf (first last : Char) : String :=
  String.ofList (first :: ("0000000-0000-4000-8000-00000000000".toList ++ [last]))

theorem length_uuidOf (first last : Char) : (uuidOf first last).length = 36 := by
  rw [uuidOf, String.length_ofList, length_cons, length_append]
  rfl

/-- Values that differ in their first character. -/
def differingUuids (n : Nat) : String := uuidOf (if n = 0 then 'a' else 'b') '0'

/-- Values that differ only in their last character. -/
def alikeUuids (n : Nat) : String := uuidOf 'a' (if n = 0 then '0' else '1')

/-- Two messages with ids of their own. -/
theorem migrate_preserves_iff_twoMessages :
    PreservesConversation [.session oldHeader, oldMessage "a", oldMessage "b"]
          (migrateSessionEntries differingUuids
            [.session oldHeader, oldMessage "a", oldMessage "b"]) ∧
        (∀ entries, currentSessionVersion ≤ fileVersion entries →
          migrateSessionEntries differingUuids entries = entries) ↔
      (drawnIds differingUuids [oldMessage "a", oldMessage "b"]).Nodup :=
  migrate_preserves_iff differingUuids oldHeader [oldMessage "a", oldMessage "b"]
    (fun _ => length_uuidOf _ _) (by decide)

/-- If two drawn values begin alike, two entries get the same id. -/
theorem migrate_repeats_id :
    ¬ ∀ (uuids : Nat → String) (header : SessionHeader) (rest : List FileEntry),
      (∀ n, (uuids n).length = 36) → header.version.getD 1 < 2 →
      PreservesConversation (.session header :: rest)
          (migrateSessionEntries uuids (.session header :: rest)) ∧
        ∀ entries, currentSessionVersion ≤ fileVersion entries →
          migrateSessionEntries uuids entries = entries := by
  intro h
  have hdistinct := (h alikeUuids oldHeader [oldMessage "a", oldMessage "b"]
    (fun _ => length_uuidOf _ _) (by decide)).1.distinct
  exact absurd hdistinct (by decide +kernel)

/-! ## Opening a migrated file again -/

/-- The file has a header. -/
def HasHeader (entries : List FileEntry) : Prop := ∃ header, .session header ∈ entries

theorem fileVersion_of_headers {version : ℚ} (h : HasHeader entries)
    (hall : ∀ header, .session header ∈ entries → header.version = some version) :
    fileVersion entries = version := by
  induction entries with
  | nil =>
    obtain ⟨header, hmem⟩ := h
    cases hmem
  | cons first rest ih =>
    cases first with
    | session header => simp [fileVersion, hall header (mem_cons_self ..)]
    | entry entry =>
      obtain ⟨header, hmem⟩ := h
      exact ih ⟨header, by simpa using hmem⟩ fun other hother => hall other (mem_cons_of_mem _ hother)

theorem fileVersion_of_no_header (h : ¬HasHeader entries) : fileVersion entries = 1 := by
  induction entries with
  | nil => rfl
  | cons first rest ih =>
    cases first with
    | session header => exact absurd ⟨header, mem_cons_self ..⟩ h
    | entry entry => exact ih fun ⟨header, hmem⟩ => h ⟨header, mem_cons_of_mem _ hmem⟩

theorem hasHeader_linkEntries (uuids : Nat → String) (rest : List FileEntry) :
    ∀ done prevId drawn,
      HasHeader (linkEntries uuids done prevId drawn rest) ↔ HasHeader (done ++ rest) := by
  induction rest with
  | nil => intro done prevId drawn; rw [append_nil]; rfl
  | cons first rest ih =>
    intro done prevId drawn
    cases first with
    | session header =>
      rw [linkEntries_session, ih]
      exact iff_of_true ⟨_, mem_append_left _ (mem_append_right _ (mem_singleton_self _))⟩
        ⟨header, by simp⟩
    | entry entry =>
      obtain ⟨entries, -, hstep⟩ := linkEntries_entry uuids done prevId drawn entry rest
      rw [hstep, ih]
      simp [HasHeader]

theorem fileVersion_migrateV2ToV3 (h : HasHeader entries) :
    fileVersion (migrateV2ToV3 entries) = 3 := by
  obtain ⟨header, hmem⟩ := h
  refine fileVersion_of_headers ⟨_, mem_map_of_mem hmem⟩ fun other hother => ?_
  obtain ⟨before, -, heq⟩ := mem_map.1 hother
  cases before with
  | session header => cases heq; rfl
  | entry entry => cases heq

theorem hasHeader_of_migrateV2ToV3 (h : HasHeader (migrateV2ToV3 entries)) : HasHeader entries := by
  obtain ⟨header, hmem⟩ := h
  obtain ⟨before, hbefore, heq⟩ := mem_map.1 hmem
  cases before with
  | session header => exact ⟨header, hbefore⟩
  | entry entry => cases heq

/-- **A migrated file is not migrated again exactly if it has a header.**  Without one it counts
as a file of the first version every time, and its entries get new ids. -/
theorem migrate_again_iff (uuids later : Nat → String) (entries : List FileEntry) :
    migrateToCurrentVersion later (migrateSessionEntries uuids entries) =
        (migrateSessionEntries uuids entries, false) ↔ HasHeader entries := by
  by_cases hcurrent : currentSessionVersion ≤ fileVersion entries
  · have hheader : HasHeader entries := by
      by_contra hnone
      rw [fileVersion_of_no_header hnone] at hcurrent
      exact absurd hcurrent (by decide)
    have hsame : migrateToCurrentVersion uuids entries = (entries, false) := by
      simp only [migrateToCurrentVersion, hcurrent, if_true]
    rw [migrateSessionEntries, hsame]
    exact iff_of_true (by simp only [migrateToCurrentVersion, hcurrent, if_true]) hheader
  · have hmigrated : ∃ linked, migrateSessionEntries uuids entries = migrateV2ToV3 linked ∧
        (HasHeader linked ↔ HasHeader entries) := by
      have hthree : fileVersion entries < 3 := not_le.1 hcurrent
      simp only [migrateSessionEntries, migrateToCurrentVersion, hcurrent, hthree, if_true, if_false]
      refine ⟨_, rfl, ?_⟩
      split
      · exact hasHeader_linkEntries uuids entries [] none 0
      · rfl
    obtain ⟨linked, heq, hlinked⟩ := hmigrated
    rw [heq, ← hlinked]
    constructor
    · intro h
      by_contra hnone
      have hone := fileVersion_of_no_header fun h => hnone (hasHeader_of_migrateV2ToV3 h)
      have hold : ¬currentSessionVersion ≤ (1 : ℚ) := by decide
      simp only [migrateToCurrentVersion, hone, hold, if_false] at h
      cases (Prod.mk.inj h).2
    · intro h
      simp only [migrateToCurrentVersion, fileVersion_migrateV2ToV3 h, currentSessionVersion, le_refl,
        if_true]

end BeauPi.Sessions
