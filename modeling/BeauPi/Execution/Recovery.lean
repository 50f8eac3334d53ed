import BeauPi.Execution.Revision

/-!
# Interrupted appends

A journal is built by successful appends, one more append is cut off after some characters of its
text, `repairTail` is called and another batch is appended.

* `Draft.identified` — an event object that does not bring an unusable `eventId` or `timestamp`
  along.
* `reached`, `unterminated` — the events whose complete lines reached the file, and the event of
  which everything but the newline did.
* `journal_survives_iff` — **the journal survives exactly when** its events are identified and the cut was
  not right before the newline of an identified event.
* `newline_cut_not_survived` — a cut right before a newline.
-/

namespace BeauPi.Execution

open Machine List
open Option (any_none getD_some)
open Disk (ok)

/-! ## Events as they are written -/

/-- The value is not there, or a text that is not empty. -/
def isTextOrAbsent : Option Json → Bool
  | none | some .null => true
  | some (.str s) => s != ""
  | some _ => false

/-- The event object has no `eventId` and `timestamp` of its own, or usable ones. -/
def Draft.identified (draft : Draft) : Bool :=
  isTextOrAbsent (Json.field? "eventId" (recordFields draft.raw)) &&
    isTextOrAbsent (Json.field? "timestamp" (recordFields draft.raw))

theorem field?_eq_getEntry (key : String) (fields : List (String × Json)) :
    Json.field? key fields = OrderedMap.getEntry key fields := by
  induction fields with
  | nil => rfl
  | cons field rest ih => simp [Json.field?, OrderedMap.getEntry, ih]

theorem field?_setEntry (key key' : String) (v : Json) (fields : List (String × Json)) :
    Json.field? key (OrderedMap.setEntry key' v fields) =
      if key = key' then some v else Json.field? key fields := by
  rw [field?_eq_getEntry, field?_eq_getEntry, OrderedMap.getEntry_setEntry]

variable {seq : Nat} {timestamp : String} {draft : Draft}

theorem seq_prepared :
    (Json.obj (preparedFields seq timestamp draft)).get? "seq" = some (Json.nat seq) := by
  simp [Json.get?, preparedFields, field?_setEntry]

theorem eventId_prepared :
    (Json.obj (preparedFields seq timestamp draft)).get? "eventId" =
      some (orElse (Json.field? "eventId" (recordFields draft.raw)) draft.uuid) := by
  simp [Json.get?, preparedFields, field?_setEntry]

theorem timestamp_prepared :
    (Json.obj (preparedFields seq timestamp draft)).get? "timestamp" =
      some (orElse (Json.field? "timestamp" (recordFields draft.raw)) timestamp) := by
  simp [Json.get?, preparedFields, field?_setEntry]

theorem isNonEmptyString_orElse {value : Option Json} {fallback : String} (h : fallback ≠ "") :
    isNonEmptyString (some (orElse value fallback)) = isTextOrAbsent value := by
  cases value with
  | none => simpa [orElse, isNonEmptyString, isTextOrAbsent] using h
  | some value => cases value <;> simp [orElse, isNonEmptyString, isTextOrAbsent, h]

/-! ## Prepared events are well-formed -/

theorem wellFormed_nat (n : Nat) : (Json.nat n).wellFormed = true := by
  have hdecimal : Json.isDecimal (n : ℚ) = true := by
    simp [Json.isDecimal, Json.scaleUp]
  simp [Json.nat, Json.wellFormed, hdecimal]

theorem wellFormedItems_iff {items : List Json} :
    Json.wellFormedItems items = true ↔ ∀ item ∈ items, item.wellFormed = true := by
  induction items with
  | nil => simp [Json.wellFormedItems]
  | cons item rest ih => simp [Json.wellFormedItems, ih]

/-- Field lists of values of the language. -/
structure WellFormedFields (fields : List (String × Json)) : Prop where
  nodup : (fields.map Prod.fst).Nodup
  values : ∀ field ∈ fields, field.2.wellFormed = true

variable {fields : List (String × Json)}

theorem WellFormedFields.obj (h : WellFormedFields fields) :
    (Json.obj fields).wellFormed = true := by
  simp only [Json.wellFormed, Bool.and_eq_true, decide_eq_true_eq]
  exact ⟨h.nodup, Json.wellFormedFields_iff.2 h.values⟩

theorem WellFormedFields.setEntry (h : WellFormedFields fields) (key : String) {v : Json}
    (hv : v.wellFormed = true) :
    WellFormedFields (OrderedMap.setEntry key v fields) := by
  refine ⟨OrderedMap.nodup_setEntry h.nodup, ?_⟩
  intro field hfield
  rcases OrderedMap.mem_setEntry hfield with heq | hmem
  · rw [heq]
    exact hv
  · exact h.values field hmem

theorem toString_nat_injective : Function.Injective (toString : Nat → String) := by
  intro n m h
  have hdigits : Json.natDigits n = Json.natDigits m := congrArg String.toList h
  rw [← Json.digitsValue_natDigits n, hdigits, Json.digitsValue_natDigits]

theorem wellFormed_recordFields {raw : Json} (h : raw.wellFormed = true) :
    WellFormedFields (recordFields raw) := by
  cases raw with
  | obj fields =>
    simp only [Json.wellFormed, Bool.and_eq_true, decide_eq_true_eq] at h
    exact ⟨h.1, Json.wellFormedFields_iff.1 h.2⟩
  | arr items =>
    refine ⟨?_, ?_⟩
    · have hkeys : (recordFields (.arr items)).map Prod.fst =
          (List.range' 0 items.length).map toString := by
        rw [← zipIdx_map_snd 0 items, recordFields, map_map, map_map]
        rfl
      rw [hkeys]
      exact (nodup_range').map toString_nat_injective
    · intro field hfield
      simp only [recordFields, mem_map] at hfield
      obtain ⟨⟨item, i⟩, hmem, rfl⟩ := hfield
      rw [Json.wellFormed, wellFormedItems_iff] at h
      exact h item (fst_mem_of_mem_zipIdx hmem)
  | null | bool | num | str => exact ⟨nodup_nil, by simp [recordFields]⟩

theorem wellFormed_orElse (h : WellFormedFields fields) (key fallback : String) :
    (orElse (Json.field? key fields) fallback).wellFormed = true := by
  cases hvalue : Json.field? key fields with
  | none => rfl
  | some value =>
    rw [field?_eq_getEntry, OrderedMap.getEntry_eq_some h.nodup] at hvalue
    have hv := h.values (key, value) hvalue
    cases value <;> first | rfl | exact hv

theorem wellFormed_prepared :
    (Json.obj (preparedFields seq timestamp draft)).wellFormed = true := by
  have hrecord := wellFormed_recordFields draft.raw_wellFormed
  exact ((((hrecord.setEntry "seq" (wellFormed_nat seq)).setEntry "eventId"
    (wellFormed_orElse hrecord "eventId" draft.uuid)).setEntry "schemaVersion"
    (wellFormed_nat 1)).setEntry "timestamp" (wellFormed_orElse hrecord "timestamp" timestamp)).obj

/-! ## Entries and their lines -/

/-- An event object with the time of its batch. -/
structure Entry where
  draft : Draft
  timestamp : String
  timestamp_ne : timestamp ≠ ""

/-- The entries of a batch. -/
def Batch.entries (batch : Batch) : List Entry :=
  batch.drafts.map fun draft => ⟨draft, batch.timestamp, batch.timestamp_ne⟩

/-- The event that is written for an entry. -/
def Entry.event (seq : Nat) (entry : Entry) : Json :=
  .obj (preparedFields seq entry.timestamp entry.draft)

/-- The events that are written for a list of entries, numbered from `seq`. -/
def entryEvents : Nat → List Entry → List Json
  | _, [] => []
  | seq, entry :: entries => entry.event seq :: entryEvents (seq + 1) entries

/-- All entries are identified. -/
def AllIdentified (entries : List Entry) : Prop :=
  ∀ entry ∈ entries, entry.draft.identified = true

theorem length_entries (batch : Batch) : batch.entries.length = batch.drafts.length :=
  length_map _

theorem prepare_eq (batch : Batch) (seq : Nat) :
    prepare batch.timestamp seq batch.drafts = entryEvents seq batch.entries := by
  unfold Batch.entries
  induction batch.drafts generalizing seq with
  | nil => rfl
  | cons draft drafts ih =>
    rw [prepare, map_cons, entryEvents, ih]
    rfl

theorem entryEvents_append (seq : Nat) (a b : List Entry) :
    entryEvents seq (a ++ b) = entryEvents seq a ++ entryEvents (seq + a.length) b := by
  induction a generalizing seq with
  | nil => rfl
  | cons entry a ih =>
    rw [cons_append, entryEvents, entryEvents, ih, length_cons, cons_append,
      Nat.add_assoc, Nat.add_comm 1]

theorem length_entryEvents (seq : Nat) (entries : List Entry) :
    (entryEvents seq entries).length = entries.length := by
  induction entries generalizing seq with
  | nil => rfl
  | cons entry entries ih => simp [entryEvents, ih]

theorem linesText_append (a b : List Json) : linesText (a ++ b) = linesText a ++ linesText b :=
  flatMap_append

theorem linesText_cons (event : Json) (events : List Json) :
    linesText (event :: events) = event.text ++ '\n' :: linesText events := by
  simp [linesText]

variable {filePath : String} {entry : Entry}

/-- The line of an entry is read back if the entry is identified, and else is no event. -/
theorem parseEventLine_entry (hseq : 0 < seq) :
    (entry.draft.identified = true →
      parseEventLine (entry.event seq).text filePath = .ok (entry.event seq)) ∧
    (entry.draft.identified = false →
      ∃ e, parseEventLine (entry.event seq).text filePath = .error e) := by
  have hparse : Json.parse (String.ofList (entry.event seq).text) = some (entry.event seq) :=
    Json.parse_text wellFormed_prepared
  have hinteger : isPositiveInteger ((entry.event seq).get? "seq") = true := by
    have hone : (1 : ℚ) ≤ (seq : ℚ) := by exact_mod_cast hseq
    rw [Entry.event, seq_prepared]
    simp [isPositiveInteger, Json.nat, hone]
  have hid : isNonEmptyString ((entry.event seq).get? "eventId") =
      isTextOrAbsent (Json.field? "eventId" (recordFields entry.draft.raw)) := by
    rw [Entry.event, eventId_prepared, isNonEmptyString_orElse entry.draft.uuid_ne]
  have htime : isNonEmptyString ((entry.event seq).get? "timestamp") =
      isTextOrAbsent (Json.field? "timestamp" (recordFields entry.draft.raw)) := by
    rw [Entry.event, timestamp_prepared, isNonEmptyString_orElse entry.timestamp_ne]
  have hobject : isObject (entry.event seq) = true := rfl
  unfold parseEventLine Draft.identified
  rw [hparse]
  simp only [hobject, hinteger, hid, htime]
  constructor
  · intro h
    rw [Bool.and_eq_true] at h
    simp [h.1, h.2]
  · intro h
    cases hidentified : isTextOrAbsent (Json.field? "eventId" (recordFields entry.draft.raw)) with
    | false => exact ⟨_, rfl⟩
    | true =>
      rw [hidentified, Bool.true_and] at h
      rw [h]
      exact ⟨_, rfl⟩

theorem isBlank_event (entry : Entry) (seq : Nat) : isBlank (entry.event seq).text = false :=
  isBlank_append_object [] _

theorem readLines_entries (hseq : 0 < seq) (entries : List Entry) :
    (AllIdentified entries →
      readLines filePath ((entryEvents seq entries).map Json.text) =
        .ok (entryEvents seq entries)) ∧
    (¬AllIdentified entries →
      ∃ e, readLines filePath ((entryEvents seq entries).map Json.text) = .error e) := by
  induction entries generalizing seq with
  | nil => exact ⟨fun _ => rfl, fun h => absurd (by intro entry hentry; cases hentry) h⟩
  | cons entry entries ih =>
    obtain ⟨hall, hsome⟩ := @ih (seq + 1) (by omega)
    obtain ⟨hok, herror⟩ := @parseEventLine_entry seq filePath entry hseq
    simp only [entryEvents, map_cons, readLines, isBlank_event]
    constructor
    · intro h
      rw [hok (h entry mem_cons_self),
        hall fun entry hentry => h entry (mem_cons_of_mem _ hentry)]
      rfl
    · intro h
      cases hidentified : entry.draft.identified with
      | false =>
        obtain ⟨e, he⟩ := herror hidentified
        rw [he]
        exact ⟨e, rfl⟩
      | true =>
        have hrest : ¬AllIdentified entries := by
          intro hrest
          apply h
          intro entry' hentry'
          rcases List.mem_cons.1 hentry' with rfl | hentry'
          · exact hidentified
          · exact hrest entry' hentry'
        obtain ⟨e, he⟩ := hsome hrest
        rw [hok hidentified, he]
        exact ⟨e, rfl⟩

/-- **A journal file with a tail.** -/
theorem parseJournalFile_entries (entries : List Entry) {tail : List Char} (htail : '\n' ∉ tail) :
    (AllIdentified entries →
      parseJournalFile (linesText (entryEvents 1 entries) ++ tail) filePath =
        .ok ⟨entryEvents 1 entries ++ (readTail filePath tail).events,
          (readTail filePath tail).truncatedTail⟩) ∧
    (¬AllIdentified entries →
      ∃ e, parseJournalFile (linesText (entryEvents 1 entries) ++ tail) filePath = .error e) := by
  obtain ⟨hall, hsome⟩ := @readLines_entries 1 filePath Nat.one_pos entries
  rw [linesText_eq, parseJournalFile_eq (newline_not_mem_texts _) htail]
  constructor
  · intro h
    rw [hall h]
    rfl
  · intro h
    obtain ⟨e, he⟩ := hsome h
    rw [he]
    exact ⟨e, rfl⟩

/-! ## The cut -/

/-- The entries whose complete lines are within the first `n` characters. -/
def reached : Nat → Nat → List Entry → List Entry
  | _, _, [] => []
  | n, seq, entry :: entries =>
    let line := (entry.event seq).text
    if line.length + 1 ≤ n then entry :: reached (n - (line.length + 1)) (seq + 1) entries else []

/-- The entry of whose line all but the newline is within the first `n` characters. -/
def unterminated : Nat → Nat → List Entry → Option Entry
  | _, _, [] => none
  | n, seq, entry :: entries =>
    let line := (entry.event seq).text
    if line.length + 1 ≤ n then unterminated (n - (line.length + 1)) (seq + 1) entries
    else if line.length = n then some entry
    else none

/-- What is left of the line that the cut falls into. -/
def cutLine : Nat → Nat → List Entry → List Char
  | _, _, [] => []
  | n, seq, entry :: entries =>
    let line := (entry.event seq).text
    if line.length + 1 ≤ n then cutLine (n - (line.length + 1)) (seq + 1) entries else line.take n

/-- What reaches the file: the complete lines, and what is left of the next one. -/
theorem take_linesText (n seq : Nat) (entries : List Entry) :
    (linesText (entryEvents seq entries)).take n =
      linesText (entryEvents seq (reached n seq entries)) ++ cutLine n seq entries := by
  induction entries generalizing n seq with
  | nil => simp [entryEvents, reached, cutLine, linesText]
  | cons entry entries ih =>
    simp only [entryEvents, reached, cutLine, linesText_cons]
    by_cases hn : (entry.event seq).text.length + 1 ≤ n
    · rw [if_pos hn, if_pos hn, entryEvents, linesText_cons, append_assoc, cons_append,
        ← ih, take_append, take_of_length_le (by omega)]
      obtain ⟨m, hm⟩ : ∃ m, n - (entry.event seq).text.length = m + 1 :=
        ⟨n - (entry.event seq).text.length - 1, by omega⟩
      rw [hm, take_succ_cons, show n - ((entry.event seq).text.length + 1) = m by omega]
    · rw [if_neg hn, if_neg hn, take_append, show n - (entry.event seq).text.length = 0 by omega]
      simp [entryEvents, linesText]

theorem newline_not_mem_cutLine (n seq : Nat) (entries : List Entry) :
    '\n' ∉ cutLine n seq entries := by
  induction entries generalizing n seq with
  | nil => simp [cutLine]
  | cons entry entries ih =>
    simp only [cutLine]
    split_ifs with hn
    · exact ih _ _
    · intro hmem
      exact Json.newline_not_mem_text _ (mem_of_mem_take hmem)

/-- Is the cut right before the newline of an identified entry? -/
def cutBeforeNewline (n seq : Nat) (entries : List Entry) : Bool :=
  (unterminated n seq entries).any fun entry => entry.draft.identified

/-- What is read from the rest of the line that the cut falls into. -/
theorem readTail_cutLine (n : Nat) (hseq : 0 < seq) (entries : List Entry) :
    (cutBeforeNewline n seq entries = true →
      ∃ event, readTail filePath (cutLine n seq entries) = ⟨[event], false⟩) ∧
    (cutBeforeNewline n seq entries = false →
      ∃ truncated, readTail filePath (cutLine n seq entries) = ⟨[], truncated⟩ ∧
        (truncated = false → cutLine n seq entries = [])) := by
  induction entries generalizing n seq with
  | nil => exact ⟨fun h => by simp [cutBeforeNewline, unterminated] at h, fun _ =>
      ⟨false, rfl, fun _ => rfl⟩⟩
  | cons entry entries ih =>
    simp only [cutBeforeNewline, unterminated, cutLine]
    by_cases hn : (entry.event seq).text.length + 1 ≤ n
    · rw [if_pos hn, if_pos hn]
      exact @ih (seq + 1) _ (by omega)
    · rw [if_neg hn, if_neg hn]
      obtain ⟨hok, herror⟩ := @parseEventLine_entry seq filePath entry hseq
      by_cases hlength : (entry.event seq).text.length = n
      · -- everything but the newline
        rw [if_pos hlength, take_of_length_le (by omega)]
        constructor
        · intro h
          refine ⟨entry.event seq, ?_⟩
          rw [readTail, isBlank_event, hok h]
          rfl
        · intro h
          obtain ⟨e, he⟩ := herror h
          refine ⟨true, ?_, fun h => by cases h⟩
          rw [readTail, isBlank_event, he]
          rfl
      · rw [if_neg hlength]
        refine ⟨fun h => by simp at h, fun _ => ?_⟩
        cases n with
        | zero => exact ⟨false, rfl, fun _ => rfl⟩
        | succ n =>
          -- the text of an object that is cut short
          have hparse : Json.parse (String.ofList ((entry.event seq).text.take (n + 1))) = none := by
            refine Json.parse_prefix_text wellFormed_prepared (take_append_drop (n + 1) _) ?_
            rw [Ne, drop_eq_nil_iff]
            omega
          have hblank : isBlank ((entry.event seq).text.take (n + 1)) = false :=
            isBlank_of_mem (c := '\x7b') (by simp [Entry.event, Json.text]) (by decide)
          refine ⟨true, ?_, fun h => by cases h⟩
          simp [readTail, hblank, parseEventLine, hparse]

/-! ## Journals of entries -/

/-- The journal is kept in a file that holds the lines of the entries, and then the tail. -/
def Holds (journal : Journal) (entries : List Entry) (tail : List Char) : Prop :=
  ∃ filePath content, journal.storage = .file filePath content ∧
    content.getD [] = linesText (entryEvents 1 entries) ++ tail

theorem load_file {journal : Journal} {filePath : String} {content : Option (List Char)}
    (h : journal.storage = .file filePath content) :
    journal.load ok = parseJournalFile (content.getD []) filePath := by
  unfold Journal.load
  rw [h]
  simp only [readTextFile, ok, if_true, bind, Except.bind]
  cases content with
  | none => rfl
  | some content => rfl

variable {journal : Journal} {entries : List Entry} {tail : List Char}

/-- Loading a journal of entries. -/
theorem Holds.load (h : Holds journal entries tail) (htail : '\n' ∉ tail) :
    (AllIdentified entries → ∃ filePath,
      journal.load ok = .ok ⟨entryEvents 1 entries ++ (readTail filePath tail).events,
        (readTail filePath tail).truncatedTail⟩) ∧
    (¬AllIdentified entries → ∃ e, journal.load ok = .error e) := by
  obtain ⟨filePath, content, hstorage, hcontent⟩ := h
  obtain ⟨hall, hsome⟩ := @parseJournalFile_entries filePath entries tail htail
  rw [load_file hstorage, hcontent]
  exact ⟨fun h => ⟨filePath, hall h⟩, hsome⟩

/-- Loading a journal of complete lines. -/
theorem Holds.load_lines (h : Holds journal entries []) :
    (AllIdentified entries → journal.load ok = .ok ⟨entryEvents 1 entries, false⟩) ∧
    (¬AllIdentified entries → ∃ e, journal.load ok = .error e) := by
  obtain ⟨hall, hsome⟩ := h.load (by simp)
  refine ⟨fun hidentified => ?_, hsome⟩
  obtain ⟨filePath, hload⟩ := hall hidentified
  simpa [readTail, isBlank_nil] using hload

/-- An append to complete lines: it succeeds exactly when they can be read. -/
theorem Holds.append (h : Holds journal entries []) (hidentified : AllIdentified entries)
    (batch : Batch) :
    ∃ result journal', journal.appendBatch batch none ok = (.ok result, journal') ∧
      Holds journal' (entries ++ batch.entries) [] := by
  have hload := h.load_lines.1 hidentified
  obtain ⟨filePath, content, hstorage, hcontent⟩ := h
  unfold Journal.appendBatch
  simp only [any_none, hload, prepare_eq, length_entryEvents]
  rw [if_neg Bool.false_ne_true, if_neg Bool.false_ne_true]
  by_cases hempty : (entryEvents (entries.length + 1) batch.entries).isEmpty = true
  · rw [if_pos hempty]
    refine ⟨_, _, rfl, filePath, content, hstorage, ?_⟩
    rw [isEmpty_iff_length_eq_zero, length_entryEvents] at hempty
    rw [List.length_eq_zero_iff.1 hempty, append_nil entries]
    exact hcontent
  · rw [if_neg hempty]
    simp only [Journal.writeBatch, hstorage, ok, Disk.written]
    refine ⟨_, _, rfl, filePath, _, rfl, ?_⟩
    rw [getD_some, hcontent, entryEvents_append, linesText_append, Nat.add_comm 1]
    simp

/-- An append whose write is cut off after `n` characters. -/
theorem Holds.append_cut (h : Holds journal entries []) (hidentified : AllIdentified entries)
    (batch : Batch) (n : Nat) :
    Holds (journal.appendBatch batch none ⟨true, some n⟩).2
      (entries ++ reached n (entries.length + 1) batch.entries)
      (cutLine n (entries.length + 1) batch.entries) := by
  have hload : journal.load ⟨true, some n⟩ = .ok ⟨entryEvents 1 entries, false⟩ := by
    rw [← h.load_lines.1 hidentified]
    rfl
  obtain ⟨filePath, content, hstorage, hcontent⟩ := h
  unfold Journal.appendBatch
  simp only [any_none, hload, prepare_eq, length_entryEvents]
  rw [if_neg Bool.false_ne_true, if_neg Bool.false_ne_true]
  by_cases hempty : (entryEvents (entries.length + 1) batch.entries).isEmpty = true
  · rw [if_pos hempty]
    refine ⟨filePath, content, hstorage, ?_⟩
    rw [isEmpty_iff_length_eq_zero, length_entryEvents] at hempty
    rw [List.length_eq_zero_iff.1 hempty, reached, cutLine, append_nil entries]
    exact hcontent
  · rw [if_neg hempty]
    simp only [Journal.writeBatch, hstorage, Disk.written]
    refine ⟨filePath, _, rfl, ?_⟩
    rw [getD_some, hcontent, take_linesText, entryEvents_append, linesText_append,
      Nat.add_comm 1]
    simp

/-- The repair of a journal whose tail is cut short. -/
theorem Holds.repair (h : Holds journal entries tail) (hidentified : AllIdentified entries)
    (hnewline : '\n' ∉ tail)
    (htail : ∀ filePath, ∃ truncated, readTail filePath tail = ⟨[], truncated⟩ ∧
      (truncated = false → tail = [])) :
    ∃ repaired journal', journal.repairTail ok = (.ok repaired, journal') ∧
      Holds journal' entries [] := by
  obtain ⟨filePath, content, hstorage, hcontent⟩ := h
  obtain ⟨truncated, hread, hnil⟩ := htail filePath
  have hparse := (@parseJournalFile_entries filePath entries tail hnewline).1 hidentified
  rw [← hcontent, hread] at hparse
  unfold Journal.repairTail
  simp only [hstorage, readTextFile, ok, if_true]
  cases content with
  | none =>
    refine ⟨_, _, rfl, filePath, none, hstorage, ?_⟩
    have hnil := List.append_eq_nil_iff.1 hcontent.symm
    rw [append_nil, hnil.1]
    rfl
  | some content =>
    simp only [getD_some] at hparse hcontent
    simp only [hparse, append_nil]
    cases truncated with
    | false =>
      refine ⟨_, _, rfl, filePath, some content, hstorage, ?_⟩
      rw [getD_some, hcontent, hnil rfl]
    | true =>
      refine ⟨_, _, rfl, filePath, some (linesText (entryEvents 1 entries)), rfl, ?_⟩
      simp

/-! ## Interrupted and repaired -/

/-- A call of `appendBatch`. -/
structure Call where
  batch : Batch
  expectedRevision : Option ℚ

/-- The journal after calls that all succeed. -/
def appendAll : Journal → List Call → Option Journal
  | journal, [] => some journal
  | journal, call :: calls =>
    match journal.appendBatch call.batch call.expectedRevision Disk.ok with
    | (.ok _, journal') => appendAll journal' calls
    | (.error _, _) => none

/-- The entries of the calls, in order. -/
def callEntries (calls : List Call) : List Entry := calls.flatMap fun call => call.batch.entries

/-- The sequence numbers of the events are 1, 2, 3, … -/
def Contiguous (events : List Json) : Prop :=
  events.map (fun event => event.get? "seq") =
    (List.range' 1 events.length).map fun seq => some (Json.nat seq)

/-- The journal survives an append of `interrupted` that is cut off after `n` characters: it could
be read before, `repairTail` and the append of `later` succeed, and what is read back are the old
events, those whose complete lines reached the file, and the new ones.  The journal object that
repairs may be another one on the same file, with a counter of its own. -/
def Survives (journal : Journal) (old : List Entry) (interrupted : Batch) (n counter : Nat)
    (later : Batch) : Prop :=
  let cut := (journal.appendBatch interrupted none ⟨true, some n⟩).2
  let repaired := Journal.repairTail { cut with revision := counter } Disk.ok
  let appended := repaired.2.appendBatch later none Disk.ok
  let expected := entryEvents 1
    (old ++ reached n (old.length + 1) interrupted.entries ++ later.entries)
  (∃ loaded, journal.load Disk.ok = .ok loaded) ∧ (∃ b, repaired.1 = .ok b) ∧
    (∃ result, appended.1 = .ok result) ∧
    appended.2.load Disk.ok = .ok ⟨expected, false⟩ ∧ Contiguous expected

theorem contiguous_entryEvents (seq : Nat) (entries : List Entry) :
    (entryEvents seq entries).map (fun event => event.get? "seq") =
      (List.range' seq (entryEvents seq entries).length).map fun seq => some (Json.nat seq) := by
  induction entries generalizing seq with
  | nil => rfl
  | cons entry entries ih =>
    rw [entryEvents, map_cons, ih, length_cons, range'_succ, map_cons,
      Entry.event, seq_prepared]

variable {journal' : Journal}

/-- A call that succeeds does what it does without an expected revision. -/
theorem appendBatch_ok {batch : Batch} {expectedRevision : Option ℚ} {result : AppendResult}
    (h : journal.appendBatch batch expectedRevision ok = (.ok result, journal')) :
    journal.appendBatch batch none ok = (.ok result, journal') ∧
      ∃ loaded, journal.load ok = .ok loaded := by
  unfold Journal.appendBatch at h ⊢
  by_cases hconflict : expectedRevision.any (· ≠ (journal.revision : ℚ)) = true
  · rw [if_pos hconflict] at h
    cases h
  · rw [if_neg hconflict] at h
    rw [any_none, if_neg Bool.false_ne_true]
    refine ⟨h, ?_⟩
    cases hload : journal.load ok with
    | error e => simp [hload] at h
    | ok loaded => exact ⟨loaded, rfl⟩

/-- **A journal built by successful appends** holds their events. -/
theorem Holds.appendAll {calls : List Call} (h : Holds journal entries [])
    (hcalls : appendAll journal calls = some journal') :
    Holds journal' (entries ++ callEntries calls) [] := by
  induction calls generalizing journal entries with
  | nil =>
    cases hcalls
    simpa [callEntries] using h
  | cons call calls ih =>
    rw [Execution.appendAll] at hcalls
    cases happend : journal.appendBatch call.batch call.expectedRevision ok with
    | mk result next =>
      cases result with
      | error e => simp [happend] at hcalls
      | ok result =>
        simp only [happend] at hcalls
        obtain ⟨hplain, loaded, hload⟩ := appendBatch_ok happend
        have hidentified : AllIdentified entries := by
          by_contra hnot
          obtain ⟨e, he⟩ := h.load_lines.2 hnot
          rw [he] at hload
          cases hload
        obtain ⟨result', next', hwritten, hnext⟩ := h.append hidentified call.batch
        rw [hplain] at hwritten
        cases hwritten
        have hholds := ih hnext hcalls
        simpa [callEntries] using hholds

theorem holds_open (sessionId filePath : String) :
    Holds (Journal.open sessionId filePath none) [] [] :=
  ⟨filePath, none, rfl, rfl⟩

theorem Holds.counter (h : Holds journal entries tail) (counter : Nat) :
    Holds { journal with revision := counter } entries tail :=
  h

theorem allIdentified_append {a b : List Entry} :
    AllIdentified (a ++ b) ↔ AllIdentified a ∧ AllIdentified b := by
  simp only [AllIdentified, mem_append]
  constructor
  · intro h
    exact ⟨fun entry hentry => h entry (.inl hentry), fun entry hentry => h entry (.inr hentry)⟩
  · rintro ⟨ha, hb⟩ entry (hentry | hentry)
    · exact ha entry hentry
    · exact hb entry hentry

/-- A terminated line that is not an event: the repair fails. -/
theorem Holds.repair_error (h : Holds journal entries tail) (hnewline : '\n' ∉ tail)
    (hnot : ¬AllIdentified entries) : ∃ e, (journal.repairTail ok).1 = .error e := by
  obtain ⟨filePath, content, hstorage, hcontent⟩ := h
  obtain ⟨e, he⟩ := (@parseJournalFile_entries filePath entries tail hnewline).2 hnot
  rw [← hcontent] at he
  refine ⟨e, ?_⟩
  unfold Journal.repairTail
  simp only [hstorage, readTextFile, ok, if_true]
  cases content with
  | none => cases he
  | some content =>
    rw [getD_some] at he
    simp only [he]

/-- A tail that is an event is not repaired. -/
theorem Holds.repair_event (h : Holds journal entries tail) (hidentified : AllIdentified entries)
    (hnewline : '\n' ∉ tail) (htail : ∀ filePath, ∃ event, readTail filePath tail = ⟨[event], false⟩) :
    (journal.repairTail ok).2 = journal := by
  obtain ⟨filePath, content, hstorage, hcontent⟩ := h
  obtain ⟨event, hevent⟩ := htail filePath
  have hparse := (@parseJournalFile_entries filePath entries tail hnewline).1 hidentified
  rw [← hcontent, hevent] at hparse
  unfold Journal.repairTail
  simp only [hstorage, readTextFile, ok, if_true]
  cases content with
  | none => rfl
  | some content =>
    rw [getD_some] at hparse
    simp only [hparse]
    rfl

/-- After an append to a file whose last line is an event without a newline, the file cannot be
read, or holds one event more than the terminated lines and the batch. -/
theorem Holds.append_event (h : Holds journal entries tail) (hidentified : AllIdentified entries)
    (hnewline : '\n' ∉ tail) (htail : ∀ filePath, ∃ event, readTail filePath tail = ⟨[event], false⟩)
    (batch : Batch) {events : List Json}
    (hload : (journal.appendBatch batch none ok).2.load ok = .ok ⟨events, false⟩) :
    events.length = entries.length + 1 + batch.drafts.length := by
  obtain ⟨filePath, content, hstorage, hcontent⟩ := h
  obtain ⟨event, hevent⟩ := htail filePath
  have hparse := (@parseJournalFile_entries filePath entries tail hnewline).1 hidentified
  rw [← hcontent, hevent] at hparse
  have hbefore := load_file hstorage
  rw [hparse] at hbefore
  unfold Journal.appendBatch at hload
  simp only [any_none, hbefore, length_append, length_entryEvents, length_singleton]
    at hload
  rw [if_neg Bool.false_ne_true, if_neg Bool.false_ne_true] at hload
  have hlength := length_prepare batch.timestamp (entries.length + 1 + 1) batch.drafts
  have hobjects := objects_prepare batch.timestamp (entries.length + 1 + 1) batch.drafts
  generalize prepare batch.timestamp (entries.length + 1 + 1) batch.drafts = prepared at *
  cases prepared with
  | nil =>
    rw [isEmpty_nil, if_pos rfl, hbefore] at hload
    cases hload
    simp [length_entryEvents, ← hlength]
  | cons first rest =>
    rw [isEmpty_cons, if_neg Bool.false_ne_true] at hload
    simp only [Journal.writeBatch, hstorage, ok, Disk.written] at hload
    have hafter := load_append hobjects hparse rfl hload
    simp only [length_append, length_entryEvents, length_singleton] at hafter
    rw [hafter, hlength]

/-- A journal of complete lines, and an append that is cut off. -/
theorem Holds.survives_iff {old : List Entry} (hold : Holds journal old []) (interrupted : Batch)
    (n counter : Nat) (later : Batch) :
    Survives journal old interrupted n counter later ↔
      AllIdentified old ∧
      AllIdentified (reached n (old.length + 1) interrupted.entries) ∧
      cutBeforeNewline n (old.length + 1) interrupted.entries = false ∧
      AllIdentified later.entries := by
  by_cases hidentified : AllIdentified old
  swap
  · -- the events that are there cannot be read
    obtain ⟨e, he⟩ := hold.load_lines.2 hidentified
    refine iff_of_false ?_ fun h => hidentified h.1
    rintro ⟨⟨loaded, hload⟩, -⟩
    rw [he] at hload
    cases hload
  have hcut := (hold.append_cut hidentified interrupted n).counter counter
  have hnewline := newline_not_mem_cutLine n (old.length + 1) interrupted.entries
  by_cases hreached : AllIdentified (reached n (old.length + 1) interrupted.entries)
  swap
  · -- a complete line that is not an event
    obtain ⟨e, he⟩ := hcut.repair_error hnewline fun h => hreached (allIdentified_append.1 h).2
    refine iff_of_false ?_ fun h => hreached h.2.1
    rintro ⟨-, ⟨b, hb⟩, -⟩
    rw [he] at hb
    cases hb
  have hlines : AllIdentified (old ++ reached n (old.length + 1) interrupted.entries) :=
    allIdentified_append.2 ⟨hidentified, hreached⟩
  have htail := fun filePath => @readTail_cutLine (old.length + 1) filePath n (Nat.succ_pos _)
    interrupted.entries
  cases hbefore : cutBeforeNewline n (old.length + 1) interrupted.entries with
  | true =>
    refine iff_of_false ?_ fun h => Bool.noConfusion h.2.2.1
    rintro ⟨-, -, -, hload, -⟩
    have hevent := fun filePath => (htail filePath).1 hbefore
    rw [hcut.repair_event hlines hnewline hevent] at hload
    have hlength := hcut.append_event hlines hnewline hevent later hload
    rw [length_entryEvents, length_append, length_entries] at hlength
    omega
  | false =>
    obtain ⟨b, repaired, hrepair, hrepaired⟩ := hcut.repair hlines hnewline fun filePath =>
      (htail filePath).2 hbefore
    obtain ⟨result, appended, happend, happended⟩ := hrepaired.append hlines later
    unfold Survives
    simp only [hrepair, happend]
    by_cases hlater : AllIdentified later.entries
    · have hload := happended.load_lines.1 (allIdentified_append.2 ⟨hlines, hlater⟩)
      refine iff_of_true ?_ ⟨hidentified, hreached, trivial, hlater⟩
      exact ⟨⟨_, hold.load_lines.1 hidentified⟩, ⟨b, rfl⟩, ⟨result, rfl⟩, hload,
        contiguous_entryEvents 1 _⟩
    · obtain ⟨e, he⟩ := happended.load_lines.2 fun h => hlater (allIdentified_append.1 h).2
      refine iff_of_false ?_ fun h => hlater h.2.2.2
      rintro ⟨-, -, -, hload, -⟩
      rw [he] at hload
      cases hload

/-- **Interrupted appends.**  A journal built by successful appends survives a further append that
is cut off anywhere exactly when all its events, those whose complete lines reached the file and
those appended later are identified, and the cut is not right before the newline of an identified
event. -/
theorem journal_survives_iff (sessionId filePath : String) (calls : List Call) (journal : Journal)
    (hbuilt : appendAll (Journal.open sessionId filePath none) calls = some journal)
    (interrupted : Batch) (n counter : Nat) (later : Batch) :
    Survives journal (callEntries calls) interrupted n counter later ↔
      AllIdentified (callEntries calls) ∧
      AllIdentified (reached n ((callEntries calls).length + 1) interrupted.entries) ∧
      cutBeforeNewline n ((callEntries calls).length + 1) interrupted.entries = false ∧
      AllIdentified later.entries := by
  have hold := (holds_open sessionId filePath).appendAll hbuilt
  rw [nil_append] at hold
  exact hold.survives_iff interrupted n counter later

theorem allIdentified_oneEvent : AllIdentified oneEvent.entries := by
  intro entry hentry
  rw [Batch.entries, mem_map] at hentry
  obtain ⟨draft, hdraft, rfl⟩ := hentry
  rw [oneEvent, mem_singleton] at hdraft
  subst hdraft
  rfl

/-- A cut after three characters of the second event. -/
theorem journal_survives_iff_threeCharacters :
    ∃ journal, appendAll (Journal.open "s" "journal" none) [⟨oneEvent, none⟩] = some journal ∧
      Survives journal (callEntries [⟨oneEvent, none⟩]) oneEvent 3 0 oneEvent := by
  obtain ⟨result, journal, happend, -⟩ := (holds_open "s" "journal").append
    (by intro entry hentry; cases hentry) oneEvent
  have hbuilt : appendAll (Journal.open "s" "journal" none) [⟨oneEvent, none⟩] = some journal := by
    rw [appendAll, happend]
    rfl
  have hreached : (reached 3 2 oneEvent.entries).length = 0 := by decide
  have hbefore : cutBeforeNewline 3 2 oneEvent.entries = false := by decide
  refine ⟨journal, hbuilt, (journal_survives_iff _ _ _ _ hbuilt oneEvent 3 0 oneEvent).2 ?_⟩
  have hentries : callEntries [⟨oneEvent, none⟩] = oneEvent.entries := by simp [callEntries]
  rw [hentries]
  refine ⟨allIdentified_oneEvent, ?_, hbefore, allIdentified_oneEvent⟩
  intro entry hentry
  have hnil : reached 3 2 oneEvent.entries = [] := List.length_eq_zero_iff.1 hreached
  change entry ∈ reached 3 2 oneEvent.entries at hentry
  rw [hnil] at hentry
  cases hentry

/-- A cut right before the newline: the last line is read as an event, `repairTail` leaves it, and
the next append writes on the same line. -/
theorem newline_cut_not_survived :
    ¬ ∀ (sessionId filePath : String) (calls : List Call) (journal : Journal),
      appendAll (Journal.open sessionId filePath none) calls = some journal →
      ∀ (interrupted : Batch) (n counter : Nat) (later : Batch),
        Survives journal (callEntries calls) interrupted n counter later := by
  intro h
  have hsurvives := h "s" "journal" [] _ rfl oneEvent 69 0 oneEvent
  have hbefore := (((holds_open "s" "journal").survives_iff oneEvent 69 0 oneEvent).1 hsurvives).2.2.1
  exact absurd hbefore (by decide)

end BeauPi.Execution
