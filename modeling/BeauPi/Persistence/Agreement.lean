import BeauPi.Machine.Fallible
import BeauPi.Persistence.Coordinator

/-!
# The file and the memory agree

The same operations on a coordinator and on the backend in memory, where the coordinator may be
discarded and a new one opened on the file.

* `Raw.durable` — an event that a line of the file gives back.
* `Tied` — the file holds the lines of the events in memory.
* `alwaysAgrees_of_meets` — **all results agree while events are durable and the counter of a
  reopened coordinator is not used before an append has set it**.
-/

namespace BeauPi.Persistence

open Machine List Execution
open OrderedMap (getEntry_eq_some nodup_setEntry)
open Execution (Loaded isObject isPositiveInteger isNonEmptyString isBlank linesText readLines)

variable {filePath : String} {c : Coordinator} {m : Memory} {jsons : List Json}

/-! ## Operations on both -/

/-- A call on both backends, or a new coordinator on the same file. -/
inductive Action
  | appendBatch (batch : Batch) (expectedRevision : Option ℚ)
  | readAfter (seq : ℚ)
  | inspect
  | repairTail
  | reopen

/-- What a call gives, as far as the two backends have it in common; `none` if it is rejected. -/
inductive Outcome
  | appended (result : Option PersistenceAppendResult)
  | read (events : Option (List Event))
  | inspected (counts : Option (Nat × Nat × Option Value × Bool))
  | repaired (done : Option Bool)
  | opened
  deriving DecidableEq

/-- The numbers of an inspection. -/
def PersistenceInspection.counts (i : PersistenceInspection) : Nat × Nat × Option Value × Bool :=
  (i.entryCount, i.revision, i.lastSeq, i.truncatedTail)

/-- A call on the coordinator. -/
def Coordinator.step (c : Coordinator) : Action → Outcome × Coordinator
  | .appendBatch batch expectedRevision =>
    let (result, c) := c.appendBatch batch expectedRevision
    (.appended result.toOption, c)
  | .readAfter seq => (.read (c.readAfter seq).toOption, c)
  | .inspect => (.inspected (c.inspect.toOption.map (·.counts)), c)
  | .repairTail =>
    let (result, c) := c.repairTail
    (.repaired result.toOption, c)
  | .reopen => (.opened, .open c.filePath c.sessionId c.content)

/-- A call on the backend in memory. -/
def Memory.step (m : Memory) : Action → Outcome × Memory
  | .appendBatch batch expectedRevision =>
    let (result, m) := m.appendBatch batch expectedRevision
    (.appended result.toOption, m)
  | .readAfter seq => (.read (m.readAfter seq).toOption, m)
  | .inspect => (.inspected (some m.inspect.counts), m)
  | .repairTail => (.repaired (some m.repairTail), m)
  | .reopen => (.opened, m)

/-- All results of a sequence of calls agree. -/
def alwaysAgrees (c : Coordinator) (m : Memory) : List Action → Bool
  | [] => true
  | action :: actions =>
    decide ((c.step action).1 = (m.step action).1) &&
      alwaysAgrees (c.step action).2 (m.step action).2 actions

/-! ## The condition -/

/-- A value that a line gives back. -/
def Value.isJson : Value → Bool
  | .json _ => true
  | _ => false

/-- The value is not there, or a text that is not empty. -/
def isTextOrAbsent : Value → Bool
  | .undefined | .json .null => true
  | .json (.str s) => s != ""
  | _ => false

/-- A property that a line gives back; `seq` and `schemaVersion` are replaced anyway. -/
def durableField (field : String × Value) : Bool :=
  if field.1 = "seq" ∨ field.1 = "schemaVersion" then true
  else if field.1 = "eventId" ∨ field.1 = "timestamp" then isTextOrAbsent field.2
  else field.2.isJson

/-- An event that a line gives back. -/
def Raw.durable : Raw → Bool
  | .object fields => fields.all durableField
  | .callable fields => fields.isEmpty
  | .str s => s = ""
  | .plain => true

/-- Does a call do the same on both?  The counter of the coordinator is used only where it counts
the events, and events that are appended are durable. -/
def meets (c : Coordinator) (m : Memory) : Action → Bool
  | .appendBatch batch expectedRevision =>
    (c.revision = m.events.length || (expectedRevision.isNone && !batch.drafts.isEmpty) ||
      expectedRevision.any fun r => r ≠ (c.revision : ℚ) ∧ r ≠ (m.events.length : ℚ)) &&
    (expectedRevision.any (· ≠ (c.revision : ℚ)) ||
      batch.drafts.all fun draft => draft.raw.durable)
  | _ => true

/-- All calls of a sequence meet the condition. -/
def alwaysMeets (c : Coordinator) (m : Memory) : List Action → Bool
  | [] => true
  | action :: actions =>
    meets c m action && alwaysMeets (c.step action).2 (m.step action).2 actions

/-! ## Lines -/

/-- An event that its line gives back. -/
structure Line (event : Json) : Prop where
  object : ∃ fields, event = .obj fields
  wellFormed : event.wellFormed = true
  seq : isPositiveInteger (event.get? "seq") = true
  eventId : isNonEmptyString (event.get? "eventId") = true
  timestamp : isNonEmptyString (event.get? "timestamp") = true

theorem Line.parse {event : Json} (h : Line event) (filePath : String) :
    parseEventLine event.text filePath = .ok event ∧
      parseJournalLine event.text filePath = .ok event := by
  have hparse : Json.parse (String.ofList event.text) = some event := Json.parse_text h.wellFormed
  have hobject : isObject event = true := by
    obtain ⟨fields, rfl⟩ := h.object
    rfl
  constructor
  · unfold parseEventLine
    rw [hparse]
    simp [hobject, h.seq, h.eventId, h.timestamp]
  · unfold parseJournalLine
    rw [hparse]
    simp [hobject, h.seq, h.eventId, h.timestamp]

/-- Both readers of lines accept the same lines. -/
theorem parseJournalLine_eq (line : List Char) (filePath : String) :
    (parseJournalLine line filePath).toOption =
      (parseEventLine line filePath).toOption := by
  unfold parseJournalLine parseEventLine
  cases Json.parse (String.ofList line) with
  | none => rfl
  | some event =>
    dsimp only
    split_ifs <;> rfl

theorem parseLines_ok {terminated : Bool} {lines : List (List Char)} {loaded : Loaded}
    (h : Execution.parseLines filePath terminated lines = .ok loaded) :
    parseLines filePath terminated lines = .ok loaded := by
  induction lines generalizing loaded with
  | nil =>
    cases h
    rfl
  | cons line rest ih =>
    have hline := parseJournalLine_eq line filePath
    rw [Execution.parseLines] at h
    rw [parseLines]
    split_ifs at h ⊢ with hblank hlast
    · exact ih h
    · cases hevent : parseEventLine line filePath with
      | ok event =>
        rw [hevent] at h hline
        cases hjournal : parseJournalLine line filePath with
        | ok event' =>
          rw [hjournal] at hline
          cases hline
          cases h
          rfl
        | error e =>
          rw [hjournal] at hline
          cases hline
      | error e =>
        rw [hevent] at h hline
        cases hjournal : parseJournalLine line filePath with
        | ok event' =>
          rw [hjournal] at hline
          cases hline
        | error e' =>
          cases h
          rfl
    · obtain ⟨event, hevent, h⟩ := bind_eq_ok.1 h
      obtain ⟨loaded', hrest, h⟩ := bind_eq_ok.1 h
      cases h
      rw [hevent] at hline
      cases hjournal : parseJournalLine line filePath with
      | ok event' =>
        rw [hjournal] at hline
        cases hline
        exact bind_eq_ok.2 ⟨event, rfl, bind_eq_ok.2 ⟨loaded', ih hrest, rfl⟩⟩
      | error e =>
        rw [hjournal] at hline
        cases hline

/-- A file that holds lines of events. -/
theorem parseJournalFile_lines (h : ∀ event ∈ jsons, Line event) (filePath : String) :
    parseJournalFile (linesText jsons) filePath = .ok ⟨jsons, false⟩ := by
  have hread : readLines filePath (jsons.map Json.text) = .ok jsons := by
    induction jsons with
    | nil => rfl
    | cons event events ih =>
      obtain ⟨fields, hfields⟩ := (h event mem_cons_self).object
      have hblank : isBlank event.text = false := by
        rw [hfields]
        exact isBlank_append_object [] fields
      rw [map_cons, readLines, hblank, if_neg Bool.false_ne_true,
        ((h event mem_cons_self).parse filePath).1,
        ih fun event' hevent' => h event' (mem_cons_of_mem _ hevent')]
      rfl
  refine parseLines_ok ?_
  have hfile := @Execution.parseJournalFile_eq _ [] filePath (newline_not_mem_texts jsons)
    (by simp)
  rw [hread, append_nil, ← linesText_eq] at hfile
  exact hfile.trans (by simp [readTail, isBlank_nil, bind, Except.bind])

/-! ## Durable events -/

/-- All properties of an event are JSON values. -/
structure IsLine (event : Event) (json : Json) : Prop where
  shown : ∃ fields, json = .obj fields ∧ shownFields event = some fields
  event : eventOf json = event
  line : Line json

theorem shownFields_json {event : Event} (h : ∀ field ∈ event, field.2.isJson = true) :
    ∃ fields, shownFields event = some fields ∧
      event = fields.map fun field => (field.1, Value.json field.2) := by
  induction event with
  | nil => exact ⟨[], rfl, rfl⟩
  | cons field rest ih =>
    obtain ⟨key, value⟩ := field
    obtain ⟨fields, hshown, hrest⟩ := ih fun field hfield => h field (mem_cons_of_mem _ hfield)
    cases value with
    | json json =>
      refine ⟨(key, json) :: fields, ?_, ?_⟩
      · rw [shownFields]
        simp [Value.shown, hshown]
      · rw [map_cons, ← hrest]
    | undefined => cases h _ mem_cons_self
    | other name shown cloneable => cases h _ mem_cons_self

theorem getEntry_json (key : String) (fields : List (String × Json)) :
    OrderedMap.getEntry key (fields.map fun field => (field.1, Value.json field.2)) =
      (Json.field? key fields).map Value.json := by
  induction fields with
  | nil => rfl
  | cons field rest ih =>
    rw [map_cons, OrderedMap.getEntry, Json.field?]
    split
    · rfl
    · exact ih

/-- A text that stands for a value that is not there, or the text itself. -/
theorem orElse_text {value : Option Value} {fallback : String}
    (hvalue : ∀ v ∈ value, isTextOrAbsent v = true) (hfallback : fallback ≠ "") :
    ∃ s, orElse value fallback = .json (.str s) ∧ s ≠ "" := by
  cases value with
  | none => exact ⟨fallback, rfl, hfallback⟩
  | some v =>
    have hv := hvalue v rfl
    cases v with
    | undefined => exact ⟨fallback, rfl, hfallback⟩
    | other name shown cloneable => cases hv
    | json json =>
      cases json with
      | null => exact ⟨fallback, rfl, hfallback⟩
      | str s => exact ⟨s, rfl, by simpa [isTextOrAbsent] using hv⟩
      | _ => cases hv

/-- The properties of a stored event. -/
theorem getEntry_numbered (seq : Nat) (uuid timestamp : String) (record : Event) (key : String) :
    OrderedMap.getEntry key (numbered seq uuid timestamp record record) =
      if key = "timestamp" then
        some (orElse (OrderedMap.getEntry "timestamp" record) timestamp)
      else if key = "schemaVersion" then some (.json (Json.nat 1))
      else if key = "eventId" then some (orElse (OrderedMap.getEntry "eventId" record) uuid)
      else if key = "seq" then some (.json (Json.nat seq))
      else OrderedMap.getEntry key record := by
  simp [numbered, OrderedMap.getEntry_setEntry]

/-- An identifying property of a durable record is a text or absent. -/
theorem isTextOrAbsent_durable {record : Event} (hrecord : WellFormed record)
    (hdurable : record.all durableField = true) {key : String}
    (hkey : key = "eventId" ∨ key = "timestamp") :
    ∀ v ∈ OrderedMap.getEntry key record, isTextOrAbsent v = true := by
  intro v hv
  have hmem := (getEntry_eq_some hrecord.nodup).1 hv
  have hfield := all_eq_true.1 hdurable _ hmem
  rcases hkey with rfl | rfl
  · simpa [durableField] using hfield
  · simpa [durableField] using hfield

/-- **A durable record is stored as an event that its line gives back.** -/
theorem isLine_numbered {seq : Nat} {uuid timestamp : String} {record : Event}
    (hseq : 0 < seq) (huuid : uuid ≠ "") (htimestamp : timestamp ≠ "")
    (hrecord : WellFormed record) (hdurable : record.all durableField = true) :
    ∃ json, IsLine (numbered seq uuid timestamp record record) json := by
  have hnodup : ((numbered seq uuid timestamp record record).map Prod.fst).Nodup :=
    nodup_setEntry (nodup_setEntry (nodup_setEntry
      (nodup_setEntry hrecord.nodup)))
  have hget := getEntry_numbered seq uuid timestamp record
  obtain ⟨id, hid, hidNe⟩ :=
    orElse_text (isTextOrAbsent_durable hrecord hdurable (Or.inl rfl)) huuid
  obtain ⟨time, htime, htimeNe⟩ :=
    orElse_text (isTextOrAbsent_durable hrecord hdurable (Or.inr rfl)) htimestamp
  generalize numbered seq uuid timestamp record record = event at hnodup hget ⊢
  have hvalues : ∀ field ∈ event, ∃ json, field.2 = .json json ∧ json.wellFormed = true := by
    rintro ⟨key, value⟩ hmem
    have hvalue := (getEntry_eq_some hnodup).2 hmem
    rw [hget] at hvalue
    split_ifs at hvalue with hts hversion hevent hseq
    · rw [htime] at hvalue
      cases hvalue
      exact ⟨_, rfl, rfl⟩
    · cases hvalue
      exact ⟨_, rfl, wellFormed_nat 1⟩
    · rw [hid] at hvalue
      cases hvalue
      exact ⟨_, rfl, rfl⟩
    · cases hvalue
      exact ⟨_, rfl, wellFormed_nat seq⟩
    · have hrecordMem := (getEntry_eq_some hrecord.nodup).1 hvalue
      have hfield := all_eq_true.1 hdurable _ hrecordMem
      simp only [durableField, hts, hversion, hevent, hseq, or_self, if_false] at hfield
      cases value with
      | json json => exact ⟨json, rfl, hrecord.values key json hrecordMem⟩
      | undefined => cases hfield
      | other name shown cloneable => cases hfield
  obtain ⟨fields, hshown, rfl⟩ := @shownFields_json event fun field hfield => by
    obtain ⟨json, hjson, -⟩ := hvalues field hfield
    rw [hjson]
    rfl
  have hread : ∀ {key : String} {json : Json},
      OrderedMap.getEntry key (fields.map fun field => (field.1, Value.json field.2)) =
        some (.json json) → (Json.obj fields).get? key = some json := by
    intro key json h
    rw [getEntry_json] at h
    obtain ⟨json', hjson', heq⟩ := Option.map_eq_some_iff.1 h
    cases heq
    exact hjson'
  have hone : (1 : ℚ) ≤ (seq : ℚ) := by exact_mod_cast hseq
  refine ⟨.obj fields, ⟨fields, rfl, hshown⟩, rfl, ⟨fields, rfl⟩, ?_, ?_, ?_, ?_⟩
  · refine Execution.WellFormedFields.obj ⟨?_, fun field hfield => ?_⟩
    · rw [map_map] at hnodup
      exact hnodup
    · obtain ⟨json, hjson, hwellFormed⟩ := hvalues _ (mem_map_of_mem hfield)
      cases hjson
      exact hwellFormed
  · rw [hread (by rw [hget]; rfl)]
    simp [isPositiveInteger, Json.nat, hone]
  · rw [hread (by rw [hget]; exact congrArg some hid)]
    simpa [isNonEmptyString] using hidNe
  · rw [hread (by rw [hget]; exact congrArg some htime)]
    simpa [isNonEmptyString] using htimeNe

variable {batch : Batch} {expectedRevision : Option ℚ} {timestamp : String}

/-- A durable event is spread as a record. -/
theorem durable_record {raw : Raw} (h : raw.durable = true) :
    raw.spread = raw.record ∧ raw.fields = raw.record ∧ raw.record.all durableField = true := by
  cases raw with
  | object fields => exact ⟨rfl, rfl, h⟩
  | callable fields =>
    obtain rfl : fields = [] := by simpa [Raw.durable] using h
    exact ⟨rfl, rfl, rfl⟩
  | str s =>
    obtain rfl : s = "" := by simpa [Raw.durable] using h
    exact ⟨rfl, rfl, rfl⟩
  | plain => exact ⟨rfl, rfl, rfl⟩

/-- Durable events are stored alike. -/
theorem pushed_eq_prepare {drafts : List Draft}
    (h : ∀ draft ∈ drafts, draft.raw.durable = true) (seq : Nat) :
    pushed timestamp seq drafts = prepare timestamp seq drafts := by
  induction drafts generalizing seq with
  | nil => rfl
  | cons draft drafts ih =>
    obtain ⟨hspread, hfields, -⟩ := durable_record (h draft mem_cons_self)
    rw [pushed, prepare, hspread, hfields,
      ih fun draft' hdraft' => h draft' (mem_cons_of_mem _ hdraft')]

/-- Durable events are written as lines. -/
theorem prepare_lines {drafts : List Draft} (htimestamp : timestamp ≠ "")
    (h : ∀ draft ∈ drafts, draft.raw.durable = true) {seq : Nat} (hseq : 0 < seq) :
    ∃ fields, (prepare timestamp seq drafts).mapM shownFields = some fields ∧
      prepare timestamp seq drafts = (fields.map Json.obj).map eventOf ∧
      ∀ json ∈ fields.map Json.obj, Line json := by
  induction drafts generalizing seq with
  | nil => exact ⟨[], rfl, rfl, fun json hjson => by cases hjson⟩
  | cons draft drafts ih =>
    obtain ⟨-, hfields, hdurable⟩ := durable_record (h draft mem_cons_self)
    obtain ⟨json, ⟨first, rfl, hshown⟩, hevent, hline⟩ := @isLine_numbered _ _ timestamp _ hseq
      draft.uuid_ne htimestamp (hfields ▸ draft.raw_wellFormed) hdurable
    obtain ⟨fields, hrest, heq, hlines⟩ :=
      ih (fun draft' hdraft' => h draft' (mem_cons_of_mem _ hdraft')) (Nat.succ_pos seq)
    refine ⟨first :: fields, ?_, ?_, fun json hjson => ?_⟩
    · rw [prepare, mapM_cons, hshown, hrest]
      rfl
    · rw [prepare, heq, map_cons, map_cons, hevent]
    · rcases mem_cons.1 hjson with rfl | hjson
      · exact hline
      · exact hlines json hjson

theorem length_prepare (timestamp : String) (seq : Nat) (drafts : List Draft) :
    (prepare timestamp seq drafts).length = drafts.length := by
  induction drafts generalizing seq with
  | nil => rfl
  | cons draft drafts ih => rw [prepare, length_cons, ih, length_cons]

/-! ## Both in step -/

/-- The file holds the lines of the events in memory. -/
def Tied (c : Coordinator) (m : Memory) : Prop :=
  ∃ jsons, c.content.getD [] = linesText jsons ∧ m.events = jsons.map eventOf ∧
    ∀ json ∈ jsons, Line json

theorem load_lines (hcontent : c.content.getD [] = linesText jsons)
    (hlines : ∀ json ∈ jsons, Line json) : c.load = .ok ⟨jsons, false⟩ := by
  unfold Coordinator.load
  cases hfile : c.content with
  | none =>
    rw [hfile] at hcontent
    cases jsons with
    | nil => rfl
    | cons json rest =>
      rw [linesText_cons] at hcontent
      exact absurd hcontent (by simp)
  | some content =>
    rw [hfile] at hcontent
    obtain rfl : content = linesText jsons := hcontent
    exact parseJournalFile_lines hlines c.filePath

/-- No call finds an incomplete line. -/
theorem repairTail_lines (hcontent : c.content.getD [] = linesText jsons)
    (hlines : ∀ json ∈ jsons, Line json) : c.repairTail = (.ok false, c) := by
  have hload := load_lines hcontent hlines
  unfold Coordinator.repairTail
  unfold Coordinator.load at hload
  cases hfile : c.content with
  | none => rfl
  | some content =>
    rw [hfile] at hload
    dsimp only at hload ⊢
    rw [hload]
    rfl

/-- A call with a wrong revision is rejected. -/
theorem appendBatch_conflict (h : expectedRevision.any (· ≠ (c.revision : ℚ)) = true) :
    ∃ e, c.appendBatch batch expectedRevision = (.error e, c) :=
  ⟨_, if_pos h⟩

theorem Memory.appendBatch_conflict
    (h : expectedRevision.any (· ≠ (m.events.length : ℚ)) = true) :
    ∃ e, m.appendBatch batch expectedRevision = (.error e, m) :=
  ⟨_, if_pos h⟩

/-- A call that both accept. -/
theorem Tied.append (htied : Tied c m)
    (hc : ¬expectedRevision.any (· ≠ (c.revision : ℚ)) = true)
    (hm : ¬expectedRevision.any (· ≠ (m.events.length : ℚ)) = true)
    (hempty : batch.drafts = [] → c.revision = m.events.length)
    (hdurable : ∀ draft ∈ batch.drafts, draft.raw.durable = true) :
    ∃ result c' m', c.appendBatch batch expectedRevision = (.ok result, c') ∧
      m.appendBatch batch expectedRevision = (.ok result, m') ∧ Tied c' m' := by
  obtain ⟨jsons, hcontent, hevents, hlines⟩ := htied
  have hlength : m.events.length = jsons.length := by rw [hevents, length_map]
  have hload := load_lines hcontent hlines
  have hpushed := @pushed_eq_prepare batch.timestamp _ hdurable (jsons.length + 1)
  unfold Coordinator.appendBatch Memory.appendBatch
  rw [if_neg hc, if_neg hm, hload]
  dsimp only
  rw [hlength, hpushed, length_append, length_prepare, hlength]
  by_cases hnone : batch.drafts = []
  · refine ⟨⟨jsons.length + 1, jsons.length, jsons.length⟩, c, m, ?_, ?_, jsons, hcontent,
      hevents, hlines⟩
    · simp [hnone, prepare, hempty hnone, hlength]
    · simp [hnone, prepare]
  · have hprepared : (prepare batch.timestamp (jsons.length + 1) batch.drafts).isEmpty = false := by
      cases hdrafts : batch.drafts with
      | nil => exact absurd hdrafts hnone
      | cons draft drafts => rfl
    obtain ⟨fields, hshown, heq, hnew⟩ :=
      prepare_lines batch.timestamp_ne hdurable (Nat.succ_pos jsons.length)
    have hlast : jsons.length + 1 + batch.drafts.length - 1 =
        jsons.length + batch.drafts.length := by omega
    rw [hprepared, hshown, hlast]
    refine ⟨_, _, _, rfl, rfl, jsons ++ fields.map Json.obj, ?_, ?_, ?_⟩
    · rw [linesText_append, ← hcontent]
      rfl
    · rw [map_append, ← hevents, ← heq]
    · intro json hjson
      rcases mem_append.1 hjson with hjson | hjson
      · exact hlines json hjson
      · exact hnew json hjson

/-- **A call that meets the condition gives the same on both, and they stay tied.** -/
theorem Tied.step (htied : Tied c m) {action : Action} (hmeets : meets c m action = true) :
    (c.step action).1 = (m.step action).1 ∧ Tied (c.step action).2 (m.step action).2 := by
  cases action with
  | appendBatch batch expectedRevision =>
    obtain ⟨hcounter, hdurable⟩ := Bool.and_eq_true_iff.1 hmeets
    by_cases hc : expectedRevision.any (· ≠ (c.revision : ℚ)) = true
    · have hm : expectedRevision.any (· ≠ (m.events.length : ℚ)) = true := by
        cases expectedRevision with
        | none => cases hc
        | some r =>
          simp only [Option.isNone_some, Bool.false_and, Bool.or_false, Option.any_some,
            Bool.or_eq_true, decide_eq_true_eq] at hcounter hc ⊢
          rcases hcounter with hcounter | hcounter
          · rw [← hcounter]
            exact hc
          · exact hcounter.2
      obtain ⟨e, he⟩ := @appendBatch_conflict _ batch _ hc
      obtain ⟨e', he'⟩ := @Memory.appendBatch_conflict _ batch _ hm
      unfold Coordinator.step Memory.step
      dsimp only
      rw [he, he']
      exact ⟨rfl, htied⟩
    · have hm : ¬expectedRevision.any (· ≠ (m.events.length : ℚ)) = true := by
        cases expectedRevision with
        | none => simp
        | some r =>
          simp only [Option.isNone_some, Bool.false_and, Bool.or_false, Option.any_some,
            Bool.or_eq_true, decide_eq_true_eq, not_not] at hcounter hc ⊢
          rcases hcounter with hcounter | hcounter
          · rw [← hcounter]
            exact hc
          · exact absurd hc hcounter.1
      have hempty : batch.drafts = [] → c.revision = m.events.length := by
        intro hnone
        cases expectedRevision with
        | none => simpa [hnone] using hcounter
        | some r =>
          simp only [Option.any_some, decide_eq_true_eq, not_not] at hc hm
          exact_mod_cast hc.symm.trans hm
      have hall : ∀ draft ∈ batch.drafts, draft.raw.durable = true := by
        rcases Bool.or_eq_true_iff.1 hdurable with h | h
        · exact absurd h hc
        · exact all_eq_true.1 h
      obtain ⟨result, c', m', happend, hpush, hnext⟩ := htied.append hc hm hempty hall
      unfold Coordinator.step Memory.step
      dsimp only
      rw [happend, hpush]
      exact ⟨rfl, hnext⟩
  | readAfter seq =>
    have ⟨jsons, hcontent, hevents, hlines⟩ := htied
    refine ⟨?_, htied⟩
    have hload := load_lines hcontent hlines
    simp only [Coordinator.step, Memory.step, Coordinator.readAfter, Memory.readAfter, hload,
      hevents]
    rfl
  | inspect =>
    have ⟨jsons, hcontent, hevents, hlines⟩ := htied
    refine ⟨?_, htied⟩
    have hload := load_lines hcontent hlines
    simp only [Coordinator.step, Memory.step, Coordinator.inspect, Memory.inspect, hload, hevents]
    simp [bind, Except.bind, Except.toOption, PersistenceInspection.counts]
  | repairTail =>
    have ⟨jsons, hcontent, hevents, hlines⟩ := htied
    unfold Coordinator.step Memory.step
    dsimp only
    rw [repairTail_lines hcontent hlines]
    exact ⟨rfl, htied⟩
  | reopen => exact ⟨rfl, htied⟩

theorem Tied.alwaysAgrees (htied : Tied c m) {actions : List Action}
    (hmeets : alwaysMeets c m actions = true) : alwaysAgrees c m actions = true := by
  induction actions generalizing c m with
  | nil => rfl
  | cons action actions ih =>
    obtain ⟨hfirst, hrest⟩ := Bool.and_eq_true_iff.1 hmeets
    obtain ⟨hagree, hnext⟩ := htied.step hfirst
    exact Bool.and_eq_true_iff.2 ⟨decide_eq_true hagree, ih hnext hrest⟩

/-- **On a file that does not exist and an empty memory, all results of a sequence of calls agree if
all calls meet the condition.** -/
theorem alwaysAgrees_of_meets (filePath sessionId : String) {actions : List Action}
    (hmeets : alwaysMeets (.open filePath sessionId none) ⟨[]⟩ actions = true) :
    alwaysAgrees (.open filePath sessionId none) ⟨[]⟩ actions = true :=
  Tied.alwaysAgrees ⟨[], rfl, rfl, fun json hjson => by cases hjson⟩ hmeets

/-- A batch with one event. -/
def startBatch : Batch where
  drafts := [⟨.object [("kind", .json (.str "start"))], "u", ⟨by decide, by simp [Raw.fields]; rfl⟩,
    by decide⟩]
  timestamp := "t"
  timestamp_ne := by decide

/-- An append, a restart, another append and reads. -/
def restarted : List Action :=
  [.appendBatch startBatch none, .reopen, .readAfter 0, .appendBatch startBatch none,
    .appendBatch startBatch (some 2), .repairTail, .inspect]

/-- Both agree over a restart. -/
theorem alwaysAgrees_of_meets_restarted :
    alwaysAgrees (.open "journal.jsonl" "s" none) ⟨[]⟩ restarted = true :=
  alwaysAgrees_of_meets "journal.jsonl" "s" (by decide +kernel)

/-- After a restart the coordinator reports a conflict on the revision that it has itself returned,
and the memory accepts it. -/
theorem reopened_conflicts : ¬∀ (filePath sessionId : String) (actions : List Action),
    alwaysAgrees (.open filePath sessionId none) ⟨[]⟩ actions = true := by
  intro h
  exact absurd (h "journal.jsonl" "s"
    [.appendBatch startBatch none, .reopen, .appendBatch startBatch (some 1)]) (by decide +kernel)

end BeauPi.Persistence
