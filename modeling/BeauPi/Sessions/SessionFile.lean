import BeauPi.Js.JsonParse
import BeauPi.Js.StringDecoder

/-!
# Reading session files

A session file is a list of JSON lines.  One reader loads all entries, another looks for the
header only and gives up after a limit.  Both read the file in pieces; `short` says how short the
reads are.

* `loadEntriesFromFile`, `readSessionHeader` — the two readers.
* `parsedEntries`, `accepted` — what the whole text holds.
* `loadEntriesFromFile_eq`, `readSessionHeader_eq` — what the readers return.
* `readers_agree` — **the readers agree with the whole text, however the reads fall.**
-/

namespace BeauPi.Sessions

open Utf8 List

/-! ## Lines -/

/-- Is a value truthy?  A number is falsy if it is so small that it is read as zero. -/
def isTruthy : Json → Bool
  | .null => false
  | .bool b => b
  | .num n => decide (1 / 2 ^ 1075 < |n|)
  | .str s => decide (s ≠ "")
  | .arr _ | .obj _ => true

/-- `parseSessionEntryLine`; `none` for a blank or malformed line. -/
def parseSessionEntryLine (line : List Char) : Option Json :=
  if Js.trimChars line = [] then none else Json.parse (String.ofList line)

/-- The entry of a line: a falsy value is taken for no entry. -/
def entryOf? (line : List Char) : Option Json := (parseSessionEntryLine line).filter isTruthy

/-- `entry.type === "session" && typeof entry.id === "string"` -/
def isSessionHeader (entry : Json) : Bool :=
  entry.get? "type" == some (.str "session") && (Json.asString? (entry.get? "id")).isSome

/-- `parseSessionHeaderCandidate`; `none` keeps scanning, `some none` is `null`. -/
def parseSessionHeaderCandidate (line : List Char) : Option (Option Json) :=
  match entryOf? line with
  | none => none
  | some entry => if isSessionHeader entry then some (some entry) else some none

/-- The lines of a text that are complete, and what follows the last newline; `line` is the text
before. -/
def completeLines (line : List Char) : List Char → List (List Char) × List Char
  | [] => ([], line)
  | c :: text =>
    if c = '\n' then (line :: (completeLines [] text).1, (completeLines [] text).2)
    else completeLines (line ++ [c]) text

/-! ## Readers -/

/-- `SESSION_READ_BUFFER_SIZE` -/
def sessionReadBufferSize : Nat := 1024 * 1024

/-- `SESSION_HEADER_READ_BUFFER_SIZE` -/
def sessionHeaderReadBufferSize : Nat := 4096

/-- `MAX_SESSION_HEADER_SCAN_BYTES` -/
def maxSessionHeaderScanBytes : Nat := 1024 * 1024

/-- How many bytes `readSync` asks the file for; a read may be short, but not empty. -/
def readCount (length short : Nat) : Nat := min length (short + 1)

theorem length_drop_lt {file : List UInt8} {count : Nat} (h : ¬file.take count = []) :
    (file.drop count).length < file.length := by
  cases file with
  | nil => simp at h
  | cons b file =>
    cases count with
    | zero => exact absurd rfl h
    | succ count =>
      rw [drop_succ_cons, length_drop, length_cons]
      omega

/-- The loop of `loadEntriesFromFile`; `file` is what has not been read. -/
def loadLoop (short : Nat → Nat) (decoder : StringDecoder) (pending : List Char)
    (entries : List Json) (file : List UInt8) : List Json :=
  let count := readCount sessionReadBufferSize (short 0)
  if _h : file.take count = [] then
    entries ++ (entryOf? (pending ++ decoder.finish)).toList
  else
    let written := decoder.write (file.take count)
    let split := completeLines [] (pending ++ written.2)
    loadLoop (fun n => short (n + 1)) written.1 split.2 (entries ++ split.1.filterMap entryOf?)
      (file.drop count)
termination_by file.length
decreasing_by exact length_drop_lt ‹_›

/-- Is the list the one of a session? -/
def accepted (entries : List Json) : Bool := (entries.head?.map isSessionHeader).getD false

/-- `loadEntriesFromFile` -/
def loadEntriesFromFile (short : Nat → Nat) (content : List UInt8) : List Json :=
  let entries := loadLoop short .new [] [] content
  if accepted entries then entries else []

/-- The message of `SessionHeaderScanLimitError`. -/
def scanLimitMessage (filePath : String) : String :=
  "Session header exceeds " ++ toString maxSessionHeaderScanBytes ++ "-byte scan limit: " ++
    filePath

/-- The loop of `readSessionHeader`; `line` is the text of `lineChunks`. -/
def headerLoop (filePath : String) (short : Nat → Nat) (decoder : StringDecoder)
    (line : List Char) (scannedBytes : Nat) (file : List UInt8) : Except String (Option Json) :=
  if scannedBytes < maxSessionHeaderScanBytes then
    let readLength := min sessionHeaderReadBufferSize (maxSessionHeaderScanBytes - scannedBytes)
    let count := readCount readLength (short 0)
    if _h : file.take count = [] then
      .ok (parseSessionHeaderCandidate (line ++ decoder.finish)).join
    else
      let written := decoder.write (file.take count)
      let split := completeLines line written.2
      match split.1.findSome? parseSessionHeaderCandidate with
      | some header => .ok header
      | none =>
        headerLoop filePath (fun n => short (n + 1)) written.1 split.2
          (scannedBytes + (file.take count).length) (file.drop count)
  else if file = [] then .ok (parseSessionHeaderCandidate (line ++ decoder.finish)).join
  else .error (scanLimitMessage filePath)
termination_by file.length
decreasing_by exact length_drop_lt ‹_›

/-- `readSessionHeader` -/
def readSessionHeader (filePath : String) (short : Nat → Nat) (content : List UInt8) :
    Except String (Option Json) :=
  headerLoop filePath short .new [] 0 content

/-! ## The whole text -/

/-- The entries of a text. -/
def parsedEntries (text : List Char) : List Json := (text.splitOn '\n').filterMap entryOf?

/-- The lines that are complete are those of the whole text. -/
theorem splitOn_completeLines {line : List Char} (hline : '\n' ∉ line) (text more : List Char) :
    (line ++ text ++ more).splitOn '\n' =
      (completeLines line text).1 ++ ((completeLines line text).2 ++ more).splitOn '\n' ∧
    '\n' ∉ (completeLines line text).2 := by
  induction text generalizing line with
  | nil => simp [completeLines, hline]
  | cons c text ih =>
    rw [completeLines]
    split_ifs with hc
    · obtain ⟨hsplit, hrest⟩ := @ih [] (by simp)
      refine ⟨?_, hrest⟩
      rw [hc, append_assoc, cons_append,
        splitOn_append_cons_self_of_not_mem hline, ← nil_append text, hsplit]
      rfl
    · have hnext := @ih (line ++ [c]) (by simp [hline, Ne.symm hc])
      simpa using hnext

/-- An entry, if it is a header. -/
def checkHeader (entry : Json) : Option Json := if isSessionHeader entry then some entry else none

/-- The header that a list of entries begins with. -/
def headerOf (entries : List Json) : Option Json := (entries.head?.map checkHeader).join

theorem headerOf_eq (entries : List Json) :
    headerOf entries = if accepted entries then entries.head? else none := by
  rw [headerOf, accepted]
  cases entries.head? with
  | none => rfl
  | some entry => rfl

/-- A candidate is the entry of a line, checked. -/
theorem parseSessionHeaderCandidate_eq (line : List Char) :
    parseSessionHeaderCandidate line = (entryOf? line).map checkHeader := by
  unfold parseSessionHeaderCandidate checkHeader
  cases entryOf? line with
  | none => rfl
  | some entry =>
    simp only [Option.map_some]
    split_ifs <;> rfl

/-- The first candidate is the first entry, checked. -/
theorem findSome?_candidate (lines : List (List Char)) :
    lines.findSome? parseSessionHeaderCandidate =
      (lines.filterMap entryOf?).head?.map checkHeader := by
  rw [head?_filterMap]
  induction lines with
  | nil => rfl
  | cons line lines ih =>
    rw [findSome?_cons, findSome?_cons, parseSessionHeaderCandidate_eq]
    cases entryOf? line with
    | none => exact ih
    | some entry => rfl

/-! ## Reading in pieces -/

theorem take_eq_nil {file : List UInt8} {length short : Nat} (hlength : 0 < length)
    (h : file.take (readCount length short) = []) : file = [] := by
  rcases take_eq_nil_iff.1 h with hcount | hfile
  · unfold readCount at hcount
    omega
  · exact hfile

theorem parsedEntries_completeLines {line : List Char} (hline : '\n' ∉ line)
    (text more : List Char) : parsedEntries (line ++ text ++ more) =
      (completeLines line text).1.filterMap entryOf? ++
        parsedEntries ((completeLines line text).2 ++ more) := by
  rw [parsedEntries, (splitOn_completeLines hline text more).1, filterMap_append]
  rfl

/-- What is left at the end of the file is one line. -/
theorem parsedEntries_finish {decoder : StringDecoder} (hdecoder : decoder.Waiting)
    {line : List Char} (hline : '\n' ∉ line) :
    parsedEntries (line ++ decoder.finish) = (entryOf? (line ++ decoder.finish)).toList := by
  have hnewline : '\n' ∉ line ++ decoder.finish := by
    intro hmem
    rcases mem_append.1 hmem with hmem | hmem
    · exact hline hmem
    · exact absurd (hdecoder.finish _ hmem) (by decide)
  rw [parsedEntries, splitOn_eq_singleton hnewline]
  cases h : entryOf? (line ++ decoder.finish) <;> simp [h]

/-- One read: what is decoded and what is still to come make up the text. -/
theorem decode_read (decoder : StringDecoder) (file : List UInt8) (count : Nat) :
    decode (decoder.buffered ++ file) = (decoder.write (file.take count)).2 ++
      decode ((decoder.write (file.take count)).1.buffered ++ file.drop count) := by
  rw [← decode_write, append_assoc, take_append_drop]

/-- **What is loaded in pieces is what the whole text holds.** -/
theorem loadLoop_eq (short : Nat → Nat) {decoder : StringDecoder} (hdecoder : decoder.Waiting)
    {pending : List Char} (hpending : '\n' ∉ pending) (entries : List Json)
    (file : List UInt8) :
    loadLoop short decoder pending entries file =
      entries ++ parsedEntries (pending ++ decode (decoder.buffered ++ file)) := by
  fun_induction loadLoop short decoder pending entries file with
  | case1 short decoder pending entries file count hend =>
    have hfile : file = [] := take_eq_nil (by decide) hend
    rw [hfile, append_nil]
    exact congrArg (entries ++ ·) (parsedEntries_finish hdecoder hpending).symm
  | case2 short decoder pending entries file count hmore written split ih =>
    have hread := decode_read decoder file count
    have hsplit := @parsedEntries_completeLines [] (by simp) (pending ++ written.2)
      (decode (written.1.buffered ++ file.drop count))
    have hrest := (@splitOn_completeLines [] (by simp) (pending ++ written.2) []).2
    rw [ih (waiting_write decoder _) hrest, hread, ← append_assoc pending,
      ← nil_append (pending ++ written.2), hsplit, append_assoc]

/-- **The loaded entries**: those of the whole text, if they are those of a session. -/
theorem loadEntriesFromFile_eq (short : Nat → Nat) (content : List UInt8) :
    loadEntriesFromFile short content =
      if accepted (parsedEntries (decode content)) then parsedEntries (decode content) else [] := by
  rw [loadEntriesFromFile, @loadLoop_eq short .new (.inl rfl) [] (by simp)]
  rfl

/-- **The header that is found in pieces is the one that the whole text begins with.** -/
theorem headerLoop_eq (filePath : String) (short : Nat → Nat) {decoder : StringDecoder}
    (hdecoder : decoder.Waiting) {line : List Char} (hline : '\n' ∉ line) (scannedBytes : Nat)
    (file : List UInt8) :
    headerLoop filePath short decoder line scannedBytes file =
        .ok (headerOf (parsedEntries (line ++ decode (decoder.buffered ++ file)))) ∨
      headerLoop filePath short decoder line scannedBytes file =
        .error (scanLimitMessage filePath) ∧
        maxSessionHeaderScanBytes < scannedBytes + file.length := by
  have hend : ∀ {decoder : StringDecoder}, decoder.Waiting → ∀ {line : List Char}, '\n' ∉ line →
      (parseSessionHeaderCandidate (line ++ decoder.finish)).join =
        headerOf (parsedEntries (line ++ decode (decoder.buffered ++ []))) := by
    intro decoder hdecoder line hline
    rw [append_nil, ← StringDecoder.finish, parsedEntries_finish hdecoder hline,
      parseSessionHeaderCandidate_eq, headerOf]
    cases entryOf? (line ++ decoder.finish) <;> rfl
  fun_induction headerLoop filePath short decoder line scannedBytes file with
  | case1 short decoder line scannedBytes file hscan readLength count hempty =>
    have hlength : 0 < readLength := by
      have : readLength = min sessionHeaderReadBufferSize
        (maxSessionHeaderScanBytes - scannedBytes) := rfl
      rw [sessionHeaderReadBufferSize] at this
      omega
    rw [take_eq_nil hlength hempty]
    exact .inl (congrArg _ (hend hdecoder hline))
  | case2 short decoder line scannedBytes file hscan readLength count hmore written split header
      hheader =>
    have hsplit := parsedEntries_completeLines hline written.2
      (decode (written.1.buffered ++ file.drop count))
    rw [findSome?_candidate] at hheader
    obtain ⟨entry, hentry, hcheck⟩ := Option.map_eq_some_iff.1 hheader
    left
    rw [decode_read decoder file count, ← append_assoc, hsplit, headerOf, head?_append,
      hentry, Option.some_or, Option.map_some, hcheck]
    rfl
  | case3 short decoder line scannedBytes file hscan readLength count hmore written split hnone
      ih =>
    have hsplit := parsedEntries_completeLines hline written.2
      (decode (written.1.buffered ++ file.drop count))
    have hrest := (splitOn_completeLines hline written.2 []).2
    have hlength := congrArg List.length (take_append_drop count file)
    rw [length_append] at hlength
    rw [findSome?_candidate, Option.map_eq_none_iff, head?_eq_none_iff] at hnone
    rw [decode_read decoder file count, ← append_assoc, hsplit, hnone, nil_append]
    refine (ih (waiting_write decoder _) hrest).imp_right fun h => ⟨h.1, ?_⟩
    omega
  | case4 short decoder line scannedBytes hscan =>
    exact .inl (congrArg _ (hend hdecoder hline))
  | case5 short decoder line scannedBytes file hscan hmore =>
    have := length_pos_iff.2 hmore
    exact .inr ⟨rfl, by omega⟩

/-- **The header**: the first entry of the whole text, if it is a header. -/
theorem readSessionHeader_eq (filePath : String) (short : Nat → Nat) (content : List UInt8) :
    readSessionHeader filePath short content =
        .ok (headerOf (parsedEntries (decode content))) ∨
      readSessionHeader filePath short content = .error (scanLimitMessage filePath) ∧
        maxSessionHeaderScanBytes < content.length := by
  have h := @headerLoop_eq filePath short .new (.inl rfl) [] (by simp) 0 content
  rwa [Nat.zero_add] at h

/-- **The readers agree with the whole text, however the reads fall.**  The entries are the truthy
values of its lines; they are loaded if the first of them is a header, which is then the header
that is found, unless the limit is hit. -/
theorem readers_agree (filePath : String) (short shortHeader : Nat → Nat)
    (content : List UInt8) :
    (loadEntriesFromFile short content =
      if accepted (parsedEntries (decode content)) then parsedEntries (decode content) else []) ∧
    (readSessionHeader filePath shortHeader content =
        .ok (if accepted (parsedEntries (decode content)) then
          (parsedEntries (decode content)).head? else none) ∨
      readSessionHeader filePath shortHeader content = .error (scanLimitMessage filePath) ∧
        maxSessionHeaderScanBytes < content.length) := by
  refine ⟨loadEntriesFromFile_eq short content, ?_⟩
  rw [← headerOf_eq]
  exact readSessionHeader_eq filePath shortHeader content

/-- A line `null` before the header. -/
def nullLine : List Char := "null\n\x7b\"type\":\"session\",\"id\":\"\"\x7d".toList

/-- The header of `nullLine`. -/
def nullLineHeader : Json := .obj [("type", .str "session"), ("id", .str "")]

/-- A line that is parsed as `null` is not among the entries, and the header behind it is found. -/
theorem null_line_skipped :
    ((decode (encode nullLine)).splitOn '\n').filterMap parseSessionEntryLine =
        [.null, nullLineHeader] ∧
      loadEntriesFromFile (fun _ => 0) (encode nullLine) = [nullLineHeader] ∧
      readSessionHeader "" (fun _ => 0) (encode nullLine) = .ok (some nullLineHeader) := by
  have hparsed : parsedEntries nullLine = [nullLineHeader] := by decide +kernel
  refine ⟨?_, ?_, ?_⟩
  · rw [decode_encode]
    decide +kernel
  · rw [loadEntriesFromFile_eq, decode_encode, hparsed]
    decide +kernel
  · have hheader := readSessionHeader_eq "" (fun _ => 0) (encode nullLine)
    rw [decode_encode, hparsed] at hheader
    exact hheader.resolve_right fun h => absurd h.2 (by decide +kernel)

end BeauPi.Sessions
