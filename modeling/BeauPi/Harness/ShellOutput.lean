import BeauPi.Tools.RollingTail

/-!
# Capturing the output of a shell command

The harness counts the lines and bytes of an output as its chunks come in and keeps a rolling tail
of it; from the moment that a limit is exceeded the whole output goes to a file, whose writes are
chained and done later.

* `truncateTail` — the truncation of the harness, which is that of the tools (`truncateTail_eq`).
* `Capture`, `Capture.step` — what is kept of the output, and how chunks and writes change it.
* `executeShellWithCapture` — the capture of a command.
* `Capture.Follows` — what every order of chunks and writes keeps.
* `executeShellWithCapture_eq_truncateTail` — what is reported is the truncation of the output.
-/

namespace BeauPi.Harness

open Execution Tools Utf8 List

/-! ## Truncation -/

/-- `DEFAULT_MAX_LINES` -/
def defaultMaxLines : Nat := 2000

/-- `DEFAULT_MAX_BYTES` -/
def defaultMaxBytes : Nat := 50 * 1024

/-- What a character takes in UTF-8. -/
def characterBytes (c : Char) : Nat :=
  if c.toNat ≤ 0x7F then 1
  else if c.toNat ≤ 0x7FF then 2
  else if c.toNat ≤ 0xFFFF then 3
  else 4

/-- The loop of `truncateStringToBytesFromEnd`, over the characters from the last to the first. -/
def keepFromEnd (maxBytes : Nat) : List Char → Nat → List Char → List Char
  | [], _, output => output
  | c :: earlier, outputBytes, output =>
    if outputBytes + characterBytes c > maxBytes then output
    else keepFromEnd maxBytes earlier (outputBytes + characterBytes c) (c :: output)

/-- `truncateStringToBytesFromEnd` -/
def truncateStringToBytesFromEnd (str : List Char) (maxBytes : Nat) : List Char :=
  if maxBytes = 0 then [] else keepFromEnd maxBytes str.reverse 0 []

/-- `truncateTail` -/
def truncateTail (content : List Char) (maxLines maxBytes : Nat) : TruncationResult Char :=
  truncateTailOf truncateStringToBytesFromEnd content maxLines maxBytes

/-! ## The capture -/

inductive ExecutionErrorCode
  | aborted
  | timeout
  | shellUnavailable
  | spawnError
  | callbackError
  | unknown
  deriving DecidableEq, Repr

/-- `ExecutionError` -/
structure ExecutionError where
  code : ExecutionErrorCode
  message : String
  deriving DecidableEq, Repr

/-- The file with the full output: its path, and what is in it. -/
structure FullOutput where
  path : String
  content : List Char
  deriving DecidableEq, Repr

/-- A link of the chain of writes. -/
inductive FileStep
  | create (initialContent : List Char)
  | append (text : List Char)
  deriving DecidableEq, Repr

/-- What a link does with the file; `tempFile` is the path of a new one. -/
def FileStep.run (tempFile : String) (step : FileStep) (file : Option FullOutput) :
    Except ExecutionError (Option FullOutput) :=
  match step with
  | .create initialContent => .ok (some ⟨tempFile, initialContent⟩)
  | .append text =>
    match file with
    | none => .error ⟨.unknown, "Full output path was not created"⟩
    | some file => .ok (some { file with content := file.content ++ text })

/-- The variables of `executeShellWithCapture`; `writeChain` are the writes that are still to be
done, `written` is what those that are done have led to. -/
structure Capture where
  tailOutput : List Char
  totalBytes : Nat
  completedLines : Nat
  hasOpenLine : Bool
  currentLineBytes : Nat
  fullOutputRequested : Bool
  writeChain : List FileStep
  written : Except ExecutionError (Option FullOutput)
  captureError : Option ExecutionError

namespace Capture

/-- The variables at the start. -/
def new : Capture := ⟨[], 0, 0, false, 0, false, [], .ok none, none⟩

/-- `appendFullOutput` -/
def appendFullOutput (s : Capture) (text : List Char) : Capture :=
  if s.fullOutputRequested = false ∨ s.captureError.isSome then s
  else { s with writeChain := s.writeChain ++ [.append text] }

/-- `ensureFullOutputFile` -/
def ensureFullOutputFile (s : Capture) (initialContent : List Char) : Capture :=
  if s.fullOutputRequested = true ∨ s.captureError.isSome then s
  else
    { s with
      fullOutputRequested := true
      writeChain := s.writeChain ++ [.create initialContent] }

/-- The lines so far. -/
def totalLines (s : Capture) : Nat := s.completedLines + if s.hasOpenLine then 1 else 0

/-- Is the output beyond one of the limits? -/
def beyond (s : Capture) : Bool :=
  decide (s.totalLines > defaultMaxLines) || decide (s.totalBytes > defaultMaxBytes)

end Capture

/-- `ShellCaptureProgress` -/
structure ShellCaptureProgress where
  output : List Char
  truncation : TruncationResult Char
  fullOutputPath : Option String
  lastLineBytes : Nat
  deriving DecidableEq, Repr

/-- `createProgress` -/
def Capture.createProgress (s : Capture) : ShellCaptureProgress :=
  let tailTruncation := truncateTail s.tailOutput defaultMaxLines defaultMaxBytes
  let truncated := s.beyond
  let truncation : TruncationResult Char :=
    { tailTruncation with
      truncated := truncated
      truncatedBy :=
        if truncated then
          some (tailTruncation.truncatedBy.getD
            (if s.totalBytes > defaultMaxBytes then .bytes else .lines))
        else none
      totalLines := s.totalLines
      totalBytes := s.totalBytes }
  { output := if truncated then truncation.content else s.tailOutput
    truncation := truncation
    fullOutputPath :=
      match s.written with
      | .ok file => file.map (·.path)
      | .error _ => none
    lastLineBytes := s.currentLineBytes }

/-- `sanitizeBinaryOutput` -/
def sanitizeBinaryOutput (str : List Char) : List Char :=
  str.filter fun char =>
    let code := char.toNat
    if code = 0x09 ∨ code = 0x0A ∨ code = 0x0D then true
    else if code ≤ 0x1F then false
    else if 0xFFF9 ≤ code ∧ code ≤ 0xFFFB then false
    else true

/-- `sanitizeBinaryOutput(chunk).replace(/\r/g, "")` -/
def sanitizeChunk (chunk : List Char) : List Char :=
  (sanitizeBinaryOutput chunk).filter (· != '\r')

/-- `trimToLastUtf8Bytes` -/
def trimToLastUtf8Bytes (text : List Char) (maxBytes : Nat) : List Char :=
  let bytes := encode text
  if bytes.length ≤ maxBytes then text
  else decodeText (bytes.drop (skipContinuation bytes (bytes.length - maxBytes)))

/-- The counts of `onChunk`. -/
def Capture.countText (s : Capture) (text : List Char) : Capture :=
  let textBytes := byteLength text
  let s :=
    { s with
      totalBytes := s.totalBytes + textBytes
      completedLines := s.completedLines + text.count '\n' }
  if '\n' ∈ text then
    let trailingText := OutputAccumulator.afterLastNewline text
    { s with
      currentLineBytes := byteLength trailingText
      hasOpenLine := !trailingText.isEmpty }
  else if text.length > 0 then
    { s with
      currentLineBytes := s.currentLineBytes + textBytes
      hasOpenLine := true }
  else s

/-- What `onChunk` does for the full output, which starts with the tail. -/
def Capture.saveText (s : Capture) (text : List Char) : Capture :=
  if s.beyond ∧ s.fullOutputRequested = false then s.ensureFullOutputFile s.tailOutput
  else if s.fullOutputRequested then s.appendFullOutput text
  else s

/-- `onChunk`; `thrown` is what the `onChunk` of the options throws, if it does. -/
def Capture.onChunk (s : Capture) (chunk : List Char) (thrown : Option ExecutionError) : Capture :=
  let text := sanitizeChunk chunk
  let s := s.countText text
  let s := { s with tailOutput := s.tailOutput ++ text }.saveText text
  { s with
    tailOutput := trimToLastUtf8Bytes s.tailOutput (defaultMaxBytes * 2)
    captureError := thrown.or s.captureError }

/-- What happens while the command runs: a chunk comes in, or the next write is done. -/
inductive CaptureEvent
  | chunk (chunk : List Char) (thrown : Option ExecutionError)
  | write
  deriving DecidableEq, Repr

/-- The first of the chained writes is done. -/
def Capture.write (tempFile : String) (s : Capture) : Capture :=
  match s.writeChain with
  | [] => s
  | step :: later => { s with writeChain := later, written := s.written.bind (step.run tempFile) }

def Capture.step (tempFile : String) (s : Capture) : CaptureEvent → Capture
  | .chunk chunk thrown => s.onChunk chunk thrown
  | .write => s.write tempFile

/-- `await writeChain` -/
def Capture.settle (tempFile : String) (s : Capture) : Capture :=
  { s with
    writeChain := []
    written := s.writeChain.foldl (fun written step => written.bind (step.run tempFile)) s.written }

/-- What `env.exec` ends with. -/
inductive ExecResult
  | exited (exitCode : Int)
  | failed (error : ExecutionError)
  | threw (error : ExecutionError)
  deriving DecidableEq, Repr

/-- `ShellCaptureResult` -/
structure ShellCaptureResult extends ShellCaptureProgress where
  exitCode : Option Int
  cancelled : Bool
  truncated : Bool
  executionError : Option ExecutionError
  deriving DecidableEq, Repr

/-- What is returned for the result of a command, with the progress at the end. -/
def ExecResult.report (returnExecutionErrors aborted : Bool) (progress : ShellCaptureProgress) :
    ExecResult → Except ExecutionError ShellCaptureResult
  | .failed error =>
    if error.code = .aborted ∨ aborted then
      .ok { progress with
        exitCode := none
        cancelled := true
        truncated := progress.truncation.truncated
        executionError := none }
    else if returnExecutionErrors then
      .ok { progress with
        exitCode := none
        cancelled := false
        truncated := progress.truncation.truncated
        executionError := some error }
    else .error error
  | .exited exitCode =>
    .ok { progress with
      exitCode := if aborted then none else some exitCode
      cancelled := aborted
      truncated := progress.truncation.truncated
      executionError := none }
  | .threw error => .error error

/-- The end of a capture, when the command has ended. -/
def Capture.finish (tempFile : String) (returnExecutionErrors aborted : Bool) (result : ExecResult)
    (s : Capture) : Except ExecutionError ShellCaptureResult × Option FullOutput :=
  let s :=
    if s.createProgress.truncation.truncated && !s.fullOutputRequested then
      s.ensureFullOutputFile s.tailOutput
    else s
  let s := s.settle tempFile
  match s.written, s.captureError with
  | .error error, _ => (.error error, none)
  | .ok file, some error => (.error error, file)
  | .ok file, none => (result.report returnExecutionErrors aborted s.createProgress, file)

/-- `executeShellWithCapture`: what it returns, and the file with the full output. -/
def executeShellWithCapture (tempFile : String) (returnExecutionErrors aborted : Bool)
    (events : List CaptureEvent) (result : ExecResult) :
    Except ExecutionError ShellCaptureResult × Option FullOutput :=
  let s := events.foldl (Capture.step tempFile) .new
  match result with
  | .threw error => (.error error, none)
  | _ => s.finish tempFile returnExecutionErrors aborted result

/-! ## What is reported -/

/-- The text that came in. -/
def outputOf : List CaptureEvent → List Char
  | [] => []
  | .chunk chunk _ :: events => sanitizeChunk chunk ++ outputOf events
  | .write :: events => outputOf events

/-- What is reported is what `truncateTail` makes of the whole output, and where that is truncated
the file has it all. -/
structure Reports (text : List Char) (result : ShellCaptureResult) (file : Option FullOutput) :
    Prop where
  output : result.output = (truncateTail text defaultMaxLines defaultMaxBytes).content
  truncated : result.truncated = (truncateTail text defaultMaxLines defaultMaxBytes).truncated
  totalLines : result.truncation.totalLines =
    (truncateTail text defaultMaxLines defaultMaxBytes).totalLines
  totalBytes : result.truncation.totalBytes =
    (truncateTail text defaultMaxLines defaultMaxBytes).totalBytes
  file : result.truncated = true →
    ∃ path, result.fullOutputPath = some path ∧ file = some ⟨path, text⟩

variable {maxLines maxBytes : Nat} {text output held : List Char} {s : Capture}

/-! ## Both truncations -/

theorem characterBytes_eq (c : Char) : characterBytes c = byteLength [c] := by
  have hbytes : byteLength [c] = (encodePoint c.toNat).length := by
    rw [byteLength_cons, byteLength_nil, Nat.add_zero]
  rw [hbytes, encodePoint, characterBytes]
  split_ifs <;> first | rfl | omega

/-- The characters behind a place that fit do not change what the loop keeps. -/
theorem keepFromEnd_eq (text : List Char) (hfits : byteLength held ≤ maxBytes) :
    keepFromEnd maxBytes text.reverse (byteLength held) held =
      tailWithin maxBytes (text ++ held) := by
  induction text using List.reverseRecOn generalizing held with
  | nil =>
    cases held with
    | nil => rfl
    | cons c held => exact (if_pos hfits).symm
  | append_singleton text c ih =>
    have hsum : byteLength held + characterBytes c = byteLength (c :: held) := by
      rw [characterBytes_eq, byteLength_cons c held, byteLength_cons c [], byteLength_nil]
      omega
    rw [reverse_concat, keepFromEnd, hsum, append_assoc, singleton_append]
    split_ifs with hlong
    · rw [tailWithin_append text hlong, tailWithin, if_neg (by omega)]
      cases held with
      | nil => rfl
      | cons d held => exact (if_pos hfits).symm
    · exact ih (Nat.le_of_not_lt hlong)

theorem truncateStringToBytesFromEnd_eq (str : List Char) (maxBytes : Nat) :
    truncateStringToBytesFromEnd str maxBytes = tailWithin maxBytes str := by
  rw [truncateStringToBytesFromEnd]
  split_ifs with hzero
  · have hle := byteLength_tailWithin_le maxBytes str
    by_contra hne
    have := byteLength_pos (Ne.symm hne)
    omega
  · have h : keepFromEnd maxBytes str.reverse (byteLength []) [] =
        tailWithin maxBytes (str ++ []) := keepFromEnd_eq str (Nat.zero_le maxBytes)
    rwa [append_nil] at h

/-- The truncation of the harness is that of the tools. -/
theorem truncateTail_eq (text : List Char) (maxLines maxBytes : Nat) :
    truncateTail text maxLines maxBytes = Tools.truncateTail text maxLines maxBytes := by
  have hcut : truncateStringToBytesFromEnd = Tools.truncateStringToBytesFromEnd := by
    funext str n
    rw [truncateStringToBytesFromEnd_eq, Tools.truncateStringToBytesFromEnd_eq]
  rw [truncateTail, hcut, Tools.truncateTail]

/-- **A tail of more bytes than are shown is as good as the output.** -/
theorem content_held (hmax : 1 ≤ maxLines) (hlong : maxBytes + 1 < byteLength held)
    (before : List Char) :
    (Tools.truncateTail held maxLines maxBytes).content =
      (Tools.truncateTail (before ++ held) maxLines maxBytes).content := by
  by_cases hnewline : '\n' ∈ held
  swap
  · exact (content_of_line hmax hnewline (by omega) before).1
  by_cases hmid : before.getLast? = some '\n'
  · exact (content_of_boundary hmid (by omega) maxLines).1
  obtain ⟨lines, start, rfl, hlines, hstart⟩ := exists_lines before
  obtain ⟨first, hheld, hfirst⟩ := exists_firstLine hnewline
  generalize OutputAccumulator.afterFirstNewline held = rest at hheld
  subst hheld
  have hwhole : ∀ line ∈ lines ++ [start ++ first], '\n' ∉ line := by
    intro line hline
    rcases mem_append.1 hline with hline | hline
    · exact hlines line hline
    · rw [mem_singleton.1 hline]
      simp [hstart, hfirst]
  have hheld : first ++ '\n' :: rest = unlines ([] ++ [first]) ++ rest := by simp [unlines]
  have houtput : unlines lines ++ start ++ (first ++ '\n' :: rest) =
      unlines (lines ++ [start ++ first]) ++ rest := by simp [unlines]
  have hlength : byteLength (first ++ '\n' :: rest) = byteLength first + (byteLength rest + 1) := by
    rw [byteLength_append, byteLength_newline]
  rw [hlength] at hlong
  by_cases hrest : rest = []
  · -- the only line of the tail is too long, and so is the line it is the end of
    subst hrest
    rw [byteLength_nil] at hlong
    have hsplit : splitLinesForCounting (unlines ([] ++ [first]) ++ []) = [] ++ [first] := by
      rw [splitLinesForCounting_append (by simpa using hfirst), splitLinesForCounting, splitLinesAt, if_pos rfl,
        append_nil]
    have hsplit' : splitLinesForCounting (unlines (lines ++ [start ++ first]) ++ []) =
        lines ++ [start ++ first] := by
      rw [splitLinesForCounting_append hwhole, splitLinesForCounting, splitLinesAt, if_pos rfl, append_nil]
    have hlong' : maxBytes < byteLength first := by omega
    rw [hheld, ← hheld, houtput, hheld, (truncateTail_longLine hmax hsplit hlong').1,
      (truncateTail_longLine hmax hsplit' (by rw [byteLength_append]; omega)).1,
      tailWithin_append start hlong']
  · -- the line that is cut does not fit behind those that follow it
    have hjoin := byteLength_le_joinLines rest
    have hne := mt splitLinesForCounting_eq_nil.1 hrest
    have hnext : maxBytes < byteLength (joinLines (first :: splitLinesForCounting rest)) := by
      rw [joinLines_cons _ hne, byteLength_append, byteLength_newline]
      omega
    have hnext' : maxBytes <
        byteLength (joinLines ((start ++ first) :: splitLinesForCounting rest)) := by
      rw [joinLines_cons _ hne, byteLength_append, byteLength_append, byteLength_newline]
      rw [joinLines_cons _ hne, byteLength_append, byteLength_newline] at hnext
      omega
    have hlong' : maxBytes < byteLength (unlines ([] ++ [first]) ++ rest) := by
      rw [← hheld, hlength]
      omega
    have hlong'' : maxBytes < byteLength (unlines (lines ++ [start ++ first]) ++ rest) := by
      rw [← houtput, byteLength_append, hlength]
      omega
    rw [houtput, hheld, (truncateTail_end maxLines hlong' (by simpa using hfirst) hrest hnext).1,
      (truncateTail_end maxLines hlong'' hwhole hrest hnext').1]

/-! ## The tail -/

/-- What is cut from a tail is more than is kept of it, up to a character and a byte order mark. -/
theorem trimToLastUtf8Bytes_spec (text : List Char) (maxBytes : Nat) :
    ∃ cut, text = cut ++ trimToLastUtf8Bytes text maxBytes ∧
      (cut = [] ∨ maxBytes ≤ byteLength (trimToLastUtf8Bytes text maxBytes) + 6) := by
  rw [trimToLastUtf8Bytes]
  split_ifs with hle
  · exact ⟨[], rfl, .inl rfl⟩
  · have hlong : maxBytes < byteLength text := Nat.lt_of_not_le hle
    have hkept := lt_byteLength_tailWithin hlong
    obtain ⟨cut, hcut⟩ := tailWithin_suffix maxBytes text
    have hdecode : decodeText ((encode text).drop
        (skipContinuation (encode text) ((encode text).length - maxBytes))) =
        dropMark false (tailWithin maxBytes text) := by
      rw [← decode_skipContinuation]
      rfl
    rw [hdecode, dropMark]
    split_ifs with hmark
    · obtain ⟨rest, hrest⟩ := head?_eq_some_iff.1 hmark.2
      have hthree : byteLength [byteOrderMark] = 3 := by decide
      rw [hrest, tail_cons]
      rw [hrest, ← singleton_append, byteLength_append, hthree] at hkept
      exact ⟨cut ++ [byteOrderMark], by rw [← hcut, hrest]; simp, .inr (by omega)⟩
    · exact ⟨cut, hcut.symm, .inr (by omega)⟩

/-! ## The counts -/

/-- More text has no fewer lines. -/
theorem length_splitLines_le (output text : List Char) :
    (splitLinesForCounting output).length ≤ (splitLinesForCounting (output ++ text)).length := by
  rw [length_splitLinesForCounting, length_splitLinesForCounting, count_append]
  by_cases hnil : text = []
  · simp [hnil]
  · rw [getLast?_append_of_ne_nil _ hnil]
    by_cases hlast : text.getLast? = some '\n'
    · have hone : 0 < text.count '\n' := count_pos_iff.2 (mem_of_getLast? hlast)
      split_ifs <;> omega
    · have hopen : output ++ text ≠ [] ∧ text.getLast? ≠ some '\n' := ⟨by simp [hnil], hlast⟩
      rw [if_pos hopen]
      split_ifs <;> omega

/-- The lines and bytes of a text have been counted. -/
structure Capture.Counts (output : List Char) (s : Capture) : Prop where
  totalBytes : s.totalBytes = byteLength output
  completedLines : s.completedLines = output.count '\n'
  hasOpenLine : s.hasOpenLine = decide (output ≠ [] ∧ output.getLast? ≠ some '\n')

namespace Capture

theorem Counts.totalLines_eq (h : s.Counts output) :
    s.totalLines = (splitLinesForCounting output).length := by
  rw [totalLines, h.completedLines, h.hasOpenLine, length_splitLinesForCounting]
  simp only [decide_eq_true_eq]

theorem Counts.beyond_eq (h : s.Counts output) :
    s.beyond = (truncateTail output defaultMaxLines defaultMaxBytes).truncated := by
  rw [beyond, h.totalLines_eq, h.totalBytes, truncateTail_eq,
    (truncateTail_counts output defaultMaxLines defaultMaxBytes).2.2]

theorem Counts.countText (h : s.Counts output) (text : List Char) :
    (s.countText text).Counts (output ++ text) := by
  have hbytes : s.totalBytes + byteLength text = byteLength (output ++ text) := by
    rw [byteLength_append, h.totalBytes]
  have hlines : s.completedLines + text.count '\n' = (output ++ text).count '\n' := by
    rw [count_append, h.completedLines]
  unfold Capture.countText
  dsimp only
  by_cases hnil : text = []
  · subst hnil
    rw [if_neg not_mem_nil, if_neg (by simp)]
    exact ⟨hbytes, hlines, by rw [append_nil]; exact h.hasOpenLine⟩
  have hopen : decide (output ++ text ≠ [] ∧ (output ++ text).getLast? ≠ some '\n') =
      !decide (text.getLast? = some '\n') := by
    rw [getLast?_append_of_ne_nil _ hnil, ← decide_not]
    simp [hnil]
  split_ifs with hnewline hpos
  · refine ⟨hbytes, hlines, ?_⟩
    rw [hopen, ← isEmpty_afterLastNewline hnil]
  · refine ⟨hbytes, hlines, ?_⟩
    rw [hopen, decide_eq_false fun hlast => hnewline (mem_of_getLast? hlast)]
    rfl
  · exact absurd (length_pos_iff.2 hnil) hpos

/-! ## Every order of chunks and writes -/

/-- What came in so far is `output`: it is counted, the tail is an end of it that is long enough,
and unless an error was thrown the writes that are chained lead to a file with all of it once a
limit is exceeded. -/
structure Follows (tempFile : String) (output : List Char) (s : Capture) : Prop where
  counts : s.Counts output
  tail : ∃ before, output = before ++ s.tailOutput ∧
    (before = [] ∨ defaultMaxBytes * 2 ≤ byteLength s.tailOutput + 6)
  file : s.captureError = none → s.fullOutputRequested = s.beyond ∧
    (s.settle tempFile).written = .ok (if s.beyond then some ⟨tempFile, output⟩ else none)

variable {tempFile : String}

theorem follows_new (tempFile : String) : Capture.new.Follows tempFile [] :=
  ⟨⟨rfl, rfl, rfl⟩, ⟨[], rfl, .inl rfl⟩, fun _ => ⟨by decide, rfl⟩⟩

variable (h : s.Follows tempFile output)

include h in
/-- A tail of an output within the limits is all of it. -/
theorem Follows.whole (hwithin : s.beyond = false) :
    s.tailOutput = output := by
  obtain ⟨before, hsplit, hbefore⟩ := h.tail
  rcases hbefore with rfl | hlong
  · exact hsplit.symm
  · have hbytes := h.counts.totalBytes
    have hmax : 6 < defaultMaxBytes := by decide
    rw [beyond, Bool.or_eq_false_iff, decide_eq_false_iff_not, decide_eq_false_iff_not] at hwithin
    rw [hsplit, byteLength_append] at hbytes
    omega

include h in
/-- Once beyond, an output stays beyond. -/
theorem Follows.beyond_countText (text : List Char)
    (hbeyond : s.beyond = true) : (s.countText text).beyond = true := by
  have hcounts := h.counts.countText text
  have hlines := length_splitLines_le output text
  rw [beyond, h.counts.totalLines_eq, h.counts.totalBytes] at hbeyond
  rw [beyond, hcounts.totalLines_eq, hcounts.totalBytes, byteLength_append]
  simp only [Bool.or_eq_true, decide_eq_true_eq] at hbeyond ⊢
  omega

theorem countText_frame (s : Capture) (text : List Char) :
    (s.countText text).tailOutput = s.tailOutput ∧
    (s.countText text).fullOutputRequested = s.fullOutputRequested ∧
    (s.countText text).writeChain = s.writeChain ∧ (s.countText text).written = s.written ∧
    (s.countText text).captureError = s.captureError := by
  unfold Capture.countText
  dsimp only
  split_ifs <;> exact ⟨rfl, rfl, rfl, rfl, rfl⟩

theorem saveText_frame (s : Capture) (text : List Char) :
    (s.saveText text).tailOutput = s.tailOutput ∧ (s.saveText text).totalBytes = s.totalBytes ∧
    (s.saveText text).completedLines = s.completedLines ∧
    (s.saveText text).hasOpenLine = s.hasOpenLine ∧
    (s.saveText text).captureError = s.captureError := by
  unfold saveText ensureFullOutputFile appendFullOutput
  split_ifs <;> exact ⟨rfl, rfl, rfl, rfl, rfl⟩

/-- The writes that are chained behind others are done after them. -/
theorem written_settle_concat {s' : Capture} (step : FileStep)
    (hchain : s'.writeChain = s.writeChain ++ [step]) (hwritten : s'.written = s.written) :
    (s'.settle tempFile).written = (s.settle tempFile).written.bind (step.run tempFile) := by
  simp only [settle, hchain, hwritten, foldl_append, foldl_cons, foldl_nil]

/-- Where no error was thrown, the full output is requested once a limit is exceeded. -/
theorem saveText_spec (tempFile : String) (text : List Char) (herror : s.captureError = none) :
    (s.saveText text).fullOutputRequested = (s.fullOutputRequested || s.beyond) ∧
    ((s.saveText text).settle tempFile).written =
      if s.fullOutputRequested then
        (s.settle tempFile).written.bind ((FileStep.append text).run tempFile)
      else if s.beyond then
        (s.settle tempFile).written.bind ((FileStep.create s.tailOutput).run tempFile)
      else (s.settle tempFile).written := by
  unfold saveText ensureFullOutputFile appendFullOutput
  rw [herror]
  cases hrequested : s.fullOutputRequested <;> cases hbeyond : s.beyond
  · exact ⟨hrequested, rfl⟩
  · exact ⟨rfl, written_settle_concat _ rfl rfl⟩
  · exact ⟨rfl, written_settle_concat _ rfl rfl⟩
  · exact ⟨rfl, written_settle_concat _ rfl rfl⟩

/-- The counted text is added to the tail. -/
theorem extend_counts (h : s.Counts output) (text : List Char) :
    { s.countText text with tailOutput := s.tailOutput ++ text }.Counts (output ++ text) :=
  ⟨(h.countText text).totalBytes, (h.countText text).completedLines,
    (h.countText text).hasOpenLine⟩

theorem Counts.saveText (h : s.Counts output) (text : List Char) :
    (s.saveText text).Counts output := by
  obtain ⟨-, hbytes, hlines, hopen, -⟩ := s.saveText_frame text
  exact ⟨hbytes.trans h.totalBytes, hlines.trans h.completedLines, hopen.trans h.hasOpenLine⟩

include h in
/-- The full output is kept up with a text, unless an error was thrown. -/
theorem Follows.saveText (text : List Char)
    (herror : s.captureError = none) {extended : Capture}
    (hextended : { s.countText text with tailOutput := s.tailOutput ++ text } = extended) :
    (extended.saveText text).fullOutputRequested = extended.beyond ∧
    ((extended.saveText text).settle tempFile).written =
      .ok (if extended.beyond then some ⟨tempFile, output ++ text⟩ else none) := by
  obtain ⟨-, hrequested, hchain, hwritten, herror'⟩ := s.countText_frame text
  obtain ⟨hfile, hsettled⟩ := h.file herror
  have hstays : s.beyond = true → extended.beyond = true := by
    rw [← hextended]
    exact h.beyond_countText text
  have hsettled' : (extended.settle tempFile).written = (s.settle tempFile).written := by
    rw [← hextended]
    simp only [settle, hchain, hwritten]
  have hrequested' : extended.fullOutputRequested = s.beyond := by
    rw [← hextended, ← hfile]
    exact hrequested
  have hnone : extended.captureError = none := by
    rw [← hextended, ← herror]
    exact herror'
  have htail : extended.tailOutput = s.tailOutput ++ text := by rw [← hextended]
  obtain ⟨hnext, hnextSettled⟩ := saveText_spec tempFile text hnone
  rw [hnext, hnextSettled, hrequested', hsettled', hsettled, htail]
  cases hwas : s.beyond with
  | true =>
    rw [hstays hwas]
    exact ⟨rfl, rfl⟩
  | false =>
    rw [h.whole hwas]
    cases extended.beyond <;> exact ⟨rfl, rfl⟩

include h in
/-- **A chunk is followed.** -/
theorem Follows.onChunk (chunk : List Char)
    (thrown : Option ExecutionError) :
    (s.onChunk chunk thrown).Follows tempFile (output ++ sanitizeChunk chunk) := by
  unfold Capture.onChunk
  generalize sanitizeChunk chunk = text
  dsimp only
  rw [(s.countText_frame text).1]
  have hcounts := extend_counts h.counts text
  have herror := (s.countText_frame text).2.2.2.2
  generalize hextended : { s.countText text with tailOutput := s.tailOutput ++ text } = extended
    at hcounts ⊢
  have hsavedCounts := hcounts.saveText text
  obtain ⟨hsaved, -, -, -, herror'⟩ := extended.saveText_frame text
  have htail : (extended.saveText text).tailOutput = s.tailOutput ++ text := by
    rw [hsaved, ← hextended]
  have hbeyond : (extended.saveText text).beyond = extended.beyond := by
    rw [hsavedCounts.beyond_eq, hcounts.beyond_eq]
  have hsame : (extended.saveText text).captureError = s.captureError := by
    rw [herror', ← herror, ← hextended]
  rw [htail]
  refine ⟨⟨hsavedCounts.totalBytes, hsavedCounts.completedLines, hsavedCounts.hasOpenLine⟩, ?_, ?_⟩
  · obtain ⟨before, hsplit, hbefore⟩ := h.tail
    obtain ⟨cut, hcut, hlong⟩ :=
      trimToLastUtf8Bytes_spec (s.tailOutput ++ text) (defaultMaxBytes * 2)
    refine ⟨before ++ cut, ?_, ?_⟩
    · rw [hsplit, append_assoc, append_assoc]
      exact congrArg (before ++ ·) hcut
    rcases hlong with rfl | hlong
    · refine hbefore.imp (fun hnil => by rw [hnil, append_nil]) fun hlong => ?_
      rw [nil_append] at hcut
      rw [← hcut, byteLength_append]
      omega
    · exact .inr hlong
  · intro hnone
    obtain ⟨hthrown, hquiet⟩ := Option.or_eq_none_iff.1 hnone
    obtain ⟨hrequested, hsettled⟩ := h.saveText text (hsame.symm.trans hquiet) hextended
    rw [← hbeyond] at hrequested hsettled
    exact ⟨hrequested, hsettled⟩

include h in
/-- A write that is done changes nothing in the end. -/
theorem Follows.write :
    (s.write tempFile).Follows tempFile output := by
  cases hchain : s.writeChain with
  | nil =>
    rw [Capture.write, hchain]
    exact h
  | cons step later =>
    have hsettled : ((s.write tempFile).settle tempFile).written = (s.settle tempFile).written := by
      simp only [Capture.write, settle, hchain, foldl_cons]
    have hcounts : (s.write tempFile).Counts output := by
      rw [Capture.write, hchain]
      exact ⟨h.counts.totalBytes, h.counts.completedLines, h.counts.hasOpenLine⟩
    have htail : (s.write tempFile).tailOutput = s.tailOutput := by rw [Capture.write, hchain]
    have hbeyond : (s.write tempFile).beyond = s.beyond := by rw [Capture.write, hchain]; rfl
    refine ⟨hcounts, by rw [htail]; exact h.tail, fun hnone => ?_⟩
    rw [hsettled, hbeyond]
    rw [Capture.write, hchain] at hnone ⊢
    exact h.file hnone

include h in
/-- **Every order of chunks and writes is followed.** -/
theorem Follows.run (events : List CaptureEvent) :
    (events.foldl (Capture.step tempFile) s).Follows tempFile (output ++ outputOf events) := by
  induction events generalizing s output with
  | nil => rwa [outputOf, append_nil]
  | cons event events ih =>
    cases event with
    | chunk chunk thrown =>
      have hnext := ih (h.onChunk chunk thrown)
      rwa [append_assoc] at hnext
    | write => exact ih h.write

include h in
/-- When all writes are done, the file has the output. -/
theorem Follows.settle :
    (s.settle tempFile).Follows tempFile output :=
  ⟨⟨h.counts.totalBytes, h.counts.completedLines, h.counts.hasOpenLine⟩, h.tail, h.file⟩

include h in
/-- In the end the file has been requested already, if it is needed and there is no error. -/
theorem Follows.ensure_end :
    (if s.createProgress.truncation.truncated && !s.fullOutputRequested then
      s.ensureFullOutputFile s.tailOutput else s) = s := by
  split_ifs with hneeded
  · rw [Bool.and_eq_true, Bool.not_eq_true'] at hneeded
    cases herror : s.captureError with
    | none =>
      have hrequested := (h.file herror).1.symm.trans hneeded.2
      exact absurd (hneeded.1.symm.trans hrequested) (by decide)
    | some error => exact if_pos (.inr (by rw [herror]; rfl))
  · rfl

/-- Where no callback throws, there is no error. -/
theorem captureError_run {events : List CaptureEvent}
    (hquiet : ∀ chunk thrown, .chunk chunk thrown ∈ events → thrown = none)
    (hnone : s.captureError = none) :
    (events.foldl (Capture.step tempFile) s).captureError = none := by
  induction events generalizing s with
  | nil => exact hnone
  | cons event events ih =>
    refine ih (fun chunk thrown hmem => hquiet chunk thrown (mem_cons_of_mem _ hmem)) ?_
    cases event with
    | chunk chunk thrown =>
      rw [hquiet chunk thrown mem_cons_self]
      simp only [Capture.step, Capture.onChunk, (saveText_frame _ _).2.2.2.2,
        (s.countText_frame _).2.2.2.2, hnone, Option.or_none]
    | write =>
      rw [Capture.step, Capture.write]
      split
      · exact hnone
      · exact hnone

end Capture

/-! ## What is reported in the end -/

/-- The command has exited, or its failure is reported with the output. -/
def ExecResult.Reported (returnExecutionErrors aborted : Bool) : ExecResult → Prop
  | .exited _ => True
  | .failed error => error.code = .aborted ∨ aborted = true ∨ returnExecutionErrors = true
  | .threw _ => False

variable {returnExecutionErrors aborted : Bool}

theorem ExecResult.report_ok (result : ExecResult)
    (h : result.Reported returnExecutionErrors aborted) (progress : ShellCaptureProgress) :
    ∃ r, result.report returnExecutionErrors aborted progress = .ok r := by
  cases result with
  | exited exitCode => exact ⟨_, rfl⟩
  | failed error =>
    rw [report]
    split_ifs with haborted hreturned
    · exact ⟨_, rfl⟩
    · exact ⟨_, rfl⟩
    · rw [Reported] at h
      exact absurd h (by tauto)
  | threw error => exact h.elim

/-- A report has the progress. -/
theorem ExecResult.report_spec {progress : ShellCaptureProgress} {r : ShellCaptureResult}
    (result : ExecResult) (h : result.report returnExecutionErrors aborted progress = .ok r) :
    r.toShellCaptureProgress = progress ∧ r.truncated = progress.truncation.truncated := by
  cases result with
  | exited exitCode => cases h; exact ⟨rfl, rfl⟩
  | failed error =>
    rw [report] at h
    split_ifs at h <;> cases h <;> exact ⟨rfl, rfl⟩
  | threw error => cases h

/-- The progress at the end is what `truncateTail` makes of the output. -/
theorem Capture.Follows.progress {tempFile : String} (h : s.Follows tempFile output) :
    s.createProgress.output = (truncateTail output defaultMaxLines defaultMaxBytes).content ∧
    s.createProgress.truncation.truncated = s.beyond ∧
    s.createProgress.truncation.totalLines =
      (truncateTail output defaultMaxLines defaultMaxBytes).totalLines ∧
    s.createProgress.truncation.totalBytes =
      (truncateTail output defaultMaxLines defaultMaxBytes).totalBytes := by
  obtain ⟨hlines, hbytes, htruncated⟩ :=
    truncateTail_counts output defaultMaxLines defaultMaxBytes
  rw [truncateTail_eq, hlines, hbytes]
  refine ⟨?_, rfl, h.counts.totalLines_eq, h.counts.totalBytes⟩
  show (if s.beyond then (truncateTail s.tailOutput defaultMaxLines defaultMaxBytes).content
    else s.tailOutput) = _
  rw [truncateTail_eq]
  cases hbeyond : s.beyond with
  | false =>
    have hwithin := h.counts.beyond_eq
    rw [hbeyond, truncateTail_eq, htruncated, eq_comm, Bool.or_eq_false_iff,
      decide_eq_false_iff_not, decide_eq_false_iff_not, not_lt, not_lt] at hwithin
    rw [h.whole hbeyond, (truncateTail_of_within hwithin).1]
    rfl
  | true =>
    obtain ⟨before, hsplit, hbefore⟩ := h.tail
    rw [if_pos rfl, hsplit]
    rcases hbefore with rfl | hlong
    · rfl
    · have hmax : 7 < defaultMaxBytes := by decide
      exact content_held (by decide) (by omega) before

/-- The end of a capture reports what was followed, and does so unless a callback has thrown. -/
theorem Capture.Follows.finish {tempFile : String} (h : s.Follows tempFile output)
    (result : ExecResult) :
    (∀ r file, s.finish tempFile returnExecutionErrors aborted result = (.ok r, file) →
      Reports output r file) ∧
    (s.captureError = none → result.Reported returnExecutionErrors aborted →
      ∃ r, (s.finish tempFile returnExecutionErrors aborted result).1 = .ok r) := by
  unfold Capture.finish
  dsimp only
  rw [h.ensure_end]
  have herror : (s.settle tempFile).captureError = s.captureError := rfl
  rw [herror]
  cases hcase : s.captureError with
  | some error =>
    refine ⟨fun r file hreport => ?_, fun hnone => by cases hnone⟩
    cases hwritten : (s.settle tempFile).written with
    | error | ok => rw [hwritten] at hreport; cases hreport
  | none =>
    obtain ⟨-, hwritten⟩ := h.file hcase
    rw [hwritten]
    refine ⟨fun r file hreport => ?_, fun _ hreported => result.report_ok hreported _⟩
    dsimp only at hreport
    obtain ⟨hok, rfl⟩ := Prod.mk.inj hreport
    obtain ⟨hprogress, htruncated⟩ := result.report_spec hok
    obtain ⟨houtput, hbeyond, hlines, hbytes⟩ := h.settle.progress
    refine ⟨by rw [hprogress, houtput], ?_, by rw [hprogress, hlines], by rw [hprogress, hbytes],
      fun htrue => ?_⟩
    · rw [htruncated, hbeyond, h.settle.counts.beyond_eq]
    · have hbeyond' : s.beyond = true := hbeyond.symm.trans (htruncated.symm.trans htrue)
      rw [hbeyond', if_pos rfl] at hwritten ⊢
      refine ⟨tempFile, ?_, rfl⟩
      rw [hprogress]
      unfold Capture.createProgress
      dsimp only
      rw [hwritten]
      rfl

/-- **Whatever the order of chunks and writes, what is reported of a command is what `truncateTail`
makes of all its output, and a truncated output is in the file; it is reported unless a callback has
thrown or the command failed.** -/
theorem executeShellWithCapture_eq_truncateTail (tempFile : String)
    (returnExecutionErrors aborted : Bool) (events : List CaptureEvent) (result : ExecResult) :
    (∀ r file, executeShellWithCapture tempFile returnExecutionErrors aborted events result =
      (.ok r, file) → Reports (outputOf events) r file) ∧
    ((∀ chunk thrown, .chunk chunk thrown ∈ events → thrown = none) →
      result.Reported returnExecutionErrors aborted →
      ∃ r, (executeShellWithCapture tempFile returnExecutionErrors aborted events result).1 =
        .ok r) := by
  have hfollows := (Capture.follows_new tempFile).run events
  have hquiet := @Capture.captureError_run .new tempFile events
  rw [nil_append] at hfollows
  unfold executeShellWithCapture
  cases result with
  | threw error =>
    refine ⟨fun r file h => ?_, fun _ h => h.elim⟩
    cases h
  | failed error =>
    obtain ⟨hreports, hreported⟩ := hfollows.finish (.failed error)
    exact ⟨hreports, fun hnone => hreported (hquiet hnone rfl)⟩
  | exited exitCode =>
    obtain ⟨hreports, hreported⟩ := hfollows.finish (.exited exitCode)
    exact ⟨hreports, fun hnone => hreported (hquiet hnone rfl)⟩

/-- Two chunks of `n` letters, each of which is followed by a write. -/
def lettersRun (n : Nat) : List CaptureEvent :=
  [.chunk (replicate n 'a') none, .write, .chunk (replicate n 'a') none, .write]

theorem byteLength_lettersRun (n : Nat) : byteLength (outputOf (lettersRun n)) = n + n := by
  have hclean : sanitizeChunk (replicate n 'a') = replicate n 'a' := by
    rw [sanitizeChunk, sanitizeBinaryOutput, filter_replicate_of_pos (by decide),
      filter_replicate_of_pos (by decide)]
  have hbytes : byteLength (replicate n 'a') = n := by
    clear hclean
    induction n with
    | zero => rfl
    | succ n ih =>
      rw [replicate_succ, byteLength_cons, ih]
      exact Nat.add_comm 1 n
  simp only [lettersRun, outputOf, hclean, byteLength_append, hbytes, byteLength_nil, Nat.add_zero]

/-- The tail of two chunks of 30000 letters is reported, and the file has both. -/
theorem executeShellWithCapture_eq_truncateTail_letters :
    ∃ r file, executeShellWithCapture "output" false false (lettersRun 30000) (.exited 0) =
      (.ok r, file) ∧ Reports (outputOf (lettersRun 30000)) r file ∧ r.truncated = true := by
  generalize hn : 30000 = n
  obtain ⟨hreports, hreported⟩ :=
    executeShellWithCapture_eq_truncateTail "output" false false (lettersRun n) (.exited 0)
  obtain ⟨r, hr⟩ := hreported (by simp [lettersRun]) trivial
  have h := hreports r _ (Prod.ext hr rfl)
  refine ⟨r, _, Prod.ext hr rfl, h, ?_⟩
  have hbeyond : defaultMaxBytes < n + n := by rw [← hn]; decide
  rw [h.truncated, truncateTail_eq, (truncateTail_counts _ _ _).2.2, byteLength_lettersRun]
  simp [hbeyond]

end BeauPi.Harness
