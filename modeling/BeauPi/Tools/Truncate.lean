import BeauPi.Execution.Lines
import BeauPi.Js.TextDecoder

/-!
# Truncating a text

`truncateHead` and `truncateTail` keep the first or the last lines of a text within a number of
lines and a number of bytes.

* `splitLinesForCounting`, `joinLines` — lines, where a newline at the end starts no line.
* `collectHead`, `collectTail` — the loops, forwards from the first line and backwards from the last.
* `truncateHead`, `truncateTail`, `TruncationResult` — the functions and what they return.
* `collectTail_append` — **lines that do not fit any more do not matter**.
-/

namespace BeauPi.Tools

open Execution Utf8 List

/-! ## Lines -/

/-- The lines of a text of any units: a newline at the end starts none. -/
def splitLinesAt {α : Type} [DecidableEq α] (newline : α) (content : List α) : List (List α) :=
  if content = [] then []
  else
    let lines := content.splitOn newline
    if content.getLast? = some newline then lines.dropLast else lines

/-- `splitLinesForCounting` -/
def splitLinesForCounting (content : List Char) : List (List Char) := splitLinesAt '\n' content

/-- `lines.join("\n")` -/
def joinLines (lines : List (List Char)) : List Char := ['\n'].intercalate lines

/-! ## What is returned -/

/-- The limit that was hit. -/
inductive TruncatedBy
  | lines
  | bytes
  deriving DecidableEq, Repr

/-- What the loop of a truncation ends with. -/
structure Collected (α : Type) where
  outputLinesArr : List (List α)
  outputBytesCount : Nat
  truncatedBy : TruncatedBy
  lastLinePartial : Bool
  deriving DecidableEq, Repr

/-- `TruncationResult`; `firstLineExceedsLimit` is always false for `truncateTail`. -/
structure TruncationResult (α : Type) where
  content : List α
  truncated : Bool
  truncatedBy : Option TruncatedBy
  totalLines : Nat
  totalBytes : Nat
  outputLines : Nat
  outputBytes : Nat
  lastLinePartial : Bool
  firstLineExceedsLimit : Bool
  maxLines : Nat
  maxBytes : Nat
  deriving DecidableEq, Repr

section
variable {α : Type} (byteLength : List α → Nat)

/-- The result for a text within the limits. -/
def TruncationResult.whole (content : List α) (lines : List (List α)) (maxLines maxBytes : Nat) :
    TruncationResult α where
  content := content
  truncated := false
  truncatedBy := none
  totalLines := lines.length
  totalBytes := byteLength content
  outputLines := lines.length
  outputBytes := byteLength content
  lastLinePartial := false
  firstLineExceedsLimit := false
  maxLines := maxLines
  maxBytes := maxBytes

/-- The result for a text of which some lines were collected, whose join is `outputContent`. -/
def Collected.result (collected : Collected α) (outputContent content : List α)
    (lines : List (List α)) (maxLines maxBytes : Nat) : TruncationResult α :=
  { TruncationResult.whole byteLength content lines maxLines maxBytes with
    content := outputContent
    truncated := true
    truncatedBy := some
      (if collected.outputLinesArr.length ≥ maxLines ∧ collected.outputBytesCount ≤ maxBytes then
        .lines
      else collected.truncatedBy)
    outputLines := collected.outputLinesArr.length
    outputBytes := byteLength outputContent
    lastLinePartial := collected.lastLinePartial }

/-! ## Truncating from the head -/

/-- The loop of `truncateHead`, with the lines collected so far and the bytes they take. -/
def collectHead (maxLines maxBytes : Nat) : List (List α) → List (List α) → Nat → Collected α
  | [], outputLinesArr, outputBytesCount => ⟨outputLinesArr, outputBytesCount, .lines, false⟩
  | line :: later, outputLinesArr, outputBytesCount =>
    if outputLinesArr.length < maxLines then
      let lineBytes := byteLength line + if outputLinesArr.length > 0 then 1 else 0
      if outputBytesCount + lineBytes > maxBytes then
        ⟨outputLinesArr, outputBytesCount, .bytes, false⟩
      else collectHead maxLines maxBytes later (outputLinesArr ++ [line])
        (outputBytesCount + lineBytes)
    else ⟨outputLinesArr, outputBytesCount, .lines, false⟩

/-- `truncateHead` for a text of any units with some lines. -/
def truncateHeadOf (joinLines : List (List α) → List α) (lines : List (List α)) (content : List α)
    (maxLines maxBytes : Nat) : TruncationResult α :=
  if lines.length ≤ maxLines ∧ byteLength content ≤ maxBytes then
    .whole byteLength content lines maxLines maxBytes
  else if byteLength (lines.headD []) > maxBytes then
    { TruncationResult.whole byteLength content lines maxLines maxBytes with
      content := []
      truncated := true
      truncatedBy := some .bytes
      outputLines := 0
      outputBytes := 0
      firstLineExceedsLimit := true }
  else
    let collected := collectHead byteLength maxLines maxBytes lines [] 0
    collected.result byteLength (joinLines collected.outputLinesArr) content lines maxLines maxBytes

end

/-- `truncateHead` -/
def truncateHead (content : List Char) (maxLines maxBytes : Nat) : TruncationResult Char :=
  truncateHeadOf byteLength joinLines (splitLinesForCounting content) content maxLines maxBytes

/-! ## Truncating from the tail -/

/-- `truncateStringToBytesFromEnd` -/
def truncateStringToBytesFromEnd (str : List Char) (maxBytes : Nat) : List Char :=
  let buf := encode str
  if buf.length ≤ maxBytes then str
  else decode (buf.drop (skipContinuation buf (buf.length - maxBytes)))

/-- The loop of `truncateTail` over the lines from the last to the first, with the lines collected
so far and the bytes they take; `cut` is what is left of a last line that does not fit. -/
def collectTailOf (cut : List Char → Nat → List Char) (maxLines maxBytes : Nat) :
    List (List Char) → List (List Char) → Nat → Collected Char
  | [], outputLinesArr, outputBytesCount => ⟨outputLinesArr, outputBytesCount, .lines, false⟩
  | line :: earlier, outputLinesArr, outputBytesCount =>
    if outputLinesArr.length < maxLines then
      let lineBytes := byteLength line + if outputLinesArr.length > 0 then 1 else 0
      if outputBytesCount + lineBytes > maxBytes then
        if outputLinesArr.length = 0 then
          let truncatedLine := cut line maxBytes
          ⟨[truncatedLine], byteLength truncatedLine, .bytes, true⟩
        else ⟨outputLinesArr, outputBytesCount, .bytes, false⟩
      else collectTailOf cut maxLines maxBytes earlier (line :: outputLinesArr)
        (outputBytesCount + lineBytes)
    else ⟨outputLinesArr, outputBytesCount, .lines, false⟩

abbrev collectTail := collectTailOf truncateStringToBytesFromEnd

/-- `truncateTail`, with a function that cuts a line. -/
def truncateTailOf (cut : List Char → Nat → List Char) (content : List Char)
    (maxLines maxBytes : Nat) : TruncationResult Char :=
  let lines := splitLinesForCounting content
  if lines.length ≤ maxLines ∧ byteLength content ≤ maxBytes then
    .whole byteLength content lines maxLines maxBytes
  else
    let collected := collectTailOf cut maxLines maxBytes lines.reverse [] 0
    collected.result byteLength (joinLines collected.outputLinesArr) content lines maxLines maxBytes

/-- `truncateTail` -/
def truncateTail (content : List Char) (maxLines maxBytes : Nat) : TruncationResult Char :=
  truncateTailOf truncateStringToBytesFromEnd content maxLines maxBytes

variable {maxLines maxBytes : Nat} {content text line : List Char} {lines : List (List Char)}

/-! ## Lines of a text -/

/-- A text of terminated lines and a tail, which is a line unless it is empty. -/
theorem splitLinesForCounting_unlines {tail : List Char} (hlines : ∀ line ∈ lines, '\n' ∉ line)
    (htail : '\n' ∉ tail) :
    splitLinesForCounting (unlines lines ++ tail) = lines ++ if tail = [] then [] else [tail] := by
  have hsplit := splitOn_unlines hlines htail
  unfold splitLinesForCounting splitLinesAt
  by_cases hnil : unlines lines ++ tail = []
  · rw [if_pos hnil]
    obtain ⟨hl, rfl⟩ := append_eq_nil_iff.1 hnil
    cases lines with
    | nil => rfl
    | cons line lines => simp [unlines_cons] at hl
  · rw [if_neg hnil]
    dsimp only
    rw [hsplit]
    by_cases hempty : tail = []
    · subst hempty
      have hlast : (unlines lines ++ []).getLast? = some '\n' := by
        cases lines using List.reverseRecOn with
        | nil => simp [unlines] at hnil
        | append_singleton lines line => simp [unlines]
      rw [if_pos hlast, dropLast_concat, if_pos rfl, append_nil]
    · rw [if_neg fun hlast => hempty (getLast?_unlines htail hlast), if_neg hempty]

/-- Terminated lines in front are lines. -/
theorem splitLinesForCounting_append (hlines : ∀ line ∈ lines, '\n' ∉ line) (text : List Char) :
    splitLinesForCounting (unlines lines ++ text) = lines ++ splitLinesForCounting text := by
  obtain ⟨more, tail, rfl, hmore, htail⟩ := exists_lines text
  rw [← append_assoc, ← unlines_append, splitLinesForCounting_unlines ?_ htail,
    splitLinesForCounting_unlines hmore htail, append_assoc]
  intro line hline
  rcases mem_append.1 hline with h | h
  · exact hlines line h
  · exact hmore line h

/-- A text without a newline is one line. -/
theorem splitLinesForCounting_line (hnil : text ≠ []) (hline : '\n' ∉ text) :
    splitLinesForCounting text = [text] := by
  have hnone : ∀ line ∈ ([] : List (List Char)), '\n' ∉ line := by simp
  have h := splitLinesForCounting_unlines hnone hline
  rwa [if_neg hnil] at h

theorem splitLinesForCounting_eq_nil : splitLinesForCounting text = [] ↔ text = [] := by
  obtain ⟨lines, tail, rfl, hlines, htail⟩ := exists_lines text
  rw [splitLinesForCounting_unlines hlines htail]
  cases lines with
  | nil => by_cases h : tail = [] <;> simp [h, unlines]
  | cons line lines => simp [unlines_cons]

@[simp] theorem joinLines_singleton (line : List Char) : joinLines [line] = line := by
  simp [joinLines]

theorem joinLines_cons (line : List Char) (hlines : lines ≠ []) :
    joinLines (line :: lines) = line ++ '\n' :: joinLines lines := by
  cases lines with
  | nil => exact absurd rfl hlines
  | cons next rest => simp [joinLines, List.intercalate]

/-- A text is its lines, with a newline behind them if it ends with one. -/
theorem eq_joinLines (text : List Char) :
    text = joinLines (splitLinesForCounting text) ++
      if text.getLast? = some '\n' then ['\n'] else [] := by
  obtain ⟨lines, tail, rfl, hlines, htail⟩ := exists_lines text
  have htailLast : tail.getLast? ≠ some '\n' := fun h => htail (mem_of_getLast? h)
  induction lines with
  | nil =>
    by_cases hempty : tail = []
    · subst hempty
      rfl
    · simp only [unlines, flatMap_nil, nil_append]
      rw [splitLinesForCounting_line hempty htail, joinLines_singleton, if_neg htailLast,
        append_nil]
  | cons line lines ih =>
    have hrest := ih fun l hl => hlines l (mem_cons_of_mem _ hl)
    have hone : unlines (line :: lines) ++ tail = unlines [line] ++ (unlines lines ++ tail) := by
      simp [unlines]
    have hcount : splitLinesForCounting (unlines (line :: lines) ++ tail) =
        line :: splitLinesForCounting (unlines lines ++ tail) := by
      rw [hone, splitLinesForCounting_append (by simpa using hlines line mem_cons_self)]
      rfl
    rw [hcount, unlines_cons, append_assoc, cons_append]
    generalize hmore : unlines lines ++ tail = more at hrest
    by_cases hnil : more = []
    · rw [hnil, splitLinesForCounting, splitLinesAt, if_pos rfl, joinLines_singleton, if_pos (by simp)]
    · have hlast : (line ++ '\n' :: more).getLast? = more.getLast? := by
        rw [getLast?_append_of_ne_nil _ (cons_ne_nil _ _), getLast?_cons]
        cases hm : more.getLast? with
        | none => exact absurd (getLast?_eq_none_iff.1 hm) hnil
        | some c => rfl
      rw [joinLines_cons line (fun h => hnil (splitLinesForCounting_eq_nil.1 h)), hlast,
        append_assoc, cons_append, ← hrest]

/-- The newline at the end is all that the lines of a text may lack. -/
theorem byteLength_le_joinLines (text : List Char) :
    byteLength text ≤ byteLength (joinLines (splitLinesForCounting text)) + 1 := by
  conv_lhs => rw [eq_joinLines text]
  rw [byteLength_append]
  split_ifs
  · exact le_rfl
  · simp

theorem joinLines_le_byteLength (text : List Char) :
    byteLength (joinLines (splitLinesForCounting text)) ≤ byteLength text := by
  conv_rhs => rw [eq_joinLines text]
  rw [byteLength_append]
  omega

/-! ## The loop -/

/-- Cutting a line keeps its longest end within the limit. -/
theorem truncateStringToBytesFromEnd_eq (str : List Char) (maxBytes : Nat) :
    truncateStringToBytesFromEnd str maxBytes = tailWithin maxBytes str := by
  unfold truncateStringToBytesFromEnd
  dsimp only
  split_ifs with hle
  · cases str with
    | nil => rfl
    | cons c cs => exact (if_pos hle).symm
  · exact decode_skipContinuation maxBytes str

/-- What a collected line costs is what it adds to the joined lines. -/
theorem byteLength_joinLines_cons (line : List Char) (lines : List (List Char)) :
    byteLength (joinLines (line :: lines)) =
      byteLength (joinLines lines) + (byteLength line + if lines.length > 0 then 1 else 0) := by
  cases lines with
  | nil => simp [joinLines]
  | cons next rest =>
    rw [joinLines_cons line (cons_ne_nil next rest), byteLength_append, byteLength_newline]
    simp
    omega

/-- More lines take more bytes. -/
theorem byteLength_joinLines_le (more lines : List (List Char)) :
    byteLength (joinLines lines) ≤ byteLength (joinLines (more ++ lines)) := by
  induction more with
  | nil => exact le_rfl
  | cons line more ih =>
    rw [cons_append, byteLength_joinLines_cons]
    omega

/-- The lines, the partial line and the limits are what counts: the loop without its count. -/
theorem collectTail_cons {collected : List (List Char)} (line : List Char)
    (earlier : List (List Char)) :
    collectTail maxLines maxBytes (line :: earlier) collected (byteLength (joinLines collected)) =
      if collected.length < maxLines then
        if byteLength (joinLines (line :: collected)) > maxBytes then
          if collected = [] then
            ⟨[tailWithin maxBytes line], byteLength (tailWithin maxBytes line), .bytes, true⟩
          else ⟨collected, byteLength (joinLines collected), .bytes, false⟩
        else collectTail maxLines maxBytes earlier (line :: collected)
          (byteLength (joinLines (line :: collected)))
      else ⟨collected, byteLength (joinLines collected), .lines, false⟩ := by
  simp only [collectTailOf, byteLength_joinLines_cons, truncateStringToBytesFromEnd_eq,
    length_eq_zero_iff]

/-- **Lines that do not fit any more do not matter.**  If the next line does not fit behind the
lines that are there, it changes neither what is collected nor whether the last line is cut. -/
theorem collectTail_append (maxLines : Nat) {later collected : List (List Char)}
    {next : List Char} (earlier : List (List Char)) (hsome : later ≠ [] ∨ collected ≠ [])
    (hnext : maxBytes < byteLength (joinLines (next :: (later.reverse ++ collected)))) :
    (collectTail maxLines maxBytes (later ++ next :: earlier) collected
        (byteLength (joinLines collected))).outputLinesArr =
      (collectTail maxLines maxBytes later collected
        (byteLength (joinLines collected))).outputLinesArr ∧
    (collectTail maxLines maxBytes (later ++ next :: earlier) collected
        (byteLength (joinLines collected))).lastLinePartial =
      (collectTail maxLines maxBytes later collected
        (byteLength (joinLines collected))).lastLinePartial := by
  induction later generalizing collected with
  | nil =>
    have hne : collected ≠ [] := hsome.resolve_left (fun h => h rfl)
    rw [nil_append, collectTail_cons, collectTail, collectTailOf]
    split_ifs
    · exact ⟨rfl, rfl⟩
    · exact absurd hnext (by assumption)
    · exact ⟨rfl, rfl⟩
  | cons line later ih =>
    rw [cons_append, collectTail_cons, collectTail_cons]
    split_ifs
    · exact ⟨rfl, rfl⟩
    · exact ⟨rfl, rfl⟩
    · refine ih (.inr (cons_ne_nil _ _)) ?_
      simpa using hnext
    · exact ⟨rfl, rfl⟩

/-- Lines within both limits are all collected. -/
theorem collectTail_all {later collected : List (List Char)}
    (hlines : later.length + collected.length ≤ maxLines)
    (hbytes : byteLength (joinLines (later.reverse ++ collected)) ≤ maxBytes) :
    (collectTail maxLines maxBytes later collected
        (byteLength (joinLines collected))).outputLinesArr = later.reverse ++ collected ∧
    (collectTail maxLines maxBytes later collected
        (byteLength (joinLines collected))).lastLinePartial = false := by
  induction later generalizing collected with
  | nil => exact ⟨rfl, rfl⟩
  | cons line later ih =>
    have hbytes' : byteLength (joinLines (later.reverse ++ line :: collected)) ≤ maxBytes := by
      simpa using hbytes
    have hfits : ¬byteLength (joinLines (line :: collected)) > maxBytes :=
      not_lt.2 ((byteLength_joinLines_le later.reverse (line :: collected)).trans hbytes')
    rw [length_cons] at hlines
    rw [collectTail_cons, if_pos (by omega), if_neg hfits]
    have hrest := ih (by rw [length_cons]; omega) hbytes'
    simpa using hrest

/-- The loop collects all lines of a text within both limits. -/
theorem collectTail_lines (hlines : lines.length ≤ maxLines)
    (hbytes : byteLength (joinLines lines) ≤ maxBytes) :
    (collectTail maxLines maxBytes lines.reverse [] 0).outputLinesArr = lines ∧
    (collectTail maxLines maxBytes lines.reverse [] 0).lastLinePartial = false := by
  have hbytes' : byteLength (joinLines (lines.reverse.reverse ++ [])) ≤ maxBytes := by
    simpa using hbytes
  have hall : lines.reverse.length + ([] : List (List Char)).length ≤ maxLines := by
    simpa using hlines
  have h := collectTail_all hall hbytes'
  rwa [reverse_reverse, append_nil] at h

/-- A last line that is too long is cut. -/
theorem collectTail_partial (hmax : 1 ≤ maxLines) (hlong : maxBytes < byteLength line)
    (earlier : List (List Char)) :
    collectTail maxLines maxBytes (line :: earlier) [] 0 =
      ⟨[tailWithin maxBytes line], byteLength (tailWithin maxBytes line), .bytes, true⟩ := by
  have h : collectTail maxLines maxBytes (line :: earlier) [] (byteLength (joinLines [])) = _ :=
    collectTail_cons line earlier
  rw [if_pos (show ([] : List (List Char)).length < maxLines from hmax),
    if_pos (by simpa using hlong), if_pos rfl] at h
  exact h

/-! ## The function on the end of a text -/

/-- A text beyond a limit is truncated. -/
theorem truncateTail_of_beyond
    (h : maxLines < (splitLinesForCounting text).length ∨ maxBytes < byteLength text) :
    (truncateTail text maxLines maxBytes).content = joinLines
      (collectTail maxLines maxBytes (splitLinesForCounting text).reverse [] 0).outputLinesArr ∧
    (truncateTail text maxLines maxBytes).lastLinePartial =
      (collectTail maxLines maxBytes
        (splitLinesForCounting text).reverse [] 0).lastLinePartial := by
  unfold truncateTail truncateTailOf
  dsimp only
  rw [if_neg (by omega)]
  exact ⟨rfl, rfl⟩

/-- A text within the limits is shown as it is. -/
theorem truncateTail_of_within
    (h : (splitLinesForCounting text).length ≤ maxLines ∧ byteLength text ≤ maxBytes) :
    (truncateTail text maxLines maxBytes).content = text ∧
    (truncateTail text maxLines maxBytes).lastLinePartial = false := by
  unfold truncateTail truncateTailOf
  dsimp only
  rw [if_pos h]
  exact ⟨rfl, rfl⟩

/-- What is kept of a text whose line before the end does not fit is what the loop keeps of the
end. -/
theorem truncateTail_end (maxLines : Nat) {before : List (List Char)} {next : List Char}
    (hlong : maxBytes < byteLength (unlines (before ++ [next]) ++ text))
    (hlines : ∀ line ∈ before ++ [next], '\n' ∉ line) (hnil : text ≠ [])
    (hnext : maxBytes < byteLength (joinLines (next :: splitLinesForCounting text))) :
    (truncateTail (unlines (before ++ [next]) ++ text) maxLines maxBytes).content = joinLines
      (collectTail maxLines maxBytes (splitLinesForCounting text).reverse [] 0).outputLinesArr ∧
    (truncateTail (unlines (before ++ [next]) ++ text) maxLines maxBytes).lastLinePartial =
      (collectTail maxLines maxBytes
        (splitLinesForCounting text).reverse [] 0).lastLinePartial := by
  obtain ⟨hcontent, hpartial⟩ := truncateTail_of_beyond (.inr hlong)
  rw [hcontent, hpartial, splitLinesForCounting_append hlines, reverse_append,
    reverse_concat]
  have hne : (splitLinesForCounting text).reverse ≠ [] := by
    simpa [splitLinesForCounting_eq_nil] using hnil
  have hnext' : maxBytes <
      byteLength (joinLines (next :: ((splitLinesForCounting text).reverse.reverse ++ []))) := by
    simpa using hnext
  have hsame := collectTail_append maxLines before.reverse (.inl hne) hnext'
  exact ⟨congrArg joinLines hsame.1, hsame.2⟩

/-- What is kept of a text whose last line is too long is the end of that line. -/
theorem truncateTail_longLine {before : List (List Char)} (hmax : 1 ≤ maxLines)
    (hlines : splitLinesForCounting text = before ++ [line]) (hlong : maxBytes < byteLength line) :
    (truncateTail text maxLines maxBytes).content = tailWithin maxBytes line ∧
    (truncateTail text maxLines maxBytes).lastLinePartial = true := by
  have hall : maxBytes < byteLength text := by
    have hle := byteLength_joinLines_le before [line]
    rw [joinLines_singleton, ← hlines] at hle
    have hjoin := joinLines_le_byteLength text
    omega
  obtain ⟨hcontent, hpartial⟩ := truncateTail_of_beyond (.inr hall)
  rw [hcontent, hpartial, hlines, reverse_concat, collectTail_partial hmax hlong]
  exact ⟨joinLines_singleton _, rfl⟩

end BeauPi.Tools
