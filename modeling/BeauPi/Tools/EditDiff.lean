import BeauPi.Js.Text
import BeauPi.Machine.Fallible
import BeauPi.Machine.Substrings

/-!
# The edit tool

An edit names the text to replace.  It is searched as it is and else in a normalized space, where
white space at line ends is gone and typographic characters are plain.

* `normalizeForFuzzyMatch`, `fuzzyFindText`, `countOccurrences` — the three searches.
* `applyReplacements`, `applyReplacementsPreservingUnchangedLines` — replacing matched ranges.
* `applyEditsToNormalizedContent` — all edits of a call.
-/

namespace BeauPi.Tools

open Js Machine

/-! ## Normal forms -/

/-- `"\n"` -/
def lineFeed : UInt16 := 10

/-- `normalizeToLF` -/
def normalizeToLF : Units → Units
  | 13 :: 10 :: rest => 10 :: normalizeToLF rest
  | 13 :: rest => 10 :: normalizeToLF rest
  | unit :: rest => unit :: normalizeToLF rest
  | [] => []

/-- The four replacements of `normalizeForFuzzyMatch`: quotes, dashes and blanks. -/
def plainUnit (unit : UInt16) : UInt16 :=
  if unit ∈ ([0x2018, 0x2019, 0x201a, 0x201b] : Units) then 39
  else if unit ∈ ([0x201c, 0x201d, 0x201e, 0x201f] : Units) then 34
  else if unit ∈ ([0x2010, 0x2011, 0x2012, 0x2013, 0x2014, 0x2015, 0x2212] : Units) then 45
  else if unit = 0xa0 ∨ (0x2002 ≤ unit ∧ unit ≤ 0x200a) ∨ unit = 0x202f ∨ unit = 0x205f ∨
      unit = 0x3000 then 32
  else unit

/-- The lines of a text; a line feed at the end starts an empty line. -/
def lines (text : Units) : List Units := splitText [lineFeed] 0 [] text

/-- `normalizeForFuzzyMatch`; `nfkc` is `normalize("NFKC")`. -/
def normalizeForFuzzyMatch (nfkc : Units → Units) (text : Units) : Units :=
  ([lineFeed].intercalate ((lines (nfkc text)).map trimEndUnits)).map plainUnit

/-! ## Lines -/

/-- `splitLinesWithEndings`; `line` is the line so far. -/
def splitLinesFrom (line : Units) : Units → List Units
  | [] => if line = [] then [] else [line]
  | unit :: rest =>
    if unit = lineFeed then (line ++ [unit]) :: splitLinesFrom [] rest
    else splitLinesFrom (line ++ [unit]) rest

/-- `splitLinesWithEndings` -/
def splitLinesWithEndings (content : Units) : List Units := splitLinesFrom [] content

/-- `LineSpan` -/
structure LineSpan where
  start : Nat
  stop : Nat
  deriving DecidableEq, Repr

/-- `getLineSpans`, from an offset. -/
def spansFrom (offset : Nat) : List Units → List LineSpan
  | [] => []
  | line :: rest => ⟨offset, offset + line.length⟩ :: spansFrom (offset + line.length) rest

/-- `getLineSpans` -/
def getLineSpans (content : Units) : List LineSpan := spansFrom 0 (splitLinesWithEndings content)

/-! ## Replacements -/

/-- `TextReplacement` -/
structure TextReplacement where
  matchIndex : Nat
  matchLength : Nat
  newText : Units
  deriving DecidableEq, Repr

/-- `MatchedEdit` -/
structure MatchedEdit extends TextReplacement where
  editIndex : Nat
  deriving DecidableEq, Repr

/-- `applyReplacements`: the last replacement is made first. -/
def applyReplacements (content : Units) (replacements : List TextReplacement) (offset : Nat) :
    Units :=
  replacements.foldr (fun replacement result =>
    let matchIndex := replacement.matchIndex - offset
    result.take matchIndex ++ replacement.newText ++
      result.drop (matchIndex + replacement.matchLength)) content

def outsideMessage : String := "Replacement range is outside the base content."

/-- `getReplacementLineRange`: the first line that is touched and the one after the last. -/
def getReplacementLineRange (spans : List LineSpan) (replacement : TextReplacement) :
    Except String (Nat × Nat) :=
  let replacementStart := replacement.matchIndex
  let replacementEnd := replacement.matchIndex + replacement.matchLength
  match spans.findIdx? fun span => span.start ≤ replacementStart ∧ replacementStart < span.stop with
  | none => .error outsideMessage
  | some startLine =>
    let endLine := startLine +
      ((spans.drop startLine).takeWhile fun span => span.stop < replacementEnd).length
    if spans.length ≤ endLine then .error outsideMessage else .ok (startLine, endLine + 1)

/-- Replacements that touch common lines. -/
structure ReplacementGroup where
  startLine : Nat
  endLine : Nat
  replacements : List TextReplacement
  deriving DecidableEq, Repr

/-- The loop that groups the replacements; `current` is the last group. -/
def groupReplacements (spans : List LineSpan) (groups : List ReplacementGroup) :
    List TextReplacement → Except String (List ReplacementGroup)
  | [] => .ok groups
  | replacement :: rest =>
    match getReplacementLineRange spans replacement with
    | .error message => .error message
    | .ok (startLine, endLine) =>
      let new : ReplacementGroup := ⟨startLine, endLine, [replacement]⟩
      match groups.getLast? with
      | none => groupReplacements spans [new] rest
      | some current =>
        if startLine < current.endLine then
          groupReplacements spans (groups.dropLast ++
            [⟨current.startLine, max current.endLine endLine,
              current.replacements ++ [replacement]⟩]) rest
        else groupReplacements spans (groups ++ [new]) rest

/-- The lines from one index to another. -/
def sliceLines (lines : List Units) (start stop : Nat) : Units :=
  ((lines.take stop).drop start).flatten

/-- The loop that copies the lines between the groups and rewrites those of a group. -/
def rewriteGroups (originalLines : List Units) (baseContent : Units) (spans : List LineSpan)
    (originalLineIndex : Nat) : List ReplacementGroup → Units
  | [] => sliceLines originalLines originalLineIndex originalLines.length
  | group :: rest =>
    let groupStartOffset := (spans[group.startLine]?.map (·.start)).getD 0
    let groupEndOffset := (spans[group.endLine - 1]?.map (·.stop)).getD 0
    sliceLines originalLines originalLineIndex group.startLine ++
      applyReplacements ((baseContent.take groupEndOffset).drop groupStartOffset)
        group.replacements groupStartOffset ++
      rewriteGroups originalLines baseContent spans group.endLine rest

/-- The order of `sort((a, b) => a.matchIndex - b.matchIndex)`. -/
def startsBefore (a b : TextReplacement) : Bool := decide (a.matchIndex ≤ b.matchIndex)

/-- `applyReplacementsPreservingUnchangedLines` -/
def applyReplacementsPreservingUnchangedLines (originalContent baseContent : Units)
    (replacements : List TextReplacement) : Except String Units := do
  let originalLines := splitLinesWithEndings originalContent
  let spans := getLineSpans baseContent
  if originalLines.length ≠ spans.length then
    throw "Cannot preserve unchanged lines because the base content has a different line count."
  let groups ← groupReplacements spans [] (replacements.mergeSort startsBefore)
  return rewriteGroups originalLines baseContent spans 0 groups

/-! ## Matching -/

/-- `FuzzyMatchResult`; an index of `none` is `-1`, with nothing found. -/
structure FuzzyMatchResult where
  index : Option Nat
  matchLength : Nat
  usedFuzzyMatch : Bool
  contentForReplacement : Units
  deriving DecidableEq, Repr

/-- `fuzzyFindText` -/
def fuzzyFindText (nfkc : Units → Units) (content oldText : Units) : FuzzyMatchResult :=
  match indexOf? oldText content with
  | some index => ⟨some index, oldText.length, false, content⟩
  | none =>
    let fuzzyContent := normalizeForFuzzyMatch nfkc content
    let fuzzyOldText := normalizeForFuzzyMatch nfkc oldText
    match indexOf? fuzzyOldText fuzzyContent with
    | none => ⟨none, 0, false, content⟩
    | some index => ⟨some index, fuzzyOldText.length, true, fuzzyContent⟩

/-- `content.split(separator)`; the empty separator splits into code units. -/
def splitUnits (separator content : Units) : List Units :=
  if separator = [] then content.map fun unit => [unit] else splitText separator 0 [] content

/-- `countOccurrences` -/
def countOccurrences (nfkc : Units → Units) (content oldText : Units) : Int :=
  (splitUnits (normalizeForFuzzyMatch nfkc oldText)
    (normalizeForFuzzyMatch nfkc content)).length - 1

/-! ## Errors -/

/-- `getNotFoundError` -/
def getNotFoundError (path : String) (editIndex totalEdits : Nat) : String :=
  if totalEdits = 1 then
    "Could not find the exact text in " ++ path ++
      ". The old text must match exactly including all whitespace and newlines."
  else
    "Could not find edits[" ++ toString editIndex ++ "] in " ++ path ++
      ". The oldText must match exactly including all whitespace and newlines."

/-- `getDuplicateError` -/
def getDuplicateError (path : String) (editIndex totalEdits : Nat) (occurrences : Int) : String :=
  if totalEdits = 1 then
    "Found " ++ toString occurrences ++ " occurrences of the text in " ++ path ++
      ". The text must be unique. Please provide more context to make it unique."
  else
    "Found " ++ toString occurrences ++ " occurrences of edits[" ++ toString editIndex ++ "] in " ++
      path ++ ". Each oldText must be unique. Please provide more context to make it unique."

/-- `getEmptyOldTextError` -/
def getEmptyOldTextError (path : String) (editIndex totalEdits : Nat) : String :=
  if totalEdits = 1 then "oldText must not be empty in " ++ path ++ "."
  else "edits[" ++ toString editIndex ++ "].oldText must not be empty in " ++ path ++ "."

/-- `getNoChangeError` -/
def getNoChangeError (path : String) (totalEdits : Nat) : String :=
  if totalEdits = 1 then
    "No changes made to " ++ path ++ ". The replacement produced identical content. This might " ++
      "indicate an issue with special characters or the text not existing as expected."
  else "No changes made to " ++ path ++ ". The replacements produced identical content."

def getOverlapError (path : String) (previous current : MatchedEdit) : String :=
  "edits[" ++ toString previous.editIndex ++ "] and edits[" ++ toString current.editIndex ++
    "] overlap in " ++ path ++ ". Merge them into one edit or target disjoint regions."

/-! ## Applying edits -/

/-- `Edit` -/
structure Edit where
  oldText : Units
  newText : Units
  deriving DecidableEq, Repr

/-- `AppliedEditsResult` -/
structure AppliedEditsResult where
  baseContent : Units
  newContent : Units
  deriving DecidableEq, Repr

/-- An edit with its line endings normalized. -/
def Edit.normalized (edit : Edit) : Edit :=
  ⟨normalizeToLF edit.oldText, normalizeToLF edit.newText⟩

/-- The loop body that matches an edit. -/
def matchEdit (nfkc : Units → Units) (base : Units) (path : String) (totalEdits : Nat)
    (edit : Edit × Nat) : Except String MatchedEdit :=
  let matchResult := fuzzyFindText nfkc base edit.1.oldText
  match matchResult.index with
  | none => .error (getNotFoundError path edit.2 totalEdits)
  | some matchIndex =>
    let occurrences := countOccurrences nfkc base edit.1.oldText
    if 1 < occurrences then .error (getDuplicateError path edit.2 totalEdits occurrences)
    else .ok ⟨⟨matchIndex, matchResult.matchLength, edit.1.newText⟩, edit.2⟩

/-- Two neighbours of which the first reaches into the second. -/
def findOverlap : List MatchedEdit → Option (MatchedEdit × MatchedEdit)
  | previous :: current :: rest =>
    if current.matchIndex < previous.matchIndex + previous.matchLength then
      some (previous, current)
    else findOverlap (current :: rest)
  | _ => none

/-- Does an edit need the normalized space? -/
def usesFuzzyMatch (nfkc : Units → Units) (content : Units) (edits : List Edit) : Bool :=
  edits.any fun edit => (fuzzyFindText nfkc content edit.normalized.oldText).usedFuzzyMatch

/-- `applyEditsToNormalizedContent` -/
def applyEditsToNormalizedContent (nfkc : Units → Units) (normalizedContent : Units)
    (edits : List Edit) (path : String) : Except String AppliedEditsResult :=
  let normalizedEdits := edits.map (·.normalized)
  match normalizedEdits.findIdx? fun edit => edit.oldText = [] with
  | some i => .error (getEmptyOldTextError path i normalizedEdits.length)
  | none => do
    let usedFuzzyMatch := usesFuzzyMatch nfkc normalizedContent edits
    let replacementBaseContent :=
      if usedFuzzyMatch then normalizeForFuzzyMatch nfkc normalizedContent else normalizedContent
    let matchedEdits ← normalizedEdits.zipIdx.mapM
      (matchEdit nfkc replacementBaseContent path normalizedEdits.length)
    let sorted := matchedEdits.mergeSort
      fun a b => startsBefore a.toTextReplacement b.toTextReplacement
    match findOverlap sorted with
    | some (previous, current) => .error (getOverlapError path previous current)
    | none => do
      let replacements := sorted.map (·.toTextReplacement)
      let newContent ← if usedFuzzyMatch then
          applyReplacementsPreservingUnchangedLines normalizedContent replacementBaseContent
            replacements
        else .ok (applyReplacements replacementBaseContent replacements 0)
      if normalizedContent = newContent then
        .error (getNoChangeError path normalizedEdits.length)
      else .ok ⟨normalizedContent, newContent⟩

end BeauPi.Tools
