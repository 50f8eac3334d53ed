import BeauPi.Js.Text
import BeauPi.Machine.Substrings
import Mathlib.Data.List.Rotate
import Mathlib.Logic.Function.Iterate
import Mathlib.Algebra.GroupWithZero.Nat

/-!
# Kill and yank in the editor

Kills take text before or behind the cursor and collect it in the last entry of the kill ring, as
long as nothing comes between them; a yank inserts that entry, and pops replace it by older ones.

* `findWordBackward`, `findWordForward` — where a word begins and ends.
* `Editor`, `Editor.kill`, `Editor.yank`, `Editor.yankPop` — the commands.
* `Editor.Shows` — the text before the cursor and the text behind it.
* `kill_spec`, `At.shows_insert`, `At.delete_insert` — what the commands do to them.
* `kill_yank_restores` — a yank gives back what kills have taken, and pops go through the ring.
-/

namespace BeauPi.Tui

open List Js Machine

/-! ## Words -/

/-- The units of an ASCII text. -/
def asciiUnits (text : String) : Units := text.toList.map fun c => c.toNat.toUInt16

/-- A segment that the word segmenter gives. -/
structure WordSegment where
  segment : Units
  isWordLike : Bool
  deriving DecidableEq, Repr

/-- `isWhitespaceChar` -/
def isWhitespaceChar (segment : Units) : Bool := segment.any isSpaceUnit

/-- `PUNCTUATION_REGEX` on a unit: ASCII that is neither letter, digit, blank nor underscore. -/
def isPunctuationUnit (u : UInt16) : Bool :=
  let n := u.toNat
  (0x21 ≤ n && n ≤ 0x2F) || (0x3A ≤ n && n ≤ 0x40) || (0x5B ≤ n && n ≤ 0x60 && n != 0x5F) ||
    (0x7B ≤ n && n ≤ 0x7E)

def isDigitUnit (u : UInt16) : Bool := 0x30 ≤ u && u ≤ 0x39

/-- What follows the digits that a text starts with, if there are any. -/
def afterDigits (text : Units) : Option Units :=
  if (text.takeWhile isDigitUnit).isEmpty then none else some (text.dropWhile isDigitUnit)

/-- `isPasteMarker` -/
def isPasteMarker (segment : Units) : Bool :=
  segment.take 8 == asciiUnits "[paste #" &&
    match afterDigits (segment.drop 8) with
    | none => false
    | some rest =>
      rest == asciiUnits "]" ||
        (rest.take 2 == asciiUnits " +" &&
          afterDigits (rest.drop 2) == some (asciiUnits " lines]")) ||
        (rest.take 1 == asciiUnits " " &&
          afterDigits (rest.drop 1) == some (asciiUnits " chars]"))

/-- The units of some segments. -/
def segmentsLength (segments : List WordSegment) : Nat :=
  (segments.map (·.segment.length)).sum

/-- A segment of white space that is no marker. -/
def isSkipped (s : WordSegment) : Bool := !isPasteMarker s.segment && isWhitespaceChar s.segment

/-- A segment that belongs to a run of punctuation. -/
def isPunctuationRun (s : WordSegment) : Bool :=
  !isPasteMarker s.segment && !s.isWordLike && !isWhitespaceChar s.segment

/-- `findWordBackward`; `segment` is the word segmenter of the editor. -/
def findWordBackward (segment : Units → List WordSegment) (text : Units) (cursor : Nat) : Nat :=
  if cursor = 0 then 0
  else
    let segments := (segment (text.take cursor)).reverse
    let newCursor := cursor - segmentsLength (segments.takeWhile isSkipped)
    match segments.dropWhile isSkipped with
    | [] => newCursor
    | last :: earlier =>
      if isPasteMarker last.segment then newCursor - last.segment.length
      else if last.isWordLike then
        -- the part behind the last punctuation, if there is any
        newCursor - (last.segment.reverse.takeWhile fun u => !isPunctuationUnit u).length
      else newCursor - segmentsLength ((last :: earlier).takeWhile isPunctuationRun)

/-- `findWordForward` -/
def findWordForward (segment : Units → List WordSegment) (text : Units) (cursor : Nat) : Nat :=
  if cursor ≥ text.length then text.length
  else
    let segments := segment (text.drop cursor)
    let newCursor := cursor + segmentsLength (segments.takeWhile isSkipped)
    match segments.dropWhile isSkipped with
    | [] => newCursor
    | next :: later =>
      if isPasteMarker next.segment then newCursor + next.segment.length
      else if next.isWordLike then
        -- the part before the first punctuation, if there is any
        newCursor + (next.segment.takeWhile fun u => !isPunctuationUnit u).length
      else newCursor + segmentsLength ((next :: later).takeWhile isPunctuationRun)

/-! ## The kill ring -/

/-- `KillRing`, with the most recent entry at the end. -/
abbrev KillRing := List Units

/-- `push` -/
def KillRing.push (ring : KillRing) (text : Units) (atFront accumulate : Bool) : KillRing :=
  if text = [] then ring
  else
    match accumulate, ring.getLast? with
    | true, some last => ring.dropLast ++ [if atFront then text ++ last else last ++ text]
    | _, _ => ring ++ [text]

/-- `rotate` -/
def KillRing.rotate (ring : KillRing) : KillRing :=
  match ring.getLast? with
  | none => ring
  | some last => if ring.length > 1 then last :: ring.dropLast else ring

/-! ## The editor -/

inductive LastAction
  | kill
  | yank
  | typeWord
  deriving DecidableEq, Repr

/-- The state of the editor, the kill ring and the last action. -/
structure Editor where
  lines : List Units
  cursorLine : Nat
  cursorCol : Nat
  killRing : KillRing
  lastAction : Option LastAction
  deriving DecidableEq, Repr

/-- `"\n"` -/
def newlineUnit : UInt16 := 10

/-- `lines.join("\n")` -/
def joinUnits (lines : List Units) : Units := [newlineUnit].intercalate lines

namespace Editor

/-- `getText` -/
def getText (e : Editor) : Units := joinUnits e.lines

/-- `this.state.lines[i] || ""` -/
def lineAt (e : Editor) (i : Nat) : Units := (e.lines[i]?).getD []

/-- A text is killed. -/
def push (e : Editor) (text : Units) (atFront : Bool) : Editor :=
  { e with
    killRing := e.killRing.push text atFront (e.lastAction == some .kill)
    lastAction := some .kill }

/-- The newline before the current line is killed. -/
def mergePrevious (e : Editor) : Editor :=
  let previousLine := e.lineAt (e.cursorLine - 1)
  { e.push [newlineUnit] true with
    lines := replaceRange ⟨e.cursorLine, 1, []⟩
      (e.lines.set (e.cursorLine - 1) (previousLine ++ e.lineAt e.cursorLine))
    cursorLine := e.cursorLine - 1
    cursorCol := previousLine.length }

/-- The newline behind the current line is killed. -/
def mergeNext (e : Editor) : Editor :=
  let nextLine := e.lineAt (e.cursorLine + 1)
  { e.push [newlineUnit] false with
    lines := replaceRange ⟨e.cursorLine + 1, 1, []⟩
      (e.lines.set e.cursorLine (e.lineAt e.cursorLine ++ nextLine)) }

/-- The current line is killed from an index up to the cursor. -/
def killBefore (e : Editor) (deleteFrom : Nat) : Editor :=
  let currentLine := e.lineAt e.cursorLine
  { e.push ((currentLine.take e.cursorCol).drop deleteFrom) true with
    lines := e.lines.set e.cursorLine (currentLine.take deleteFrom ++ currentLine.drop e.cursorCol)
    cursorCol := deleteFrom }

/-- The current line is killed from the cursor up to an index. -/
def killBehind (e : Editor) (deleteTo : Nat) : Editor :=
  let currentLine := e.lineAt e.cursorLine
  { e.push ((currentLine.take deleteTo).drop e.cursorCol) false with
    lines := e.lines.set e.cursorLine (currentLine.take e.cursorCol ++ currentLine.drop deleteTo) }

/-- `deleteToStartOfLine` -/
def deleteToStartOfLine (e : Editor) : Editor :=
  if e.cursorCol > 0 then e.killBefore 0
  else if e.cursorLine > 0 then e.mergePrevious
  else e

/-- `deleteToEndOfLine` -/
def deleteToEndOfLine (e : Editor) : Editor :=
  let currentLine := e.lineAt e.cursorLine
  if e.cursorCol < currentLine.length then e.killBehind currentLine.length
  else if e.cursorLine < e.lines.length - 1 then e.mergeNext
  else e

/-- `deleteWordBackwards` -/
def deleteWordBackwards (segment : Units → List WordSegment) (e : Editor) : Editor :=
  if e.cursorCol = 0 then if e.cursorLine > 0 then e.mergePrevious else e
  else e.killBefore (findWordBackward segment (e.lineAt e.cursorLine) e.cursorCol)

/-- `deleteWordForward` -/
def deleteWordForward (segment : Units → List WordSegment) (e : Editor) : Editor :=
  let currentLine := e.lineAt e.cursorLine
  if e.cursorCol ≥ currentLine.length then
    if e.cursorLine < e.lines.length - 1 then e.mergeNext else e
  else e.killBehind (findWordForward segment currentLine e.cursorCol)

end Editor

/-- The commands that kill. -/
inductive KillCommand
  | deleteToLineEnd
  | deleteToLineStart
  | deleteWordBackward
  | deleteWordForward
  deriving DecidableEq, Repr

namespace Editor

/-- A kill command. -/
def kill (segment : Units → List WordSegment) (e : Editor) : KillCommand → Editor
  | .deleteToLineEnd => e.deleteToEndOfLine
  | .deleteToLineStart => e.deleteToStartOfLine
  | .deleteWordBackward => e.deleteWordBackwards segment
  | .deleteWordForward => e.deleteWordForward segment

/-- The middle lines of a yanked text are inserted, each with its own `splice`. -/
def insertLines : Nat → List Units → List Units → List Units
  | _, [], lines => lines
  | i, line :: more, lines => insertLines (i + 1) more (replaceRange ⟨i, 0, [line]⟩ lines)

/-- `insertYankedText` -/
def insertYankedText (e : Editor) (text : Units) : Editor :=
  let lines := text.splitOn newlineUnit
  let currentLine := e.lineAt e.cursorLine
  let before := currentLine.take e.cursorCol
  let after := currentLine.drop e.cursorCol
  if lines.length = 1 then
    { e with
      lines := e.lines.set e.cursorLine (before ++ text ++ after)
      cursorCol := e.cursorCol + text.length }
  else
    let lastLine := lines.getLast?.getD []
    let lastLineIndex := e.cursorLine + lines.length - 1
    { e with
      lines := replaceRange ⟨lastLineIndex, 0, [lastLine ++ after]⟩
        (insertLines (e.cursorLine + 1) lines.tail.dropLast
          (e.lines.set e.cursorLine (before ++ lines.headD [])))
      cursorLine := lastLineIndex
      cursorCol := lastLine.length }

/-- `yank` -/
def yank (e : Editor) : Editor :=
  match e.killRing.getLast? with
  | none => e
  | some text => { e.insertYankedText text with lastAction := some .yank }

/-- `deleteYankedText` -/
def deleteYankedText (e : Editor) : Editor :=
  match e.killRing.getLast? with
  | none => e
  | some yankedText =>
    if yankedText = [] then e
    else
      let yankLines := yankedText.splitOn newlineUnit
      let currentLine := e.lineAt e.cursorLine
      if yankLines.length = 1 then
        let deleteLen := yankedText.length
        { e with
          lines := e.lines.set e.cursorLine
            (currentLine.take (e.cursorCol - deleteLen) ++ currentLine.drop e.cursorCol)
          cursorCol := e.cursorCol - deleteLen }
      else
        let startLine := e.cursorLine - (yankLines.length - 1)
        let startCol := (e.lineAt startLine).length - (yankLines.headD []).length
        { e with
          lines := replaceRange ⟨startLine, yankLines.length,
            [(e.lineAt startLine).take startCol ++ currentLine.drop e.cursorCol]⟩ e.lines
          cursorLine := startLine
          cursorCol := startCol }

/-- `yankPop` -/
def yankPop (e : Editor) : Editor :=
  if e.lastAction ≠ some .yank ∨ e.killRing.length ≤ 1 then e
  else
    let e := e.deleteYankedText
    let e := { e with killRing := e.killRing.rotate }
    match e.killRing.getLast? with
    | none => e
    | some text => { e.insertYankedText text with lastAction := some .yank }

/-! ## The text around the cursor -/

/-- The cursor is in the line `left ++ right`, between the two. -/
structure At (e : Editor) (above : List Units) (left right : Units) (below : List Units) :
    Prop where
  lines : e.lines = above ++ (left ++ right) :: below
  cursorLine : e.cursorLine = above.length
  cursorCol : e.cursorCol = left.length

/-- The text before the cursor and the text behind it. -/
def Shows (e : Editor) (before after : Units) : Prop :=
  ∃ above left right below, e.At above left right below ∧
    before = joinUnits (above ++ [left]) ∧ after = joinUnits (right :: below)

/-- The text before the cursor. -/
def beforeCursor (e : Editor) : Units :=
  joinUnits (e.lines.take e.cursorLine ++ [(e.lineAt e.cursorLine).take e.cursorCol])

/-- The text behind the cursor. -/
def afterCursor (e : Editor) : Units :=
  joinUnits ((e.lineAt e.cursorLine).drop e.cursorCol :: e.lines.drop (e.cursorLine + 1))

/-- The cursor is in the text. -/
structure InBounds (e : Editor) : Prop where
  line : e.cursorLine < e.lines.length
  col : e.cursorCol ≤ (e.lineAt e.cursorLine).length

end Editor

variable {e : Editor} {above below more : List Units} {left right before after text line : Units}

/-! ## Joined lines -/

@[simp] theorem joinUnits_single (line : Units) : joinUnits [line] = line := by
  simp [joinUnits, List.intercalate]

theorem joinUnits_cons (line : Units) (h : more ≠ []) :
    joinUnits (line :: more) = line ++ newlineUnit :: joinUnits more := by
  obtain ⟨next, more, rfl⟩ := exists_cons_of_ne_nil h
  simp [joinUnits, List.intercalate]

/-- Lines that are joined where one of them is cut. -/
theorem joinUnits_cut (above : List Units) (left right : Units) (below : List Units) :
    joinUnits (above ++ (left ++ right) :: below) =
      joinUnits (above ++ [left]) ++ joinUnits (right :: below) := by
  induction above with
  | nil =>
    cases below with
    | nil => simp
    | cons next below =>
      rw [nil_append, nil_append, joinUnits_cons _ (cons_ne_nil _ _),
        joinUnits_cons _ (cons_ne_nil _ _), joinUnits_single, append_assoc]
  | cons line above ih =>
    rw [cons_append, cons_append, joinUnits_cons _ (by simp), joinUnits_cons _ (by simp),
      ih, append_assoc, cons_append]

/-- Lines that are joined where there is a newline. -/
theorem joinUnits_concat (above : List Units) (line left : Units) :
    joinUnits (above ++ [line] ++ [left]) = joinUnits (above ++ [line]) ++ newlineUnit :: left := by
  have hcut := joinUnits_cut above line [] [left]
  rw [append_nil, joinUnits_cons _ (cons_ne_nil _ _), joinUnits_single,
    nil_append] at hcut
  rw [append_assoc]
  exact hcut

theorem splitOn_join (text : Units) : joinUnits (text.splitOn newlineUnit) = text :=
  intercalate_splitOn newlineUnit

/-- A line in the middle is replaced. -/
theorem set_middle (above : List Units) (line line' : Units) (below : List Units) :
    (above ++ line :: below).set above.length line' = above ++ line' :: below := by
  rw [set_append_right _ _ (Nat.le_refl _), Nat.sub_self, set_cons_zero]

/-- A part in the middle is replaced. -/
theorem replaceRange_middle {α : Type} (front cut items rest : List α) :
    replaceRange ⟨front.length, cut.length, items⟩ (front ++ (cut ++ rest)) =
      front ++ (items ++ rest) := by
  rw [replaceRange, take_left, ← drop_drop, drop_left, drop_left, append_assoc]

/-! ## The cursor between two parts -/

namespace Editor

variable (h : e.At above left right below)

include h in
theorem At.lineAt_eq : e.lineAt e.cursorLine = left ++ right := by
  rw [lineAt, h.lines, h.cursorLine, getElem?_append_right (Nat.le_refl _), Nat.sub_self]
  rfl

include h in
theorem At.shows :
    e.Shows (joinUnits (above ++ [left])) (joinUnits (right :: below)) :=
  ⟨above, left, right, below, h, rfl, rfl⟩

theorem InBounds.cursor (h : e.InBounds) :
    e.At (e.lines.take e.cursorLine) ((e.lineAt e.cursorLine).take e.cursorCol)
      ((e.lineAt e.cursorLine).drop e.cursorCol) (e.lines.drop (e.cursorLine + 1)) := by
  have hline : e.lineAt e.cursorLine :: e.lines.drop (e.cursorLine + 1) =
      e.lines.drop e.cursorLine := by
    rw [lineAt, getElem?_eq_getElem h.line]
    exact getElem_cons_drop h.line
  refine ⟨?_, ?_, ?_⟩
  · rw [take_append_drop, hline, take_append_drop]
  · rw [length_take, Nat.min_eq_left (Nat.le_of_lt h.line)]
  · rw [length_take, Nat.min_eq_left h.col]

theorem Shows.getText_eq (h : e.Shows before after) : e.getText = before ++ after := by
  obtain ⟨above, left, right, below, hat, rfl, rfl⟩ := h
  rw [getText, hat.lines, joinUnits_cut]

/-! ## Kills -/

/-- What a kill command can do to an editor that shows `before` and `after`. -/
inductive KillStep (e e' : Editor) (before after : Units) : Prop
  | idle (h : e' = e)
  | backward (before' killed : Units) (text : before = before' ++ killed)
    (shows : e'.Shows before' after)
    (ring : e'.killRing = e.killRing.push killed true (e.lastAction == some .kill))
    (action : e'.lastAction = some .kill)
  | forward (after' killed : Units) (text : after = killed ++ after')
    (shows : e'.Shows before after')
    (ring : e'.killRing = e.killRing.push killed false (e.lastAction == some .kill))
    (action : e'.lastAction = some .kill)

include h in
theorem At.killBefore {n : Nat} (hn : n ≤ left.length) :
    KillStep e (e.killBefore n) (joinUnits (above ++ [left])) (joinUnits (right :: below)) := by
  have hleft : (left ++ right).take e.cursorCol = left := by rw [h.cursorCol, take_left]
  have hright : (left ++ right).drop e.cursorCol = right := by rw [h.cursorCol, drop_left]
  have hstep : (e.killBefore n).At above (left.take n) right below := by
    refine ⟨?_, h.cursorLine, ?_⟩
    · show e.lines.set _ _ = _
      rw [h.lineAt_eq, hright, h.lines, h.cursorLine, set_middle, take_append_of_le_length hn]
    · show n = _
      rw [length_take, Nat.min_eq_left hn]
  refine .backward _ (left.drop n) ?_ hstep.shows ?_ rfl
  · have hcut := joinUnits_cut above (left.take n) (left.drop n) []
    rwa [take_append_drop, joinUnits_single] at hcut
  · show KillRing.push _ _ _ _ = _
    rw [h.lineAt_eq, hleft]

include h in
theorem At.killBehind {n : Nat} (hn : left.length ≤ n) :
    KillStep e (e.killBehind n) (joinUnits (above ++ [left])) (joinUnits (right :: below)) := by
  obtain ⟨k, rfl⟩ := Nat.exists_eq_add_of_le hn
  have hleft : (left ++ right).take e.cursorCol = left := by rw [h.cursorCol, take_left]
  have hstep : (e.killBehind (left.length + k)).At above left (right.drop k) below := by
    refine ⟨?_, h.cursorLine, h.cursorCol⟩
    show e.lines.set _ _ = _
    rw [h.lineAt_eq, hleft, h.lines, h.cursorLine, set_middle, drop_append]
    simp
  refine .forward _ (right.take k) ?_ hstep.shows ?_ rfl
  · have hcut := joinUnits_cut [] (right.take k) (right.drop k) below
    rwa [take_append_drop, nil_append, nil_append, joinUnits_single] at hcut
  · show KillRing.push _ _ _ _ = _
    rw [h.lineAt_eq, h.cursorCol]
    simp [take_append]

theorem At.mergePrevious (h : e.At (above ++ [line]) [] right below) :
    KillStep e e.mergePrevious (joinUnits (above ++ [line] ++ [[]]))
      (joinUnits (right :: below)) := by
  have hline : e.cursorLine = above.length + 1 := by rw [h.cursorLine, length_append]; rfl
  have hprevious : e.lineAt (e.cursorLine - 1) = line := by
    rw [lineAt, h.lines, hline, Nat.add_sub_cancel, append_assoc,
      getElem?_append_right (Nat.le_refl _), Nat.sub_self]
    rfl
  have hstep : e.mergePrevious.At above line right below := by
    refine ⟨?_, ?_, ?_⟩
    · have hset := set_middle above line (line ++ right) (right :: below)
      have hreplace := replaceRange_middle (above ++ [line ++ right]) [right] [] below
      rw [length_append, nil_append, append_assoc, append_assoc] at hreplace
      show replaceRange _ (e.lines.set _ _) = _
      rw [hprevious, h.lineAt_eq, h.lines, hline, Nat.add_sub_cancel, append_assoc,
        nil_append, singleton_append, hset]
      exact hreplace
    · show e.cursorLine - 1 = _
      rw [hline, Nat.add_sub_cancel]
    · show (e.lineAt (e.cursorLine - 1)).length = _
      rw [hprevious]
  exact .backward _ [newlineUnit] (joinUnits_concat above line []) hstep.shows rfl rfl

theorem At.mergeNext (h : e.At above left [] (line :: below)) :
    KillStep e e.mergeNext (joinUnits (above ++ [left])) (joinUnits ([] :: line :: below)) := by
  have hnext : e.lineAt (e.cursorLine + 1) = line := by
    rw [lineAt, h.lines, h.cursorLine, getElem?_append_right (Nat.le_succ _),
      Nat.succ_sub (Nat.le_refl _), Nat.sub_self]
    rfl
  have hstep : e.mergeNext.At above left line below := by
    refine ⟨?_, h.cursorLine, h.cursorCol⟩
    have hset := set_middle above left (left ++ line) (line :: below)
    have hreplace := replaceRange_middle (above ++ [left ++ line]) [line] [] below
    rw [length_append, nil_append, append_assoc, append_assoc] at hreplace
    show replaceRange _ (e.lines.set _ _) = _
    rw [hnext, h.lineAt_eq, h.lines, h.cursorLine, append_nil, hset]
    exact hreplace
  exact .forward _ [newlineUnit] (joinUnits_cons [] (cons_ne_nil _ _)) hstep.shows rfl rfl

theorem findWordBackward_le (segment : Units → List WordSegment) (text : Units) (cursor : Nat) :
    findWordBackward segment text cursor ≤ cursor := by
  unfold findWordBackward
  dsimp only
  split_ifs with hzero
  · exact Nat.zero_le _
  · split
    · omega
    · split_ifs <;> omega

theorem le_findWordForward (segment : Units → List WordSegment) {text : Units} {cursor : Nat}
    (h : cursor < text.length) : cursor ≤ findWordForward segment text cursor := by
  unfold findWordForward
  dsimp only
  rw [if_neg (by omega)]
  split
  · omega
  · split_ifs <;> omega

/-- **What a kill command does.** -/
theorem kill_spec (segment : Units → List WordSegment) (h : e.Shows before after)
    (command : KillCommand) : KillStep e (e.kill segment command) before after := by
  obtain ⟨above, left, right, below, hat, rfl, rfl⟩ := h
  have hlength : (e.lineAt e.cursorLine).length = left.length + right.length := by
    rw [hat.lineAt_eq, length_append]
  have hprevious : e.cursorCol = 0 → e.cursorLine > 0 →
      KillStep e e.mergePrevious (joinUnits (above ++ [left])) (joinUnits (right :: below)) := by
    intro hcol hline
    rw [hat.cursorLine] at hline
    obtain rfl := length_eq_zero_iff.1 (hat.cursorCol.symm.trans hcol)
    obtain ⟨above, line, rfl⟩ :=
      (eq_nil_or_concat' above).resolve_left (length_pos_iff.1 hline)
    exact hat.mergePrevious
  have hnext : ¬e.cursorCol < (e.lineAt e.cursorLine).length →
      e.cursorLine < e.lines.length - 1 →
      KillStep e e.mergeNext (joinUnits (above ++ [left])) (joinUnits (right :: below)) := by
    intro hcol hline
    rw [hlength, hat.cursorCol] at hcol
    obtain rfl := length_eq_zero_iff.1 (show right.length = 0 by omega)
    rw [hat.cursorLine, hat.lines, length_append, length_cons] at hline
    obtain ⟨line, below, rfl⟩ :=
      exists_cons_of_length_pos (show 0 < below.length by omega)
    exact hat.mergeNext
  cases command with
  | deleteToLineEnd =>
    rw [kill, deleteToEndOfLine]
    split_ifs with hcol hline
    · exact hat.killBehind (by omega)
    · exact hnext hcol hline
    · exact .idle rfl
  | deleteToLineStart =>
    rw [kill, deleteToStartOfLine]
    split_ifs with hcol hline
    · exact hat.killBefore (Nat.zero_le _)
    · exact hprevious (by omega) hline
    · exact .idle rfl
  | deleteWordBackward =>
    rw [kill, deleteWordBackwards]
    split_ifs with hcol hline
    · exact hprevious hcol hline
    · exact .idle rfl
    · exact hat.killBefore (hat.cursorCol ▸ findWordBackward_le segment _ _)
  | deleteWordForward =>
    rw [kill, deleteWordForward]
    split_ifs with hcol hline
    · exact hnext (by omega) hline
    · exact .idle rfl
    · exact hat.killBehind (hat.cursorCol ▸ le_findWordForward segment (by omega))

/-! ## Yanks -/

/-- Lines that are inserted one by one. -/
theorem insertLines_middle (above more below : List Units) :
    insertLines above.length more (above ++ below) = above ++ (more ++ below) := by
  induction more generalizing above with
  | nil => rfl
  | cons line more ih =>
    have hreplace := replaceRange_middle above [] [line] below
    have hnext := ih (above ++ [line])
    rw [length_append, append_assoc, append_assoc] at hnext
    rw [length_nil, nil_append] at hreplace
    rw [insertLines, hreplace]
    exact hnext

/-- The lines of a text: one, or a first one, those in the middle and a last one. -/
theorem splitOn_cases (text : Units) : text.splitOn newlineUnit = [text] ∨
    ∃ first middle last, text.splitOn newlineUnit = first :: (middle ++ [last]) := by
  have hjoin := splitOn_join text
  cases hlines : text.splitOn newlineUnit with
  | nil => exact absurd hlines (splitOn_ne_nil _ _)
  | cons first rest =>
    rcases eq_nil_or_concat' rest with rfl | ⟨middle, last, rfl⟩
    · rw [hlines, joinUnits_single] at hjoin
      exact .inl (by rw [hjoin])
    · exact .inr ⟨first, middle, last, rfl⟩

include h in
/-- Where the cursor is when a text of several lines is inserted. -/
theorem At.insert_lines {first last : Units}
    {middle : List Units} (hlines : text.splitOn newlineUnit = first :: (middle ++ [last])) :
    (e.insertYankedText text).At (above ++ (left ++ first) :: middle) last right below := by
  have hmany : ¬(text.splitOn newlineUnit).length = 1 := by rw [hlines]; simp
  have hlast : (first :: (middle ++ [last])).getLast? = some last := by
    rw [← cons_append, getLast?_concat]
  have hindex : e.cursorLine + (text.splitOn newlineUnit).length - 1 =
      (above ++ (left ++ first) :: middle).length := by
    rw [h.cursorLine, hlines]
    simp
  have hmiddle := insertLines_middle (above ++ [left ++ first]) middle below
  have hreplace := replaceRange_middle (above ++ (left ++ first) :: middle) [] [last ++ right] below
  rw [length_append, append_assoc, append_assoc] at hmiddle
  unfold insertYankedText
  dsimp only
  rw [if_neg hmany, hindex, h.lineAt_eq, h.cursorCol, take_left, drop_left, h.lines,
    h.cursorLine, hlines, hlast, headD_cons, tail_cons, dropLast_concat, set_middle]
  refine ⟨?_, rfl, rfl⟩
  show replaceRange _ (insertLines (above.length + 1) middle (above ++ (left ++ first) :: below)) =
    _
  rw [show insertLines (above.length + 1) middle (above ++ (left ++ first) :: below) =
    (above ++ (left ++ first) :: middle) ++ ([] ++ below) by
      rw [append_assoc, cons_append, nil_append]; exact hmiddle]
  exact hreplace

include h in
theorem At.insert_line
    (hline : text.splitOn newlineUnit = [text]) :
    (e.insertYankedText text).At above (left ++ text) right below := by
  unfold insertYankedText
  dsimp only
  rw [if_pos (by rw [hline]; rfl), h.lineAt_eq, h.cursorCol, take_left, drop_left,
    h.lines, h.cursorLine, set_middle]
  exact ⟨rfl, rfl, by rw [length_append]⟩

theorem insertYankedText_killRing (e : Editor) (text : Units) :
    (e.insertYankedText text).killRing = e.killRing := by
  unfold insertYankedText
  dsimp only
  split_ifs <;> rfl

include h in
/-- **A yanked text is behind the text before the cursor.** -/
theorem At.shows_insert (text : Units) :
    (e.insertYankedText text).Shows (joinUnits (above ++ [left]) ++ text)
      (joinUnits (right :: below)) := by
  rcases splitOn_cases text with hline | ⟨first, middle, last, hlines⟩
  · refine ⟨above, left ++ text, right, below, h.insert_line hline, ?_, rfl⟩
    rw [joinUnits_cut above left text [], joinUnits_single]
  · refine ⟨_, last, right, below, h.insert_lines hlines, ?_, rfl⟩
    rw [append_assoc, cons_append, joinUnits_cut, ← hlines, splitOn_join]

include h in
/-- **A yanked text is deleted again.** -/
theorem At.delete_insert
    (hring : e.killRing.getLast? = some text) :
    (e.insertYankedText text).deleteYankedText.At above left right below := by
  have hring' := hring
  rw [← insertYankedText_killRing e text] at hring'
  rcases splitOn_cases text with hline | ⟨first, middle, last, hlines⟩
  · have hat := h.insert_line hline
    unfold deleteYankedText
    rw [hring']
    dsimp only
    split_ifs with hnil hone
    · subst hnil
      rwa [append_nil] at hat
    · rw [hat.lineAt_eq, hat.cursorCol, drop_left, length_append, Nat.add_sub_cancel,
        append_assoc, take_left, hat.lines, hat.cursorLine, set_middle]
      exact ⟨rfl, rfl, rfl⟩
    · exact absurd (by rw [hline]; rfl) hone
  · have hat := h.insert_lines hlines
    have hnil : text ≠ [] := by
      rintro rfl
      simp at hlines
    have hmany : ¬(text.splitOn newlineUnit).length = 1 := by rw [hlines]; simp
    have hstart : (e.insertYankedText text).cursorLine - ((text.splitOn newlineUnit).length - 1) =
        above.length := by
      rw [hat.cursorLine, hlines]
      simp
    have hline : (e.insertYankedText text).lineAt above.length = left ++ first := by
      rw [lineAt, hat.lines, append_assoc, getElem?_append_right (Nat.le_refl _),
        Nat.sub_self]
      rfl
    have hlength : (text.splitOn newlineUnit).length =
        ((left ++ first) :: (middle ++ [last ++ right])).length := by
      rw [hlines]
      simp
    have hreplace := replaceRange_middle above ((left ++ first) :: (middle ++ [last ++ right]))
      [left ++ right] below
    unfold deleteYankedText
    rw [hring']
    dsimp only
    rw [if_neg hnil, if_neg hmany, hstart, hline, hat.lineAt_eq, hat.cursorCol, drop_left,
      hlines, headD_cons, length_append, Nat.add_sub_cancel, take_left, ← hlines,
      hlength, hat.lines]
    refine ⟨?_, rfl, rfl⟩
    rw [singleton_append] at hreplace
    rw [← hreplace]
    simp

/-! ## Runs of kills -/

/-- The kill ring has one more entry, with which the text around the cursor makes up `whole`. -/
def Killed (old : KillRing) (whole : Units) (e : Editor) : Prop :=
  ∃ before after entry, e.Shows before after ∧ e.killRing = old ++ [entry] ∧
    e.lastAction = some .kill ∧ before ++ entry ++ after = whole

theorem push_concat (old : KillRing) (entry text : Units) (atFront : Bool) :
    KillRing.push (old ++ [entry]) text atFront true =
      old ++ [if atFront then text ++ entry else entry ++ text] := by
  unfold KillRing.push
  rw [getLast?_concat, dropLast_concat]
  split_ifs with hnil hfront
  · simp [hnil]
  · simp [hnil]
  · rfl
  · rfl

variable {old : KillRing} {whole : Units}

/-- Another kill adds to the entry what it takes from the text. -/
theorem Killed.kill (segment : Units → List WordSegment) (h : Killed old whole e)
    (command : KillCommand) :
    Killed old whole (e.kill segment command) := by
  obtain ⟨before, after, entry, hshows, hring, haction, hwhole⟩ := h
  have hkill : (e.lastAction == some .kill) = true := by rw [haction]; rfl
  cases kill_spec segment hshows command with
  | idle heq =>
    rw [heq]
    exact ⟨before, after, entry, hshows, hring, haction, hwhole⟩
  | backward before' killed htext hshows' hring' haction' =>
    rw [hring, hkill, push_concat] at hring'
    refine ⟨before', after, killed ++ entry, hshows', hring', haction', ?_⟩
    rw [← hwhole, htext]
    simp
  | forward after' killed htext hshows' hring' haction' =>
    rw [hring, hkill, push_concat] at hring'
    refine ⟨before, after', entry ++ killed, hshows', hring', haction', ?_⟩
    rw [← hwhole, htext]
    simp

/-- A run of kills goes on collecting. -/
theorem Killed.run (segment : Units → List WordSegment) (h : Killed old whole e)
    (commands : List KillCommand) :
    Killed old whole (commands.foldl (Editor.kill segment) e) := by
  induction commands generalizing e with
  | nil => exact h
  | cons command commands ih => exact ih (h.kill segment command)

/-- The first kill that takes something starts an entry. -/
theorem killed_of_push (segment : Units → List WordSegment) (h : e.Shows before after)
    (hfirst : e.killRing = [] ∨ e.lastAction ≠ some .kill) (command : KillCommand)
    (hdeletes : (e.kill segment command).getText ≠ e.getText) :
    Killed e.killRing e.getText (e.kill segment command) := by
  have hpush : ∀ (killed : Units) (atFront : Bool), killed ≠ [] →
      e.killRing.push killed atFront (e.lastAction == some .kill) = e.killRing ++ [killed] := by
    intro killed atFront hne
    unfold KillRing.push
    rw [if_neg hne]
    rcases hfirst with hnil | haction
    · rw [hnil]
      cases e.lastAction == some .kill <;> rfl
    · rw [beq_eq_false_iff_ne.2 haction]
  rw [h.getText_eq] at hdeletes ⊢
  cases kill_spec segment h command with
  | idle heq => exact absurd (by rw [heq, h.getText_eq]) hdeletes
  | backward before' killed htext hshows' hring' haction' =>
    have hne : killed ≠ [] := by
      rintro rfl
      exact hdeletes (by rw [hshows'.getText_eq, htext, append_nil])
    exact ⟨before', after, killed, hshows', by rw [hring', hpush _ _ hne], haction', by rw [htext]⟩
  | forward after' killed htext hshows' hring' haction' =>
    have hne : killed ≠ [] := by
      rintro rfl
      exact hdeletes (by rw [hshows'.getText_eq, htext, nil_append])
    exact ⟨before, after', killed, hshows', by rw [hring', hpush _ _ hne], haction',
      by rw [htext, append_assoc]⟩

/-- The yank after a run of kills. -/
theorem Killed.yank (h : Killed old whole e) :
    e.yank.getText = whole := by
  obtain ⟨before, after, entry, ⟨above, left, right, below, hat, rfl, rfl⟩, hring, -, hwhole⟩ := h
  rw [Editor.yank, hring, getLast?_concat]
  show (e.insertYankedText entry).getText = whole
  rw [(hat.shows_insert entry).getText_eq, hwhole]

/-- With an empty kill ring, a run of kills takes nothing or starts an entry. -/
theorem run_of_empty (segment : Units → List WordSegment) (h : e.Shows before after)
    (hempty : e.killRing = []) (commands : List KillCommand) :
    (commands.foldl (Editor.kill segment) e).yank.getText = e.getText := by
  induction commands generalizing e before after with
  | nil =>
    rw [foldl_nil, Editor.yank, hempty]
    rfl
  | cons command commands ih =>
    by_cases hdeletes : (e.kill segment command).getText = e.getText
    · have hstays : (e.kill segment command).killRing = [] ∧
          ∃ before' after', (e.kill segment command).Shows before' after' := by
        cases kill_spec segment h command with
        | idle heq =>
          rw [heq]
          exact ⟨hempty, before, after, h⟩
        | backward before' killed htext hshows' hring' haction' =>
          rw [hshows'.getText_eq, h.getText_eq, htext, append_assoc] at hdeletes
          have hnil : killed = [] := by simpa using hdeletes
          exact ⟨by rw [hring', hnil, hempty]; rfl, before', after, hshows'⟩
        | forward after' killed htext hshows' hring' haction' =>
          rw [hshows'.getText_eq, h.getText_eq, htext] at hdeletes
          have hnil : killed = [] := by simpa using hdeletes
          exact ⟨by rw [hring', hnil, hempty]; rfl, before, after', hshows'⟩
      obtain ⟨hring, before', after', hshows'⟩ := hstays
      rw [foldl_cons, ih hshows' hring, hdeletes]
    · exact ((killed_of_push segment h (.inl hempty) command hdeletes).run segment commands).yank

/-! ## Runs of pops -/

/-- An entry of the ring has just been yanked at a place. -/
def Yanked (above : List Units) (left right : Units) (below : List Units) (ring : KillRing)
    (e' : Editor) : Prop :=
  ∃ (e : Editor) (text : Units), e.At above left right below ∧ e.killRing = ring ∧
    e.lastAction = some .yank ∧ ring.getLast? = some text ∧ e' = e.insertYankedText text

theorem insertYankedText_lastAction (e : Editor) (text : Units) (action : Option LastAction) :
    { e.insertYankedText text with lastAction := action } =
      { e with lastAction := action }.insertYankedText text := by
  unfold insertYankedText
  dsimp only [lineAt]
  split_ifs <;> rfl

theorem lastAction_insertYankedText (e : Editor) (text : Units) :
    (e.insertYankedText text).lastAction = e.lastAction := by
  unfold insertYankedText
  dsimp only
  split_ifs <;> rfl

theorem deleteYankedText_killRing (e : Editor) : e.deleteYankedText.killRing = e.killRing := by
  unfold deleteYankedText
  split
  · rfl
  · dsimp only
    split_ifs <;> rfl

include h in
/-- A yank inserts the last entry. -/
theorem At.yank (hring : e.killRing ≠ []) :
    Yanked above left right below e.killRing e.yank := by
  obtain ⟨earlier, last, heq⟩ := (eq_nil_or_concat' e.killRing).resolve_left hring
  have hlast : e.killRing.getLast? = some last := by rw [heq, getLast?_concat]
  refine ⟨{ e with lastAction := some .yank }, last, ⟨h.lines, h.cursorLine, h.cursorCol⟩, rfl, rfl,
    hlast, ?_⟩
  rw [← insertYankedText_lastAction, Editor.yank, hlast]

theorem reverse_rotate (ring : KillRing) : ring.rotate.reverse = ring.reverse.rotate 1 := by
  unfold KillRing.rotate
  rcases eq_nil_or_concat' ring with rfl | ⟨earlier, last, rfl⟩
  · rfl
  · rw [getLast?_concat, dropLast_concat, reverse_concat, rotate_cons_succ,
      rotate_zero]
    dsimp only
    split_ifs with hmany
    · exact reverse_cons
    · obtain rfl : earlier = [] := by
        rw [length_append, length_singleton] at hmany
        exact length_eq_zero_iff.1 (by omega)
      rfl

variable {ring : KillRing} {e' : Editor}

/-- A pop replaces the yanked text by the entry before it. -/
theorem Yanked.pop (h : Yanked above left right below ring e') :
    Yanked above left right below ring.rotate e'.yankPop := by
  obtain ⟨e, text, hat, rfl, haction, hlast, rfl⟩ := h
  have haction' := lastAction_insertYankedText e text
  have hring := insertYankedText_killRing e text
  unfold yankPop
  dsimp only
  rw [haction', haction, hring]
  split_ifs with hfew
  · have hone : e.killRing.rotate = e.killRing := by
      unfold KillRing.rotate
      rw [hlast]
      dsimp only
      rw [if_neg (by simpa using hfew)]
    rw [hone]
    exact ⟨e, text, hat, rfl, haction, hlast, rfl⟩
  · have hdeleted := hat.delete_insert hlast
    have hring' : (e.insertYankedText text).deleteYankedText.killRing.rotate =
        e.killRing.rotate := by rw [deleteYankedText_killRing, hring]
    have hne : e.killRing.rotate ≠ [] := by
      intro hnil
      have hreverse := congrArg List.length (reverse_rotate e.killRing)
      rw [hnil, length_rotate, length_reverse] at hreverse
      simp at hreverse
      simp [← hreverse] at hfew
    rw [← hring'] at hne ⊢
    have hrotated : { (e.insertYankedText text).deleteYankedText with
        killRing := (e.insertYankedText text).deleteYankedText.killRing.rotate }.At
          above left right below := ⟨hdeleted.lines, hdeleted.cursorLine, hdeleted.cursorCol⟩
    exact hrotated.yank hne

/-- A run of pops. -/
theorem Yanked.pops (h : Yanked above left right below ring e') (k : Nat) :
    Yanked above left right below (KillRing.rotate^[k] ring) (yankPop^[k] e') := by
  induction k with
  | zero => exact h
  | succ k ih =>
    rw [Function.iterate_succ_apply', Function.iterate_succ_apply']
    exact ih.pop

theorem reverse_rotates (ring : KillRing) (k : Nat) :
    (KillRing.rotate^[k] ring).reverse = ring.reverse.rotate k := by
  induction k with
  | zero => rw [rotate_zero]; rfl
  | succ k ih => rw [Function.iterate_succ_apply', reverse_rotate, ih, rotate_rotate]

/-- The text after a run of pops. -/
theorem Yanked.getText_pops (h : Yanked above left right below ring e') (k : Nat) :
    ∃ entry, ring.reverse[k % ring.length]? = some entry ∧ (yankPop^[k] e').getText =
      joinUnits (above ++ [left]) ++ entry ++ joinUnits (right :: below) := by
  have hlength : 0 < ring.length := by
    obtain ⟨e, text, -, -, -, hlast, -⟩ := h
    exact length_pos_of_mem (mem_of_getLast? hlast)
  obtain ⟨e, text, hat, -, -, hlast, heq⟩ := h.pops k
  refine ⟨text, ?_, ?_⟩
  · rw [← head?_reverse, reverse_rotates, ← rotate_mod, length_reverse,
      head?_rotate (by rw [length_reverse]; exact Nat.mod_lt _ hlength)] at hlast
    exact hlast
  · rw [heq, (hat.shows_insert text).getText_eq]

/-- The first kill of the run that does anything takes some text, and none came before the run; or
the kill ring is empty. -/
def StartsEntry (segment : Units → List WordSegment) (e : Editor) (commands : List KillCommand) :
    Prop :=
  e.killRing = [] ∨ e.lastAction ≠ some .kill ∧ ∃ idle command later,
    commands = idle ++ command :: later ∧ (∀ c ∈ idle, e.kill segment c = e) ∧
    (e.kill segment command).getText ≠ e.getText

/-- **A yank gives back what a run of kills has taken, if that is an entry of its own; and pops
after a yank go through the older entries, at the place of the cursor.** -/
theorem kill_yank_restores (segment : Units → List WordSegment) (h : e.InBounds) :
    (∀ commands, StartsEntry segment e commands →
      (commands.foldl (Editor.kill segment) e).yank.getText = e.getText) ∧
    (e.killRing ≠ [] → ∀ k, ∃ entry, e.killRing.reverse[k % e.killRing.length]? = some entry ∧
      (yankPop^[k] e.yank).getText = e.beforeCursor ++ entry ++ e.afterCursor) := by
  refine ⟨?_, fun hring k => (h.cursor.yank hring).getText_pops k⟩
  rintro commands (hempty | ⟨hfirst, idle, command, later, rfl, hidle, hdeletes⟩)
  · exact run_of_empty segment h.cursor.shows hempty commands
  · have hskip : idle.foldl (Editor.kill segment) e = e := by
      induction idle with
      | nil => rfl
      | cons c idle ih =>
        rw [foldl_cons, hidle c mem_cons_self]
        exact ih fun c hc => hidle c (mem_cons_of_mem _ hc)
    rw [foldl_append, hskip, foldl_cons]
    have hkilled := killed_of_push segment h.cursor.shows (.inr hfirst) command hdeletes
    exact (hkilled.run segment later).yank

/-- Words and the blanks between them. -/
def blankSegments (text : Units) : List WordSegment :=
  (text.splitBy fun a b => isSpaceUnit a == isSpaceUnit b).map fun run =>
    ⟨run, !isWhitespaceChar run⟩

/-- Three lines, the cursor behind the first word, and two entries in the ring. -/
def threeLines : Editor :=
  ⟨[asciiUnits "one two three", [], asciiUnits "four"], 0, 3,
    [asciiUnits "x\ny", asciiUnits "last"], some .typeWord⟩

/-- A word and the rest of the line, the newline behind it and the next one are taken forward, and
then the word before the cursor. -/
def killsAround : List KillCommand :=
  [.deleteWordForward, .deleteToLineEnd, .deleteToLineEnd, .deleteToLineEnd, .deleteWordBackward]

/-- Kills in both directions over three lines start an entry of their own, which the yank gives
back; one pop after a yank inserts the older entry, which has two lines, and two pops insert the
newest one again. -/
theorem kill_yank_restores_threeLines :
    StartsEntry blankSegments threeLines killsAround ∧
    (killsAround.foldl (Editor.kill blankSegments) threeLines).lines = [asciiUnits "four"] ∧
    (killsAround.foldl (Editor.kill blankSegments) threeLines).killRing =
      [asciiUnits "x\ny", asciiUnits "last", asciiUnits "one two three\n\n"] ∧
    (killsAround.foldl (Editor.kill blankSegments) threeLines).yank.getText =
      asciiUnits "one two three\n\nfour" ∧
    (yankPop^[1] threeLines.yank).getText = asciiUnits "onex\ny two three\n\nfour" ∧
    (yankPop^[2] threeLines.yank).getText = asciiUnits "onelast two three\n\nfour" := by
  have hstarts : StartsEntry blankSegments threeLines killsAround := by
    refine .inr ⟨by decide, [], .deleteWordForward, _, rfl, fun c hc => absurd hc not_mem_nil, ?_⟩
    decide +kernel
  obtain ⟨hkills, hpops⟩ := kill_yank_restores (e := threeLines) blankSegments
    ⟨by decide, by decide +kernel⟩
  have hpop : ∀ k, ∀ entry,
      threeLines.killRing.reverse[k % threeLines.killRing.length]? = some entry →
        (yankPop^[k] threeLines.yank).getText =
          threeLines.beforeCursor ++ entry ++ threeLines.afterCursor := by
    intro k entry hentry
    obtain ⟨entry', hentry', htext⟩ := hpops (by decide) k
    rw [htext, Option.some.inj (hentry.symm.trans hentry')]
  refine ⟨hstarts, by decide +kernel, by decide +kernel, ?_, ?_, ?_⟩
  · rw [hkills killsAround hstarts]
    decide +kernel
  · rw [hpop 1 (asciiUnits "x\ny") rfl]
    decide +kernel
  · rw [hpop 2 (asciiUnits "last") rfl]
    decide +kernel

/-- In an empty editor a kill takes nothing, and the yank behind it inserts an older entry. -/
theorem idle_kill_yanks_older :
    ([KillCommand.deleteToLineEnd].foldl (Editor.kill fun text => [⟨text, true⟩])
        ⟨[[]], 0, 0, [[120]], none⟩).yank.getText = [120] ∧
      Editor.getText ⟨[[]], 0, 0, [[120]], none⟩ = [] := by
  decide

end Editor

end BeauPi.Tui
