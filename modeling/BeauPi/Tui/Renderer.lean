import BeauPi.Js.Text
import BeauPi.Tui.Ansi
import BeauPi.Tui.Terminal

/-!
# The differential renderer

`doRender` of `tui.ts` on a terminal of constant size, for lines without image sequences, without
overlays and without a forced redraw.

* `extractCursorPosition` — the cursor marker is found and taken out.
* `TUI.fullRender` — the active viewport is drawn anew.
* `TUI.eraseDeleted`, `TUI.drawChanged` — only what has changed is drawn.
* `TUI.doRender` — which of them is used.
-/

namespace BeauPi.Tui

open Ansi (segmentReset)

/-! ## Lines -/

/-- `CURSOR_MARKER` -/
def cursorMarker : List Char := "\x1b_pi:c\x07".toList

/-- The text before and after the first cursor marker. -/
def splitAtMarker : List Char → Option (List Char × List Char)
  | [] => none
  | c :: cs =>
    if Js.startsWith cursorMarker (c :: cs) then some ([], (c :: cs).drop cursorMarker.length)
    else (splitAtMarker cs).map fun p => (c :: p.1, p.2)

/-- `extractCursorPosition`: from the last line up to the first one of the bottom rows, the first
line with a marker. -/
def extractCursorPosition (T : Terminal String) (lines : List String) :
    Option (Nat × Nat) × List String :=
  let viewportTop := lines.length - T.height
  let found := (List.range' viewportTop (lines.length - viewportTop)).reverse.findSome? fun row =>
    (splitAtMarker (lines.getD row "").toList).map fun parts => (row, parts)
  match found with
  | none => (none, lines)
  | some (row, before, after) =>
    (some (row, T.visibleWidth (String.ofList before)),
      lines.set row (String.ofList (before ++ after)))

/-- `applyLineResets`, with `normalizeTerminalOutput` for a line. -/
def applyLineResets (normalize : String → String) (lines : List String) : List String :=
  lines.map fun line => normalize line ++ segmentReset

/-- The line at an index, or the empty text. -/
def lineAt (lines : List String) (i : Nat) : String := lines.getD i ""

/-- Is the line at an index different? -/
def differs (old new : List String) (i : Nat) : Bool := lineAt old i ≠ lineAt new i

/-! ## The state -/

/-- What `doRender` remembers. -/
structure TUI where
  previousLines : List String
  /-- `hardwareCursorRow`: the line that the terminal cursor is on. -/
  hardwareCursorRow : Nat
  maxLinesRendered : Nat
  previousViewportTop : Nat
  deriving DecidableEq, Repr

/-- Nothing has been rendered. -/
def TUI.fresh : TUI := ⟨[], 0, 0, 0⟩

/-- What a rendering leaves and writes. -/
abbrev Rendered := TUI × List (Command String)

/-- `positionHardwareCursor` -/
def TUI.positionHardwareCursor (t : TUI) (cursorPos : Option (Nat × Nat)) (totalLines : Nat) :
    Rendered :=
  match cursorPos with
  | none => (t, [])
  | some (row, col) =>
    if totalLines = 0 then (t, [])
    else
      let targetRow := min row (totalLines - 1)
      ({ t with hardwareCursorRow := targetRow },
        moveBy ((targetRow : Int) - t.hardwareCursorRow) ++ [.column col])

/-- Positions the cursor after something was written. -/
def TUI.thenPosition (t : TUI) (written : List (Command String)) (cursorPos : Option (Nat × Nat))
    (newLines : List String) : Rendered :=
  let (t, moved) := t.positionHardwareCursor cursorPos newLines.length
  ({ t with previousLines := newLines }, written ++ moved)

/-! ## Drawing everything -/

/-- The modes of `fullRender` that the renderer chooses by itself. -/
inductive FullRenderMode
  | initial
  | viewport
  deriving DecidableEq, Repr

/-- `fullRender` -/
def TUI.fullRender (T : Terminal String) (t : TUI) (mode : FullRenderMode)
    (cursorPos : Option (Nat × Nat)) (newLines : List String) : Rendered :=
  let viewportTop := newLines.length - T.height
  let written := match mode with
    | .viewport => clearRows T.height ++ printRows (newLines.drop viewportTop)
    | .initial => printLines false newLines
  let maxLinesRendered := match mode with
    | .initial => max t.maxLinesRendered newLines.length
    | .viewport => newLines.length
  TUI.thenPosition
    { t with
      hardwareCursorRow := newLines.length - 1
      maxLinesRendered := maxLinesRendered
      previousViewportTop := viewportTop }
    written cursorPos newLines

/-! ## Drawing changes -/

/-- The lines behind the new ones are deleted. -/
def TUI.eraseDeleted (T : Terminal String) (t : TUI) (cursorPos : Option (Nat × Nat))
    (newLines : List String) : Rendered :=
  let old := t.previousLines
  if newLines.length < old.length then
    let targetRow := newLines.length - 1
    let extraLines := old.length - newLines.length
    if targetRow < t.previousViewportTop then t.fullRender T .viewport cursorPos newLines
    else if T.height < extraLines then t.fullRender T .viewport cursorPos newLines
    else
      let lineDiff := (targetRow : Int) - t.hardwareCursorRow
      let clearStartOffset := if newLines.length = 0 then 0 else 1
      let moveBack := extraLines - 1 + clearStartOffset
      TUI.thenPosition { t with hardwareCursorRow := targetRow }
        (moveBy lineDiff ++ [.carriageReturn] ++ moveBy clearStartOffset ++
          eraseDown extraLines ++ moveBy (-moveBack)) cursorPos newLines
  else TUI.thenPosition t [] cursorPos newLines

/-- The lines from `firstChanged` to `lastChanged` are drawn; `none` if one of them is wider than
the terminal. -/
def TUI.drawChanged (T : Terminal String) (t : TUI) (firstChanged lastChanged : Nat)
    (appendStart : Bool) (cursorPos : Option (Nat × Nat)) (newLines : List String) :
    Option Rendered :=
  let old := t.previousLines
  let prevViewportBottom := t.previousViewportTop + T.height - 1
  let moveTargetRow := if appendStart then firstChanged - 1 else firstChanged
  let scroll := moveTargetRow - prevViewportBottom
  let currentScreenRow := min (T.height - 1) (t.hardwareCursorRow - t.previousViewportTop)
  let scrolled := if scroll = 0 then []
    else moveBy ((T.height - 1 : Nat) - (currentScreenRow : Int)) ++
      List.replicate scroll Command.newline
  let viewportTop := t.previousViewportTop + scroll
  let hardwareCursorRow := if scroll = 0 then t.hardwareCursorRow else moveTargetRow
  let start := moveBy ((moveTargetRow : Int) - hardwareCursorRow) ++
    [if appendStart then .newline else .carriageReturn]
  let renderEnd := min lastChanged (newLines.length - 1)
  let changed := (newLines.drop firstChanged).take (renderEnd + 1 - firstChanged)
  if changed.all fun line => T.visibleWidth line ≤ T.width then
    let shrinks := newLines.length < old.length
    let extraLines := old.length - newLines.length
    let finalCursorRow := if shrinks then newLines.length - 1 else renderEnd
    let cleared := if shrinks then
        moveBy ((newLines.length - 1 : Nat) - (renderEnd : Int)) ++ eraseBelow extraLines ++
          moveBy (-extraLines)
      else []
    some (TUI.thenPosition
      { t with
        hardwareCursorRow := finalCursorRow
        maxLinesRendered := max t.maxLinesRendered newLines.length
        previousViewportTop := max viewportTop (finalCursorRow + 1 - T.height) }
      (scrolled ++ start ++ printLines true changed ++ cleared) cursorPos newLines)
  else none

/-! ## The renderer -/

/-- What has changed. -/
inductive Change
  | nothing
  /-- Only lines above the viewport. -/
  | offscreenOnly
  /-- The first and the last line, and whether lines are only appended. -/
  | range (first last : Nat) (appendStart : Bool)
  deriving DecidableEq, Repr

/-- The first line in a range that differs. -/
def firstDiff (old new : List String) (start stop : Nat) : Option Nat :=
  (List.range' start (stop - start)).find? (differs old new)

/-- The range of lines that differ, appended lines included. -/
def changedRange (old new : List String) : Option (Nat × Nat) :=
  let maxLines := max new.length old.length
  let firstChanged := firstDiff old new 0 maxLines
  if old.length < new.length then some (firstChanged.getD old.length, new.length - 1)
  else firstChanged.map fun first =>
    (first, ((List.range maxLines).reverse.find? (differs old new)).getD first)

/-- The change that is drawn: lines above the viewport are left out where nothing else must move. -/
def TUI.visibleChange (t : TUI) (new : List String) : Change :=
  let old := t.previousLines
  let appended := old.length < new.length
  let top := t.previousViewportTop
  match changedRange old new with
  | none => .nothing
  | some (first, last) =>
    let stable := new.length < old.length → firstDiff old new top new.length = none
    if first < top ∧ top ≤ new.length - 1 ∧ stable then
      match firstDiff old new top (max new.length old.length) with
      | none => if appended then .range old.length last (0 < old.length) else .offscreenOnly
      | some first => .range first last (appended ∧ first = old.length ∧ 0 < first)
    else .range first last (appended ∧ first = old.length ∧ 0 < first)

/-- `doRender` of the lines that `render` gives; `none` if it throws. -/
def TUI.doRender (T : Terminal String) (normalize : String → String) (clearOnShrink : Bool) (t : TUI)
    (lines : List String) : Option Rendered :=
  let (cursorPos, lines) := extractCursorPosition T lines
  let newLines := applyLineResets normalize lines
  if t.previousLines = [] then some (t.fullRender T .initial cursorPos newLines)
  else if clearOnShrink ∧ newLines.length < t.maxLinesRendered then
    some (t.fullRender T .viewport cursorPos newLines)
  else
    match t.visibleChange newLines with
    | .nothing => some (t.positionHardwareCursor cursorPos newLines.length)
    | .offscreenOnly => some (t.thenPosition [] cursorPos newLines)
    | .range first last appendStart =>
      if newLines.length ≤ first then some (t.eraseDeleted T cursorPos newLines)
      else if first < t.previousViewportTop then
        some (t.fullRender T .viewport cursorPos newLines)
      else t.drawChanged T first last appendStart cursorPos newLines

end BeauPi.Tui
