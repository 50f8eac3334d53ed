import Mathlib.Logic.Function.Basic
import Mathlib.Data.List.Induction

/-!
# A terminal

A screen with a cursor, as a program changes it that prints whole lines and moves the cursor.

* `Screen.exec` — what one control sequence does; moves are clamped to the screen, and a newline
  on the last row scrolls.
* `At` — the screen as a window on an endless sheet, with the cursor on one of its lines.
* `At.printLines`, `At.eraseDown`, `At.eraseBelow`, `At.repaint` — what a loop that prints or
  clears lines does to the sheet.
-/

namespace BeauPi.Tui

open List
open Function (update_idem update_of_ne update_self)

variable {α : Type}

/-! ## Screens -/

/-- What was printed on a row since it was cleared, each text with its column. -/
abbrev Row (α : Type) := List (Nat × α)

/-- The rows of a screen from the top, and the cursor. -/
structure Screen (α : Type) where
  rows : Nat → Row α
  row : Nat
  col : Nat

/-- A clean screen with the cursor at the top. -/
def Screen.clean : Screen α := ⟨fun _ => [], 0, 0⟩

/-- What is written to a terminal.  Rows and columns count from zero. -/
inductive Command (α : Type)
  | print (text : α)
  /-- `\r\n` -/
  | newline
  /-- `\r` -/
  | carriageReturn
  /-- `CSI 2K` -/
  | clearLine
  /-- `CSI n A` -/
  | up (n : Nat)
  /-- `CSI n B` -/
  | down (n : Nat)
  /-- `CSI n G` -/
  | column (n : Nat)
  /-- `CSI n;m H` -/
  | moveTo (row col : Nat)
  deriving DecidableEq, Repr

/-- The size of a terminal, and the columns that a text takes. -/
structure Terminal (α : Type) where
  height : Nat
  width : Nat
  visibleWidth : α → Nat

/-- The effect of a command.  A text no wider than the rest of its row does not wrap. -/
def Screen.exec (T : Terminal α) (s : Screen α) : Command α → Screen α
  | .print text =>
    { s with
      rows := Function.update s.rows s.row (s.rows s.row ++ [(s.col, text)])
      col := min (s.col + T.visibleWidth text) (T.width - 1) }
  | .newline =>
    if s.row + 1 < T.height then { s with row := s.row + 1, col := 0 }
    else ⟨fun r => if r + 1 < T.height then s.rows (r + 1) else [], s.row, 0⟩
  | .carriageReturn => { s with col := 0 }
  | .clearLine => { s with rows := Function.update s.rows s.row [] }
  | .up n => { s with row := s.row - max n 1 }
  | .down n => { s with row := min (s.row + max n 1) (T.height - 1) }
  | .column n => { s with col := min n (T.width - 1) }
  | .moveTo row col => { s with row := min row (T.height - 1), col := min col (T.width - 1) }

/-- The effect of some commands in a row. -/
def Screen.run (T : Terminal α) (s : Screen α) (commands : List (Command α)) : Screen α :=
  commands.foldl (Screen.exec T) s

section Run

variable (T : Terminal α) (s : Screen α)

@[simp] theorem Screen.run_nil : s.run T [] = s := rfl

@[simp] theorem Screen.run_cons (c : Command α) (commands : List (Command α)) :
    s.run T (c :: commands) = (s.exec T c).run T commands := rfl

@[simp] theorem Screen.run_append (commands commands' : List (Command α)) :
    s.run T (commands ++ commands') = (s.run T commands).run T commands' :=
  foldl_append

end Run

/-! ## A window on a sheet -/

/-- The screen shows the sheet from the line `top` on, and the cursor is on the line `line`. -/
structure At (T : Terminal α) (sheet : Nat → Row α) (top line : Nat) (s : Screen α) : Prop where
  shows : ∀ r < T.height, s.rows r = sheet (top + r)
  cursor : top + s.row = line
  inside : s.row < T.height

section At

variable {T : Terminal α} {sheet sheet' : Nat → Row α} {top line : Nat} {s : Screen α}

theorem At.bounds (h : At T sheet top line s) : top ≤ line ∧ line < top + T.height := by
  have hcursor := h.cursor
  have hinside := h.inside
  omega

/-- Only the lines in the window count. -/
theorem At.congr (h : At T sheet top line s)
    (hsame : ∀ i, top ≤ i → i < top + T.height → sheet i = sheet' i) :
    At T sheet' top line s where
  shows := by
    intro r hr
    rw [h.shows r hr]
    exact hsame _ (Nat.le_add_right _ _) (by omega)
  cursor := h.cursor
  inside := h.inside

/-- Moves along the row change nothing. -/
theorem At.carriageReturn (h : At T sheet top line s) :
    At T sheet top line (s.exec T .carriageReturn) := ⟨h.shows, h.cursor, h.inside⟩

theorem At.column (h : At T sheet top line s) (n : Nat) :
    At T sheet top line (s.exec T (.column n)) := ⟨h.shows, h.cursor, h.inside⟩

theorem At.up (h : At T sheet top line s) {n : Nat} (hn : 0 < n) (htop : top + n ≤ line) :
    At T sheet top (line - n) (s.exec T (.up n)) := by
  have hcursor := h.cursor
  have hinside := h.inside
  refine ⟨h.shows, ?_, ?_⟩
  · change top + (s.row - max n 1) = line - n
    omega
  · change s.row - max n 1 < T.height
    omega

theorem At.down (h : At T sheet top line s) {n : Nat} (hn : 0 < n)
    (hbottom : line + n < top + T.height) :
    At T sheet top (line + n) (s.exec T (.down n)) := by
  have hcursor := h.cursor
  refine ⟨h.shows, ?_, ?_⟩
  · change top + min (s.row + max n 1) (T.height - 1) = line + n
    omega
  · change min (s.row + max n 1) (T.height - 1) < T.height
    omega

/-- A newline goes to the next line; if it scrolls, that line must be blank. -/
theorem At.newline (h : At T sheet top line s)
    (hblank : line + 1 = top + T.height → sheet (line + 1) = []) :
    At T sheet (max top (line + 2 - T.height)) (line + 1) (s.exec T .newline) ∧
      (s.exec T .newline).col = 0 := by
  have hcursor := h.cursor
  have hinside := h.inside
  unfold Screen.exec
  dsimp only
  split
  · next hroom =>
    have htop : max top (line + 2 - T.height) = top := by omega
    rw [htop]
    exact ⟨⟨h.shows, by dsimp only; omega, hroom⟩, rfl⟩
  · next hlast =>
    have htop : max top (line + 2 - T.height) = top + 1 := by omega
    rw [htop]
    refine ⟨⟨?_, by dsimp only; omega, hinside⟩, rfl⟩
    intro r hr
    dsimp only
    split
    · next hroom =>
      rw [h.shows (r + 1) hroom]
      congr 1
      omega
    · have hline : top + 1 + r = line + 1 := by omega
      rw [hline, hblank (by omega)]

/-- The line of the cursor is cleared. -/
theorem At.clearLine (h : At T sheet top line s) :
    At T (Function.update sheet line []) top line (s.exec T .clearLine) := by
  have hcursor := h.cursor
  refine ⟨?_, h.cursor, h.inside⟩
  intro r hr
  change Function.update s.rows s.row [] r = _
  by_cases hrow : r = s.row
  · rw [hrow, hcursor, update_self, update_self]
  · rw [update_of_ne hrow, update_of_ne (by omega), h.shows r hr]

/-- A text is printed on a blank line. -/
theorem At.print (h : At T sheet top line s) (hcol : s.col = 0) (hblank : sheet line = [])
    (text : α) :
    At T (Function.update sheet line [(0, text)]) top line (s.exec T (.print text)) := by
  have hcursor := h.cursor
  refine ⟨?_, h.cursor, h.inside⟩
  intro r hr
  change Function.update s.rows s.row (s.rows s.row ++ [(s.col, text)]) r = _
  by_cases hrow : r = s.row
  · rw [hrow, hcursor, update_self, update_self, h.shows s.row h.inside, hcursor,
      hblank, hcol]
    rfl
  · rw [update_of_ne hrow, update_of_ne (by omega), h.shows r hr]

end At

/-! ## Printing and clearing many lines -/

/-- The sheet of some lines, each printed at the start of its line. -/
def sheetOf (lines : List α) (i : Nat) : Row α :=
  match lines[i]? with
  | some text => [(0, text)]
  | none => []

/-- Texts on the lines below the cursor, which are cleared first or not. -/
def printBelow (clear : Bool) (texts : List α) : List (Command α) :=
  texts.flatMap fun text =>
    if clear then [.newline, .clearLine, .print text] else [.newline, .print text]

/-- Texts below each other, from the line of the cursor on. -/
def printLines (clear : Bool) : List α → List (Command α)
  | [] => []
  | text :: texts =>
    (if clear then [.clearLine, .print text] else [.print text]) ++ printBelow clear texts

/-- A relative move of the cursor. -/
def moveBy (rows : Int) : List (Command α) :=
  if rows > 0 then [.down rows.toNat] else if rows < 0 then [.up (-rows).toNat] else []

/-- Some lines are cleared, from that of the cursor on. -/
def eraseDown : Nat → List (Command α)
  | 0 => []
  | n + 1 => [.carriageReturn, .clearLine] ++ if n = 0 then [] else .down 1 :: eraseDown n

/-- Some lines below that of the cursor are cleared. -/
def eraseBelow : Nat → List (Command α)
  | 0 => []
  | n + 1 => .newline :: .clearLine :: eraseBelow n

/-- Every row is cleared. -/
def clearRows (height : Nat) : List (Command α) :=
  (List.range height).flatMap fun row => [.moveTo row 0, .clearLine]

/-- Texts on the rows from the top. -/
def printRows (texts : List α) : List (Command α) :=
  texts.zipIdx.flatMap fun p => [.moveTo p.2 0, .print p.1]

section Loops

variable {T : Terminal α} {sheet : Nat → Row α} {top line : Nat} {s : Screen α}

/-- A text on the next line. -/
theorem At.printNext (h : At T sheet top line s) (hblank : ∀ i, top + T.height ≤ i → sheet i = [])
    {clear : Bool} (hfree : clear = false → sheet (line + 1) = []) (text : α) :
    At T (Function.update sheet (line + 1) [(0, text)]) (max top (line + 2 - T.height)) (line + 1)
      (s.run T (if clear then [.newline, .clearLine, .print text] else [.newline, .print text])) := by
  obtain ⟨hnext, hcol⟩ := h.newline fun hlast => hblank _ (Nat.le_of_eq hlast.symm)
  cases clear with
  | false => exact hnext.print hcol (hfree rfl) text
  | true =>
    have hprinted := hnext.clearLine.print hcol (update_self _ _ _) text
    rw [update_idem] at hprinted
    exact hprinted

/-- Texts on the lines below the cursor; the window moves down as far as they need. -/
theorem At.below (h : At T sheet top line s) (hblank : ∀ i, top + T.height ≤ i → sheet i = [])
    {clear : Bool} (hfree : clear = false → ∀ i, line < i → sheet i = []) (texts : List α) :
    ∃ sheet', At T sheet' (max top (line + texts.length + 1 - T.height)) (line + texts.length)
        (s.run T (printBelow clear texts)) ∧
      (∀ i, i ≤ line ∨ line + texts.length < i → sheet' i = sheet i) ∧
      ∀ i text, texts[i]? = some text → sheet' (line + 1 + i) = [(0, text)] := by
  induction texts generalizing s sheet top line with
  | nil =>
    have htop : max top (line + 0 + 1 - T.height) = top := by
      have := h.bounds
      omega
    exact ⟨sheet, by rw [length_nil, htop]; exact h, fun _ _ => rfl, by simp⟩
  | cons text texts ih =>
    have hnext := h.printNext hblank (fun hclear => hfree hclear _ (Nat.lt_succ_self _)) text
    have hbounds := hnext.bounds
    obtain ⟨sheet', hat, hothers, hprinted⟩ := ih hnext
      (fun i hi => by rw [update_of_ne (by omega), hblank i (by omega)])
      (fun hclear i hi => by rw [update_of_ne (by omega), hfree hclear i (by omega)])
    refine ⟨sheet', ?_, ?_, ?_⟩
    · have htop : max (max top (line + 2 - T.height)) (line + 1 + texts.length + 1 - T.height) =
          max top (line + (text :: texts).length + 1 - T.height) := by
        rw [length_cons]
        omega
      have hline : line + 1 + texts.length = line + (text :: texts).length := by
        rw [length_cons]
        omega
      rw [printBelow, flatMap_cons, Screen.run_append, ← htop, ← hline]
      exact hat
    · intro i hi
      rw [length_cons] at hi
      rw [hothers i (by omega), update_of_ne (by omega)]
    · intro i text' hget
      cases i with
      | zero =>
        cases hget
        rw [hothers _ (by omega)]
        exact update_self _ _ _
      | succ i =>
        have hshift : line + 1 + (i + 1) = line + 1 + 1 + i := by omega
        rw [hshift]
        exact hprinted i text' hget

/-- Texts from the line of the cursor on. -/
theorem At.printLines (h : At T sheet top line s) (hcol : s.col = 0)
    (hblank : ∀ i, top + T.height ≤ i → sheet i = []) {clear : Bool}
    (hfree : clear = false → ∀ i, line ≤ i → sheet i = []) {texts : List α} (htexts : texts ≠ []) :
    ∃ sheet', At T sheet' (max top (line + texts.length - T.height)) (line + texts.length - 1)
        (s.run T (printLines clear texts)) ∧
      (∀ i, i < line ∨ line + texts.length ≤ i → sheet' i = sheet i) ∧
      ∀ i text, texts[i]? = some text → sheet' (line + i) = [(0, text)] := by
  cases texts with
  | nil => exact absurd rfl htexts
  | cons text texts =>
    have hbounds := h.bounds
    have hfirst : At T (Function.update sheet line [(0, text)]) top line
        (s.run T (if clear then [.clearLine, .print text] else [.print text])) := by
      cases clear with
      | false => exact h.print hcol (hfree rfl line (Nat.le_refl _)) text
      | true =>
        have hprinted := h.clearLine.print hcol (update_self _ _ _) text
        rw [update_idem] at hprinted
        exact hprinted
    obtain ⟨sheet', hat, hothers, hprinted⟩ := hfirst.below
      (fun i hi => by rw [update_of_ne (by omega), hblank i hi])
      (fun hclear i hi => by rw [update_of_ne (by omega), hfree hclear i (by omega)]) texts
    refine ⟨sheet', ?_, ?_, ?_⟩
    · rw [Tui.printLines, Screen.run_append]
      exact hat
    · intro i hi
      rw [length_cons] at hi
      rw [hothers i (by omega), update_of_ne (by omega)]
    · intro i text' hget
      cases i with
      | zero =>
        cases hget
        rw [hothers _ (by omega)]
        exact update_self _ _ _
      | succ i =>
        have hshift : line + (i + 1) = line + 1 + i := by omega
        rw [hshift]
        exact hprinted i text' hget

/-- A move within the window. -/
theorem At.moveBy (h : At T sheet top line s) (rows : Int) (line' : Nat)
    (hline : (line' : Int) = line + rows) (htop : top ≤ line')
    (hbottom : line' < top + T.height) :
    At T sheet top line' (s.run T (moveBy rows)) := by
  unfold Tui.moveBy
  split
  · have hdown := @At.down _ _ _ _ _ _ h rows.toNat (by omega) (by omega)
    have heq : line + rows.toNat = line' := by omega
    rw [heq] at hdown
    exact hdown
  · split
    · have hup := @At.up _ _ _ _ _ _ h (-rows).toNat (by omega) (by omega)
      have heq : line - (-rows).toNat = line' := by omega
      rw [heq] at hup
      exact hup
    · obtain rfl : line' = line := by omega
      exact h

/-- A move keeps the column. -/
theorem run_moveBy_col (rows : Int) : (s.run T (moveBy rows)).col = s.col := by
  unfold Tui.moveBy
  split
  · rfl
  · split <;> rfl

/-- Lines of the window are cleared, from that of the cursor on. -/
theorem At.eraseDown (h : At T sheet top line s) {n : Nat} (hn : 0 < n)
    (hfit : line + n ≤ top + T.height) :
    ∃ sheet', At T sheet' top (line + n - 1) (s.run T (eraseDown n)) ∧
      (∀ i, line ≤ i → i < line + n → sheet' i = []) ∧
      ∀ i, i < line ∨ line + n ≤ i → sheet' i = sheet i := by
  induction n generalizing s sheet line with
  | zero => omega
  | succ n ih =>
    have hcleared := h.carriageReturn.clearLine
    by_cases hlast : n = 0
    · subst hlast
      refine ⟨_, hcleared, ?_, ?_⟩
      · intro i hi hlt
        obtain rfl : i = line := by omega
        exact update_self _ _ _
      · intro i hi
        exact update_of_ne (by omega) _ _
    · obtain ⟨sheet', hat, herased, hothers⟩ :=
        ih (hcleared.down Nat.one_pos (by omega)) (by omega) (by omega)
      refine ⟨sheet', ?_, ?_, ?_⟩
      · rw [Tui.eraseDown, if_neg hlast]
        have hline : line + 1 + n - 1 = line + (n + 1) - 1 := by omega
        rw [← hline]
        exact hat
      · intro i hi hlt
        by_cases hfirst : i = line
        · rw [hothers i (by omega), hfirst]
          exact update_self _ _ _
        · exact herased i (by omega) (by omega)
      · intro i hi
        rw [hothers i (by omega), update_of_ne (by omega)]

theorem run_eraseDown_col {n : Nat} (hn : 0 < n) : (s.run T (eraseDown n)).col = 0 := by
  induction n generalizing s with
  | zero => omega
  | succ n ih =>
    rw [Tui.eraseDown, Screen.run_append]
    by_cases hlast : n = 0
    · rw [if_pos hlast]
      rfl
    · rw [if_neg hlast]
      exact ih (by omega)

/-- Lines of the window below that of the cursor are cleared. -/
theorem At.eraseBelow (h : At T sheet top line s) {n : Nat} (hfit : line + n < top + T.height) :
    ∃ sheet', At T sheet' top (line + n) (s.run T (eraseBelow n)) ∧
      (∀ i, line < i → i ≤ line + n → sheet' i = []) ∧
      ∀ i, i ≤ line ∨ line + n < i → sheet' i = sheet i := by
  induction n generalizing s sheet line with
  | zero => exact ⟨sheet, h, fun i hi hlt => by omega, fun _ _ => rfl⟩
  | succ n ih =>
    obtain ⟨hnext, -⟩ := h.newline (by omega)
    have htop : max top (line + 2 - T.height) = top := by omega
    rw [htop] at hnext
    obtain ⟨sheet', hat, herased, hothers⟩ := ih hnext.clearLine (by omega)
    refine ⟨sheet', ?_, ?_, ?_⟩
    · have hline : line + 1 + n = line + (n + 1) := by omega
      rw [Tui.eraseBelow, ← hline]
      exact hat
    · intro i hi hle
      by_cases hfirst : i = line + 1
      · rw [hothers i (by omega), hfirst]
        exact update_self _ _ _
      · exact herased i (by omega) (by omega)
    · intro i hi
      rw [hothers i (by omega), update_of_ne (by omega)]

/-- Every row is blank, and the cursor is on the last one. -/
theorem run_clearRows (T : Terminal α) (s : Screen α) {n : Nat} (hn : 0 < n) (hle : n ≤ T.height) :
    (∀ r < n, (s.run T (clearRows n)).rows r = []) ∧ (s.run T (clearRows n)).row = n - 1 := by
  induction n with
  | zero => omega
  | succ n ih =>
    rw [clearRows, range_succ, flatMap_append, Screen.run_append]
    change (∀ r < n + 1, Function.update (s.run T (clearRows n)).rows (min n (T.height - 1)) []
      r = []) ∧ min n (T.height - 1) = n
    have hrow : min n (T.height - 1) = n := by omega
    rw [hrow]
    refine ⟨?_, rfl⟩
    intro r hr
    by_cases hlast : r = n
    · rw [hlast, update_self]
    · rw [update_of_ne hlast]
      exact (ih (by omega) (by omega)).1 r (by omega)

/-- Texts on blank rows, with the cursor on the last text. -/
theorem run_printRows (T : Terminal α) {s : Screen α} (hblank : ∀ r < T.height, s.rows r = [])
    {texts : List α} (hle : texts.length ≤ T.height) :
    (∀ r < T.height, (s.run T (printRows texts)).rows r = sheetOf texts r) ∧
      (texts ≠ [] → (s.run T (printRows texts)).row = texts.length - 1) := by
  induction texts using List.reverseRecOn with
  | nil =>
    refine ⟨?_, by simp⟩
    intro r hr
    exact hblank r hr
  | append_singleton texts text ih =>
    rw [length_append, length_singleton] at hle
    obtain ⟨hrows, -⟩ := ih (by omega)
    have hrow : min texts.length (T.height - 1) = texts.length := by omega
    have hlast : s.run T (printRows (texts ++ [text])) =
        ((s.run T (printRows texts)).exec T (.moveTo texts.length 0)).exec T (.print text) := by
      simp [printRows, zipIdx_append]
    rw [hlast]
    change (∀ r < T.height, Function.update _ (min texts.length (T.height - 1)) _ r = _) ∧
      (_ → min texts.length (T.height - 1) = _)
    rw [hrow]
    refine ⟨?_, by simp⟩
    intro r hr
    by_cases hlast : r = texts.length
    · rw [hlast, update_self]
      change (s.run T (printRows texts)).rows (min texts.length (T.height - 1)) ++
        [(min 0 (T.width - 1), text)] = _
      rw [hrow, hrows _ (by omega), Nat.zero_min]
      simp [sheetOf]
    · rw [update_of_ne hlast]
      change (s.run T (printRows texts)).rows r = _
      rw [hrows r hr]
      unfold sheetOf
      by_cases hlt : r < texts.length
      · rw [getElem?_append_left hlt]
      · rw [getElem?_eq_none (by omega), getElem?_eq_none (by simp; omega)]

/-- The last lines of a list are shown on a screen that is cleared before. -/
theorem At.repaint (T : Terminal α) (s : Screen α) {lines : List α} (hheight : 0 < T.height)
    (hlines : lines ≠ []) :
    At T (sheetOf lines) (lines.length - T.height) (lines.length - 1)
      (s.run T (clearRows T.height ++ printRows (lines.drop (lines.length - T.height)))) := by
  have hpos := List.length_pos_iff.2 hlines
  obtain ⟨hblank, -⟩ := run_clearRows T s hheight (Nat.le_refl _)
  obtain ⟨hrows, hrow⟩ := @run_printRows _ T _ hblank
    (lines.drop (lines.length - T.height)) (by rw [length_drop]; omega)
  rw [Screen.run_append]
  have hne : lines.drop (lines.length - T.height) ≠ [] := by
    rw [Ne, drop_eq_nil_iff]
    omega
  have hcursor := hrow hne
  rw [length_drop] at hcursor
  refine ⟨?_, by omega, by omega⟩
  intro r hr
  rw [hrows r hr]
  unfold sheetOf
  rw [getElem?_drop]

end Loops

end BeauPi.Tui
