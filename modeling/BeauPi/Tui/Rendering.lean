import BeauPi.Tui.Changes

/-!
# Differential rendering against a full repaint

* `Shown` — the screen shows what a full repaint of the frame would show.
* `Tracks` — the invariant: the screen is a window on the previous lines.
* `tracks_viewport`, `tracks_initial`, `tracks_eraseDeleted`, `tracks_drawChanged` — each way of
  drawing keeps the invariant, unless the cursor marker is above the window.
-/

namespace BeauPi.Tui

open List Screen

variable {T : Terminal String} {t : TUI} {s : Screen String} {new : List String}
  {cursorPos : Option (Nat × Nat)}

/-! ## What must be shown -/

/-- The screen shows a frame from the line `previousViewportTop` on, with the last line of the frame
on it, and the cursor is where the renderer believes it to be. -/
structure Shown (T : Terminal String) (t : TUI) (frame : List String) (s : Screen String) : Prop where
  rows : ∀ r < T.height, s.rows r = sheetOf frame (t.previousViewportTop + r)
  last : frame ≠ [] →
    t.previousViewportTop < frame.length ∧ frame.length ≤ t.previousViewportTop + T.height
  cursor : (s.row : Int) = t.hardwareCursorRow - t.previousViewportTop

/-- The screen is a window on the previous lines. -/
structure Tracks (T : Terminal String) (t : TUI) (s : Screen String) : Prop where
  sheet : At T (sheetOf t.previousLines) t.previousViewportTop t.hardwareCursorRow s
  lines : NonEmpty t.previousLines
  last : t.previousLines ≠ [] → t.previousViewportTop < t.previousLines.length ∧
    t.previousLines.length ≤ t.previousViewportTop + T.height
  empty : t.previousLines = [] → t.previousViewportTop = 0 ∧ t.hardwareCursorRow = 0 ∧ s.col = 0

theorem Tracks.shown (h : Tracks T t s) : Shown T t t.previousLines s := by
  have hcursor := h.sheet.cursor
  exact ⟨h.sheet.shows, h.last, by omega⟩

theorem tracks_fresh (hheight : 0 < T.height) : Tracks T TUI.fresh clean where
  sheet := ⟨fun _ _ => rfl, rfl, hheight⟩
  lines := by
    intro line hline
    cases hline
  last := fun h => absurd rfl h
  empty := fun _ => ⟨rfl, rfl, rfl⟩

variable {i : Nat}

theorem sheetOf_of_le {lines : List String} (hi : lines.length ≤ i) :
    sheetOf lines i = [] := by
  unfold sheetOf
  rw [getElem?_eq_none hi]

theorem sheetOf_congr {lines lines' : List String} (h : lines[i]? = lines'[i]?) :
    sheetOf lines i = sheetOf lines' i := by
  unfold sheetOf
  rw [h]

/-! ## The cursor -/

/-- The marker is found among the bottom rows. -/
theorem extractCursorPosition_spec (T : Terminal String) (lines : List String) :
    (extractCursorPosition T lines).2.length = lines.length ∧
      ∀ row col, (extractCursorPosition T lines).1 = some (row, col) →
        lines.length - T.height ≤ row ∧ row < lines.length := by
  unfold extractCursorPosition
  dsimp only
  split
  · exact ⟨rfl, by simp⟩
  · next row before after hfound =>
    refine ⟨length_set, ?_⟩
    intro row' col' hpos
    obtain ⟨rfl, -⟩ := Prod.mk.inj (Option.some.inj hpos)
    obtain ⟨i, hi, hsplit⟩ := exists_of_findSome?_eq_some hfound
    obtain ⟨parts, -, hparts⟩ := Option.map_eq_some_iff.1 hsplit
    obtain ⟨rfl, -⟩ := Prod.mk.inj hparts
    rw [mem_reverse, mem_range'_1] at hi
    omega

/-- The cursor is moved to its marker, which is in the window. -/
theorem tracks_position (hsheet : At T (sheetOf new) t.previousViewportTop t.hardwareCursorRow s)
    (hnew : NonEmpty new) (hlast : new ≠ [] →
      t.previousViewportTop < new.length ∧ new.length ≤ t.previousViewportTop + T.height)
    (hempty : new = [] → t.previousViewportTop = 0 ∧ t.hardwareCursorRow = 0 ∧ s.col = 0)
    (hpos : ∀ row col, cursorPos = some (row, col) → row < new.length)
    (hvisible : ∀ row col, cursorPos = some (row, col) → t.previousViewportTop ≤ row) :
    Tracks T { (t.positionHardwareCursor cursorPos new.length).1 with previousLines := new }
      (s.run T (t.positionHardwareCursor cursorPos new.length).2) := by
  unfold TUI.positionHardwareCursor
  split
  · exact ⟨hsheet, hnew, hlast, hempty⟩
  · next row col =>
    have hrow := hpos row col rfl
    have hne : new ≠ [] := ne_nil_of_length_pos (by omega)
    obtain ⟨-, hbottom⟩ := hlast hne
    have htop := hvisible row col rfl
    have htarget : min row (new.length - 1) = row := by omega
    rw [if_neg (by omega), htarget]
    dsimp only
    refine ⟨?_, hnew, hlast, fun hnil => absurd hnil hne⟩
    rw [run_append]
    exact (hsheet.moveBy _ _ (by omega) htop (by omega)).column col

/-- A marker above the window puts the cursor where no row of the screen is. -/
theorem not_shown_position {row col : Nat} (hpos : cursorPos = some (row, col))
    (hrow : row < new.length) (habove : row < t.previousViewportTop) (lines frame : List String)
    (s : Screen String) :
    ¬Shown T { (t.positionHardwareCursor cursorPos new.length).1 with previousLines := lines }
      frame s := by
  intro hshown
  have hcursor := hshown.cursor
  unfold TUI.positionHardwareCursor at hcursor
  rw [hpos] at hcursor
  dsimp only at hcursor
  rw [if_neg (by omega)] at hcursor
  dsimp only at hcursor
  omega

/-! ## Drawing everything -/

/-- The viewport is drawn anew. -/
theorem tracks_viewport (hheight : 0 < T.height) (t : TUI) (s : Screen String)
    (hnew : NonEmpty new) (hne : new ≠ [])
    (hpos : ∀ row col, cursorPos = some (row, col) → new.length - T.height ≤ row ∧ row < new.length) :
    Tracks T (t.fullRender T .viewport cursorPos new).1
      (s.run T (t.fullRender T .viewport cursorPos new).2) := by
  have hpositive := length_pos_iff.2 hne
  unfold TUI.fullRender TUI.thenPosition
  dsimp only
  rw [run_append]
  exact tracks_position (At.repaint T s hheight hne) hnew (fun _ => by dsimp only; omega)
    (fun hnil => absurd hnil hne) (fun row col h => (hpos row col h).2)
    fun row col h => (hpos row col h).1

/-- Without lines the viewport is cleared, and the cursor stays on the last row. -/
theorem viewport_nil (hheight : 0 < T.height) (t : TUI) (s : Screen String)
    (hpos : ∀ row col, cursorPos = some (row, col) → row < 0) :
    (T.height = 1 → Tracks T (t.fullRender T .viewport cursorPos []).1
      (s.run T (t.fullRender T .viewport cursorPos []).2)) ∧
    (T.height ≠ 1 → ¬Shown T (t.fullRender T .viewport cursorPos []).1 []
      (s.run T (t.fullRender T .viewport cursorPos []).2)) := by
  obtain ⟨hblank, hrow⟩ := run_clearRows T s hheight (Nat.le_refl _)
  have hnone : cursorPos = none := by
    cases cursorPos with
    | none => rfl
    | some pos => exact absurd (hpos pos.1 pos.2 rfl) (Nat.not_lt_zero _)
  have hwritten : (t.fullRender T .viewport cursorPos []).2 = clearRows T.height := by
    rw [hnone]
    simp [TUI.fullRender, TUI.thenPosition, TUI.positionHardwareCursor, printRows]
  have hstate : (t.fullRender T .viewport cursorPos []).1 = ⟨[], 0, 0, 0⟩ := by
    rw [hnone]
    simp [TUI.fullRender, TUI.thenPosition, TUI.positionHardwareCursor]
  rw [hwritten, hstate]
  constructor
  · intro hone
    refine ⟨⟨fun r hr => hblank r hr, ?_, ?_⟩, by simp [NonEmpty], by simp, fun _ => ⟨rfl, rfl, ?_⟩⟩
    · rw [hrow, hone]
    · omega
    · rw [hone]
      exact Nat.zero_min _
  · intro hmany hshown
    have hcursor := hshown.cursor
    dsimp only at hcursor
    omega

/-- The first frame is printed from the top of a clean screen. -/
theorem tracks_initial (h : Tracks T t s) (hfirst : t.previousLines = []) (hnew : NonEmpty new)
    (hpos : ∀ row col, cursorPos = some (row, col) → new.length - T.height ≤ row ∧ row < new.length) :
    Tracks T (t.fullRender T .initial cursorPos new).1
      (s.run T (t.fullRender T .initial cursorPos new).2) := by
  obtain ⟨htop, hrow, hcol⟩ := h.empty hfirst
  have hsheet := h.sheet
  rw [hfirst, htop, hrow] at hsheet
  have hinside := hsheet.bounds
  unfold TUI.fullRender TUI.thenPosition
  dsimp only
  rw [run_append]
  by_cases hne : new = []
  · subst hne
    refine tracks_position ?_ hnew (by simp) (fun _ => ⟨Nat.zero_sub _, rfl, hcol⟩)
      (fun row col h => (hpos row col h).2) fun row col h => (hpos row col h).1
    have hzero : ([] : List String).length - T.height = 0 := Nat.zero_sub _
    dsimp only
    rw [hzero]
    exact hsheet
  · have hpositive := length_pos_iff.2 hne
    have hblank : ∀ i, sheetOf ([] : List String) i = [] := fun _ => rfl
    obtain ⟨sheet, hat, hothers, hprinted⟩ := @At.printLines _ _ _ _ _ _ hsheet hcol
      (fun i _ => hblank i) false (fun _ i _ => hblank i) new hne
    have htop' : max 0 (0 + new.length - T.height) = new.length - T.height := by omega
    rw [htop', Nat.zero_add] at hat
    refine tracks_position ?_ hnew (fun _ => by dsimp only; omega) (fun hnil => absurd hnil hne)
      (fun row col h => (hpos row col h).2) fun row col h => (hpos row col h).1
    refine hat.congr fun i _ _ => ?_
    by_cases hi : i < new.length
    · have hget := hprinted i new[i] (getElem?_eq_getElem hi)
      rw [Nat.zero_add] at hget
      rw [hget, sheetOf, getElem?_eq_getElem hi]
    · rw [hothers i (by omega), hblank, sheetOf_of_le (by omega)]

/-! ## Drawing changes -/

/-- Lines behind the new ones are cleared. -/
theorem tracks_eraseDeleted (h : Tracks T t s) (hnew : NonEmpty new)
    (hold : t.previousLines ≠ []) (hshort : new.length < t.previousLines.length)
    (hin : t.previousViewportTop ≤ new.length - 1)
    (hsame : ∀ i, t.previousViewportTop ≤ i → i < new.length → t.previousLines[i]? = new[i]?)
    (hpos : ∀ row col, cursorPos = some (row, col) → row < new.length) :
    ((∀ row col, cursorPos = some (row, col) → t.previousViewportTop ≤ row) →
      Tracks T (t.eraseDeleted T cursorPos new).1 (s.run T (t.eraseDeleted T cursorPos new).2)) ∧
    ((∃ row col, cursorPos = some (row, col) ∧ row < t.previousViewportTop) →
      ¬Shown T (t.eraseDeleted T cursorPos new).1 new
        (s.run T (t.eraseDeleted T cursorPos new).2)) := by
  obtain ⟨htop, hbottom⟩ := h.last hold
  have hinside := h.sheet.bounds
  unfold TUI.eraseDeleted
  dsimp only
  rw [if_pos hshort, if_neg (by omega), if_neg (by omega)]
  constructor
  · intro hvisible
    -- from the last line that stays, over the deleted ones and back
    have hmoved := h.sheet.moveBy ((new.length - 1 : Nat) - (t.hardwareCursorRow : Int))
      (new.length - 1) (by omega) hin (by omega)
    have hbelow := hmoved.carriageReturn.moveBy (if new.length = 0 then 0 else 1 : Nat) new.length
      (by split <;> omega) (by omega) (by omega)
    obtain ⟨sheet, hat, herased, hothers⟩ :=
      @At.eraseDown _ _ _ _ _ _ hbelow (t.previousLines.length - new.length) (by omega) (by omega)
    have hback := hat.moveBy (-(t.previousLines.length - new.length - 1 +
      (if new.length = 0 then 0 else 1) : Nat)) (new.length - 1) (by split <;> omega) hin (by omega)
    unfold TUI.thenPosition
    dsimp only
    rw [run_append]
    refine tracks_position ?_ hnew (fun hne => ?_) ?_ hpos hvisible
    · simp only [run_append]
      refine hback.congr fun i hi _ => ?_
      by_cases hkept : i < new.length
      · rw [hothers i (by omega)]
        exact sheetOf_congr (hsame i hi hkept)
      · rw [sheetOf_of_le (by omega)]
        by_cases hdeleted : i < t.previousLines.length
        · exact herased i (by omega) (by omega)
        · rw [hothers i (by omega)]
          exact sheetOf_of_le (by omega)
    · have hpositive := length_pos_iff.2 hne
      dsimp only
      omega
    · rintro rfl
      refine ⟨?_, rfl, ?_⟩
      · have hzero : t.previousViewportTop ≤ 0 := hin
        dsimp only
        omega
      · simp only [run_append]
        rw [run_moveBy_col]
        exact run_eraseDown_col (by omega)
  · rintro ⟨row, col, hcursor, habove⟩
    exact not_shown_position (t := { t with hardwareCursorRow := new.length - 1 }) hcursor
      (hpos row col hcursor) habove _ _ _

variable {stop : Nat}

/-- The lines of a range. -/
theorem getElem?_changed {first : Nat} (hi : first + i < stop) :
    ((new.drop first).take (stop - first))[i]? = new[first + i]? := by
  rw [getElem?_take_of_lt (by omega), getElem?_drop]

section Draw

variable {first last target : Nat} {appendStart : Bool}

variable (hchange : Drawable t.previousLines new t.previousViewportTop first last appendStart)

include hchange in
/-- The line the cursor goes to before it draws is in the window. -/
theorem Drawable.target_visible (h : Tracks T t s) (hold : t.previousLines ≠ [])
    (htarget : target = if appendStart then first - 1 else first) (hfirst : first < new.length) :
    t.previousViewportTop ≤ target ∧ target < t.previousViewportTop + T.height ∧
      (appendStart = true → target + 1 = first) ∧ (appendStart = false → target = first) := by
  obtain ⟨htop, hbottom⟩ := h.last hold
  have hvisible := hchange.visible
  have hstarts := hchange.starts
  have hkept := hchange.kept
  cases appendStart with
  | true =>
    obtain ⟨hlonger, hend, hzero⟩ := hchange.append.1 rfl
    rw [if_pos rfl] at htarget
    exact ⟨by omega, by omega, fun _ => by omega, nofun⟩
  | false =>
    have hnot : ¬(t.previousLines.length < new.length ∧ first = t.previousLines.length ∧
        0 < first) := fun hno => Bool.false_ne_true (hchange.append.2 hno)
    have hpositive := length_pos_iff.2 hold
    rw [if_neg Bool.false_ne_true] at htarget
    exact ⟨by omega, by omega, nofun, fun _ => htarget⟩

include hchange in
/-- The cursor goes to the line that changes first, or to a new row below the one above it. -/
theorem start_drawChanged
    (h : Tracks T t s) (hold : t.previousLines ≠ [])
    (htarget : target = if appendStart then first - 1 else first) (hfirst : first < new.length) :
    ∃ top, At T (sheetOf t.previousLines) top first
      (s.run T (moveBy ((target : Int) - t.hardwareCursorRow) ++
        [if appendStart then .newline else .carriageReturn])) ∧
    (s.run T (moveBy ((target : Int) - t.hardwareCursorRow) ++
        [if appendStart then .newline else .carriageReturn])).col = 0 ∧
    top = max t.previousViewportTop (first + 1 - T.height) := by
  obtain ⟨htop, hbottom⟩ := h.last hold
  have hinside := h.sheet.bounds
  obtain ⟨htargetTop, htargetBottom, htargetNext, htargetSame⟩ :=
    hchange.target_visible h hold htarget hfirst
  have hmoved := h.sheet.moveBy ((target : Int) - t.hardwareCursorRow) target (by omega) htargetTop
    htargetBottom
  rw [run_append, run_cons, run_nil]
  cases appendStart with
  | true =>
    have hnext := htargetNext rfl
    obtain ⟨hat, hcol⟩ := hmoved.newline fun hend => sheetOf_of_le (by omega)
    have hline : target + 2 - T.height = first + 1 - T.height := by omega
    rw [hnext, hline] at hat
    exact ⟨_, hat, hcol, rfl⟩
  | false =>
    have hsame := htargetSame rfl
    subst hsame
    exact ⟨_, hmoved.carriageReturn, rfl, by omega⟩

include hchange in
/-- The lines that have changed are printed from there on. -/
theorem print_drawChanged {top : Nat} {changed : List String}
    (hbottom : t.previousLines.length ≤ t.previousViewportTop + T.height)
    (hstart : At T (sheetOf t.previousLines) top first s) (hcol : s.col = 0)
    (htop : top = max t.previousViewportTop (first + 1 - T.height)) (hfirst : first < new.length)
    (hstop : stop = min last (new.length - 1))
    (hchanged : changed = (new.drop first).take (stop + 1 - first)) :
    ∃ sheet, At T sheet (max t.previousViewportTop (stop + 1 - T.height)) stop
        (s.run T (printLines true changed)) ∧
      ∀ i, t.previousViewportTop ≤ i →
        sheet i = if stop < i then sheetOf t.previousLines i else sheetOf new i := by
  have hordered := hchange.ordered
  have hlength : changed.length = stop + 1 - first := by
    rw [hchanged, length_take, length_drop]
    omega
  have hne : changed ≠ [] := ne_nil_of_length_pos (by omega)
  obtain ⟨sheet, hat, hothers, hprinted⟩ := @At.printLines _ _ _ _ _ _ hstart hcol
    (fun i hi => sheetOf_of_le (by omega)) true nofun changed hne
  have hline : first + changed.length - 1 = stop := by omega
  have hwindow : max top (first + changed.length - T.height) =
      max t.previousViewportTop (stop + 1 - T.height) := by omega
  rw [hline, hwindow] at hat
  refine ⟨sheet, hat, fun i hi => ?_⟩
  by_cases hbehind : stop < i
  · rw [if_pos hbehind]
    exact hothers i (by omega)
  · rw [if_neg hbehind]
    by_cases hbefore : i < first
    · rw [hothers i (Or.inl hbefore)]
      exact sheetOf_congr (hchange.before i hi hbefore)
    · have hget : changed[i - first]? = new[i]? := by
        rw [hchanged, getElem?_changed (by omega)]
        congr 1
        omega
      have hin : i < new.length := by omega
      have hprint := hprinted (i - first) new[i] (by rw [hget, getElem?_eq_getElem hin])
      have hindex : first + (i - first) = i := by omega
      rw [hindex] at hprint
      rw [hprint, sheetOf, getElem?_eq_getElem hin]

include hchange in
/-- The lines behind the new ones are cleared. -/
theorem clear_drawChanged {final : Nat} {sheet : Nat → Row String} {cleared : List (Command String)}
    (htop : t.previousViewportTop < t.previousLines.length)
    (hbottom : t.previousLines.length ≤ t.previousViewportTop + T.height)
    (hat : At T sheet (max t.previousViewportTop (stop + 1 - T.height)) stop s)
    (hsheet : ∀ i, t.previousViewportTop ≤ i → sheet i = if stop < i then sheetOf t.previousLines i
      else sheetOf new i)
    (hfirst : first < new.length) (hstop : stop = min last (new.length - 1))
    (hfinal : final = if new.length < t.previousLines.length then new.length - 1 else stop)
    (hcleared : cleared = if new.length < t.previousLines.length then moveBy ((new.length - 1 : Nat)
      - (stop : Int)) ++ eraseBelow (t.previousLines.length - new.length) ++ moveBy
      (-(t.previousLines.length - new.length : Nat)) else []) :
    At T (sheetOf new) (max t.previousViewportTop (final + 1 - T.height)) final
      (s.run T cleared) := by
  have hvisible := hchange.visible
  have happended := hchange.appended
  -- behind the last line that has changed, all lines are the same
  have hbehind : ∀ i, stop < i → i < new.length ∨ t.previousLines.length ≤ i →
      sheetOf t.previousLines i = sheetOf new i := by
    intro i hi hin
    by_cases hlast : last < i
    · exact sheetOf_congr (hchange.after i hlast)
    · rw [sheetOf_of_le (by omega), sheetOf_of_le (by omega)]
  have hsame : ∀ i, t.previousViewportTop ≤ i → i < new.length ∨ t.previousLines.length ≤ i →
      sheet i = sheetOf new i := by
    intro i hi hin
    rw [hsheet i hi]
    split
    · next hlt => exact hbehind i hlt hin
    · rfl
  by_cases hshrinks : new.length < t.previousLines.length
  · rw [if_pos hshrinks] at hcleared hfinal
    have hstopTop : max t.previousViewportTop (stop + 1 - T.height) = t.previousViewportTop := by
      omega
    have hfinalTop : max t.previousViewportTop (final + 1 - T.height) = t.previousViewportTop := by
      omega
    rw [hstopTop] at hat
    have hend := hat.moveBy ((new.length - 1 : Nat) - (stop : Int)) (new.length - 1) (by omega)
      (by omega) (by omega)
    obtain ⟨sheet', herased, hblanks, hothers⟩ :=
      @At.eraseBelow _ _ _ _ _ _ hend (t.previousLines.length - new.length) (by omega)
    have hback := herased.moveBy (-(t.previousLines.length - new.length : Nat)) (new.length - 1)
      (by omega) (by omega) (by omega)
    rw [hcleared, hfinalTop, hfinal, run_append, run_append]
    refine hback.congr fun i hi _ => ?_
    by_cases hdeleted : new.length ≤ i ∧ i < t.previousLines.length
    · rw [hblanks i (by omega) (by omega), sheetOf_of_le hdeleted.1]
    · rw [hothers i (by omega)]
      exact hsame i hi (by omega)
  · rw [if_neg hshrinks] at hcleared hfinal
    rw [hcleared, hfinal]
    exact hat.congr fun i hi _ => hsame i (by omega) (by omega)

/-- What is written when nothing has to scroll. -/
theorem drawChanged_eq {final : Nat} {changed : List String} {cleared : List (Command String)}
    (htarget : target = if appendStart then first - 1 else first)
    (hscroll : target - (t.previousViewportTop + T.height - 1) = 0)
    (hstop : stop = min last (new.length - 1))
    (hchanged : changed = (new.drop first).take (stop + 1 - first))
    (hfinal : final = if new.length < t.previousLines.length then new.length - 1 else stop)
    (hcleared : cleared = if new.length < t.previousLines.length then moveBy ((new.length - 1 : Nat)
      - (stop : Int)) ++ eraseBelow (t.previousLines.length - new.length) ++ moveBy
      (-(t.previousLines.length - new.length : Nat)) else [])
    (hfits : ∀ line ∈ new, T.visibleWidth line ≤ T.width) :
    t.drawChanged T first last appendStart cursorPos new = some (TUI.thenPosition
      { t with
        hardwareCursorRow := final
        maxLinesRendered := max t.maxLinesRendered new.length
        previousViewportTop := max t.previousViewportTop (final + 1 - T.height) }
      (moveBy ((target : Int) - t.hardwareCursorRow) ++
        [if appendStart then .newline else .carriageReturn] ++ printLines true changed ++ cleared)
      cursorPos new) := by
  have hall : (changed.all fun line => decide (T.visibleWidth line ≤ T.width)) = true := by
    rw [all_eq_true]
    intro line hline
    rw [hchanged] at hline
    exact decide_eq_true (hfits line (mem_of_mem_drop (mem_of_mem_take hline)))
  unfold TUI.drawChanged
  dsimp only
  rw [← htarget, hscroll, ← hstop, ← hchanged, if_pos hall, if_pos rfl, if_pos rfl, ← hcleared,
    ← hfinal, Nat.add_zero, nil_append]

/-- The lines that have changed are drawn, and deleted ones are cleared. -/
theorem tracks_drawChanged (h : Tracks T t s) (hnew : NonEmpty new) (hold : t.previousLines ≠ [])
    (hchange : Drawable t.previousLines new t.previousViewportTop first last appendStart)
    (hfirst : first < new.length) (hfits : ∀ line ∈ new, T.visibleWidth line ≤ T.width)
    (hpos : ∀ row col, cursorPos = some (row, col) → new.length - T.height ≤ row ∧ row < new.length) :
    ∃ rendered, t.drawChanged T first last appendStart cursorPos new = some rendered ∧
    ((∀ row col, cursorPos = some (row, col) → t.previousViewportTop ≤ row) →
      Tracks T rendered.1 (s.run T rendered.2)) ∧
    ((∃ row col, cursorPos = some (row, col) ∧ row < t.previousViewportTop) →
      ¬Shown T rendered.1 new (s.run T rendered.2)) := by
  obtain ⟨htop, hbottom⟩ := h.last hold
  obtain ⟨target, htarget⟩ : ∃ target, target = if appendStart then first - 1 else first := ⟨_, rfl⟩
  obtain ⟨htargetTop, htargetBottom, -, -⟩ := hchange.target_visible h hold htarget hfirst
  obtain ⟨top, hstart, hcol, htopEq⟩ := start_drawChanged hchange h hold htarget hfirst
  obtain ⟨stop, hstop⟩ : ∃ stop, stop = min last (new.length - 1) := ⟨_, rfl⟩
  obtain ⟨changed, hchanged⟩ :
      ∃ changed, changed = (new.drop first).take (stop + 1 - first) := ⟨_, rfl⟩
  obtain ⟨sheet, hprinted, hsheet⟩ :=
    print_drawChanged hchange hbottom hstart hcol htopEq hfirst hstop hchanged
  obtain ⟨final, hfinal⟩ : ∃ final, final =
      if new.length < t.previousLines.length then new.length - 1 else stop := ⟨_, rfl⟩
  obtain ⟨cleared, hcleared⟩ : ∃ cleared : List (Command String), cleared =
      if new.length < t.previousLines.length then
        moveBy ((new.length - 1 : Nat) - (stop : Int)) ++
          eraseBelow (t.previousLines.length - new.length) ++
          moveBy (-(t.previousLines.length - new.length : Nat))
      else [] := ⟨_, rfl⟩
  have hdone := clear_drawChanged hchange htop hbottom hprinted hsheet hfirst hstop hfinal hcleared
  have hvisible := hchange.visible
  have hordered := hchange.ordered
  have hafter := hchange.after
  have hinside := h.sheet.bounds
  have hfinalLine : final < new.length ∧
      (final + 1 = new.length ∨ new.length = t.previousLines.length) := by
    have happended := hchange.appended
    split at hfinal <;> omega
  refine ⟨_, drawChanged_eq htarget (by omega) hstop hchanged hfinal hcleared hfits, ?_, ?_⟩
  · intro hmarker
    unfold TUI.thenPosition
    dsimp only
    rw [run_append]
    refine tracks_position ?_ hnew (fun _ => ?_) (fun hnil => ?_)
      (fun row col hcursor => (hpos row col hcursor).2) fun row col hcursor => ?_
    · rw [run_append, run_append]
      exact hdone
    · dsimp only
      omega
    · rw [hnil] at hfirst
      exact absurd hfirst (Nat.not_lt_zero _)
    · have habove := hmarker row col hcursor
      have hbottomRow := (hpos row col hcursor).1
      dsimp only
      omega
  · rintro ⟨row, col, hcursor, habove⟩
    exact not_shown_position (t := { t with
      hardwareCursorRow := final
      maxLinesRendered := max t.maxLinesRendered new.length
      previousViewportTop := max t.previousViewportTop (final + 1 - T.height) }) hcursor
      (hpos row col hcursor).2 (by dsimp only; omega) _ _ _

end Draw

end BeauPi.Tui
