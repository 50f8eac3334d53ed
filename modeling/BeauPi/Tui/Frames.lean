import BeauPi.Tui.Rendering

/-!
# Sequences of frames

* `TUI.Meets` — the condition on a frame, in terms of what the renderer remembers.
* `doRender_spec` — **a frame keeps the invariant exactly when it meets the condition**.
* `alwaysShown_iff` — every frame of a run is shown exactly when every frame meets the condition.
-/

namespace BeauPi.Tui

open Ansi (segmentReset)

variable {T : Terminal String} {t : TUI} {s : Screen String} {clearOnShrink : Bool}
  {cursorPos : Option (Nat × Nat)} {new : List String}

/-! ## The condition -/

/-- Is the viewport drawn anew? -/
def TUI.Repaints (t : TUI) (clearOnShrink : Bool) (new : List String) : Prop :=
  (clearOnShrink = true ∧ new.length < t.maxLinesRendered) ∨ t.ReachesAbove new

/-- A frame without lines needs no repaint of more than one row, and the line with the cursor marker
is in the viewport of the frame before, unless the viewport is drawn anew. -/
def TUI.Meets (T : Terminal String) (t : TUI) (clearOnShrink : Bool)
    (cursorPos : Option (Nat × Nat)) (new : List String) : Prop :=
  t.previousLines = [] ∨
    ((new = [] → T.height = 1 ∨ ¬t.Repaints clearOnShrink new) ∧
      ∀ row col, cursorPos = some (row, col) →
        t.Repaints clearOnShrink new ∨ t.previousViewportTop ≤ row)

/-- What a rendering of a frame leads to, if the frame is good and if it is not. -/
def Outcome (T : Terminal String) (s : Screen String) (new : List String) (good : Prop)
    (rendered : Option Rendered) : Prop :=
  ∃ t' written, rendered = some (t', written) ∧
    (good → Tracks T t' (s.run T written) ∧ t'.previousLines = new) ∧
    (¬good → ¬Shown T t' new (s.run T written))

/-! ## One frame -/

theorem eraseDeleted_previousLines (t : TUI) (cursorPos : Option (Nat × Nat)) (new : List String) :
    (t.eraseDeleted T cursorPos new).1.previousLines = new := by
  unfold TUI.eraseDeleted
  dsimp only
  split
  · split
    · rfl
    · split <;> rfl
  · rfl

theorem drawChanged_previousLines {first last : Nat} {appendStart : Bool} {rendered : Rendered}
    (h : t.drawChanged T first last appendStart cursorPos new = some rendered) :
    rendered.1.previousLines = new := by
  unfold TUI.drawChanged at h
  dsimp only at h
  split at h
  · exact Option.some.inj h ▸ rfl
  · cases h

/-- The viewport is drawn anew. -/
theorem outcome_viewport (hheight : 0 < T.height) (s : Screen String) (hnew : NonEmpty new)
    (hold : t.previousLines ≠ []) (hrepaints : t.Repaints clearOnShrink new)
    (hpos : ∀ row col, cursorPos = some (row, col) →
      new.length - T.height ≤ row ∧ row < new.length) :
    Outcome T s new (t.Meets T clearOnShrink cursorPos new)
      (some (t.fullRender T .viewport cursorPos new)) := by
  refine ⟨_, _, rfl, ?_, ?_⟩
  · rintro (hnil | ⟨hempty, -⟩)
    · exact absurd hnil hold
    · refine ⟨?_, rfl⟩
      by_cases hne : new = []
      · subst hne
        obtain hone | hno := hempty rfl
        · exact (viewport_nil hheight t s fun row col h => (hpos row col h).2).1 hone
        · exact absurd hrepaints hno
      · exact tracks_viewport hheight t s hnew hne hpos
  · intro hfails
    by_cases hne : new = []
    · subst hne
      refine (viewport_nil hheight t s fun row col h => (hpos row col h).2).2 fun hone => ?_
      exact hfails (Or.inr ⟨fun _ => Or.inl hone, fun _ _ _ => Or.inl hrepaints⟩)
    · exact absurd (Or.inr ⟨fun hnil => absurd hnil hne, fun _ _ _ => Or.inl hrepaints⟩) hfails

/-- Otherwise only a marker above the viewport is in the way. -/
theorem outcome_other {t' : TUI} {written : List (Command String)}
    (hold : t.previousLines ≠ []) (hno : ¬t.Repaints clearOnShrink new)
    (htracks : (∀ row col, cursorPos = some (row, col) → t.previousViewportTop ≤ row) →
      Tracks T t' (s.run T written))
    (hlines : t'.previousLines = new)
    (hfails : (∃ row col, cursorPos = some (row, col) ∧ row < t.previousViewportTop) →
      ¬Shown T t' new (s.run T written)) :
    Outcome T s new (t.Meets T clearOnShrink cursorPos new) (some (t', written)) := by
  refine ⟨_, _, rfl, ?_, ?_⟩
  · rintro (hnil | ⟨-, hmarker⟩)
    · exact absurd hnil hold
    · exact ⟨htracks fun row col h => (hmarker row col h).resolve_left hno, hlines⟩
  · intro hmeets
    apply hfails
    by_contra hnone
    refine hmeets (Or.inr ⟨fun _ => Or.inr hno, fun row col h => Or.inr ?_⟩)
    by_contra habove
    exact hnone ⟨row, col, h, by omega⟩

/-- Nothing is written where the visible lines are the same. -/
theorem outcome_position (h : Tracks T t s) (hnew : NonEmpty new) (hold : t.previousLines ≠ [])
    (hno : ¬t.Repaints clearOnShrink new) (hlength : t.previousLines.length = new.length)
    (hsame : ∀ i, t.previousViewportTop ≤ i → t.previousLines[i]? = new[i]?)
    (hpos : ∀ row col, cursorPos = some (row, col) → row < new.length) :
    Outcome T s new (t.Meets T clearOnShrink cursorPos new)
      (some (t.thenPosition [] cursorPos new)) := by
  have hne : new ≠ [] := by
    rintro rfl
    exact hold (List.eq_nil_of_length_eq_zero hlength)
  refine outcome_other hold hno (fun hmarker => ?_) rfl ?_
  · refine tracks_position (h.sheet.congr fun i hi _ => sheetOf_congr (hsame i hi)) hnew
      (fun _ => hlength ▸ h.last hold) (fun hnil => absurd hnil hne) hpos hmarker
  · rintro ⟨row, col, hcursor, habove⟩
    exact not_shown_position hcursor (hpos row col hcursor) habove _ _ _

/-- Positioning the cursor leaves the lines of the last frame. -/
theorem positionHardwareCursor_eq (cursorPos : Option (Nat × Nat)) (h : t.previousLines = new) :
    t.positionHardwareCursor cursorPos new.length = t.thenPosition [] cursorPos new := by
  subst h
  unfold TUI.thenPosition TUI.positionHardwareCursor
  cases cursorPos with
  | none => rfl
  | some pos =>
    dsimp only
    split <;> rfl

/-- The lines that a frame leaves on the screen. -/
def drawnLines (T : Terminal String) (normalize : String → String) (lines : List String) :
    List String :=
  applyLineResets normalize (extractCursorPosition T lines).2

/-- **A frame is shown exactly when it meets the condition**, and then the screen is a window on its
lines. -/
theorem doRender_spec (hheight : 0 < T.height) (h : Tracks T t s) (normalize : String → String)
    (clearOnShrink : Bool) (lines : List String)
    (hfits : ∀ line ∈ drawnLines T normalize lines, T.visibleWidth line ≤ T.width) :
    Outcome T s (drawnLines T normalize lines)
      (t.Meets T clearOnShrink (extractCursorPosition T lines).1 (drawnLines T normalize lines))
      (t.doRender T normalize clearOnShrink lines) := by
  obtain ⟨hlength, hmarker⟩ := extractCursorPosition_spec T lines
  have hpos : ∀ row col, (extractCursorPosition T lines).1 = some (row, col) →
      (drawnLines T normalize lines).length - T.height ≤ row ∧
        row < (drawnLines T normalize lines).length := by
    intro row col hcursor
    rw [drawnLines, applyLineResets, List.length_map, hlength]
    exact hmarker row col hcursor
  have hnew : NonEmpty (drawnLines T normalize lines) := nonEmpty_applyLineResets _ _
  unfold TUI.doRender
  dsimp only
  change Outcome T s _ _ (if t.previousLines = [] then _ else _)
  rw [← drawnLines]
  generalize (extractCursorPosition T lines).1 = cursorPos at hpos ⊢
  generalize drawnLines T normalize lines = new at hfits hpos hnew ⊢
  by_cases hfirst : t.previousLines = []
  · rw [if_pos hfirst]
    exact ⟨_, _, rfl, fun _ => ⟨tracks_initial h hfirst hnew hpos, rfl⟩,
      fun hno => absurd (Or.inl hfirst) hno⟩
  rw [if_neg hfirst]
  by_cases hclear : clearOnShrink = true ∧ new.length < t.maxLinesRendered
  · rw [if_pos hclear]
    exact outcome_viewport hheight s hnew hfirst (Or.inl hclear) hpos
  rw [if_neg hclear]
  obtain ⟨htop, hbottom⟩ := h.last hfirst
  by_cases habove : t.ReachesAbove new
  · obtain ⟨first, last, appendStart, hchange, hwhere⟩ :=
      visibleChange_above h.lines hnew htop habove
    rw [hchange]
    dsimp only
    rcases hwhere with ⟨hdeleted, hshort, hup⟩ | ⟨hin, hup⟩
    · have herase : t.eraseDeleted T cursorPos new = t.fullRender T .viewport cursorPos new := by
        unfold TUI.eraseDeleted
        dsimp only
        rw [if_pos hshort, if_pos hup]
      rw [if_pos hdeleted, herase]
      exact outcome_viewport hheight s hnew hfirst (Or.inr habove) hpos
    · rw [if_neg (by omega), if_pos hup]
      exact outcome_viewport hheight s hnew hfirst (Or.inr habove) hpos
  have hno : ¬t.Repaints clearOnShrink new := fun hrepaints => hrepaints.elim hclear habove
  have hspec := visibleChange_spec h.lines hnew htop habove
  cases hchange : t.visibleChange new with
  | nothing =>
    rw [hchange] at hspec
    dsimp only at hspec ⊢
    rw [positionHardwareCursor_eq cursorPos hspec]
    exact outcome_position h hnew hfirst hno (by rw [hspec]) (fun i _ => by rw [hspec])
      fun row col hcursor => (hpos row col hcursor).2
  | offscreenOnly =>
    rw [hchange] at hspec
    obtain ⟨hsameLength, hsame⟩ := hspec
    exact outcome_position h hnew hfirst hno hsameLength hsame
      fun row col hcursor => (hpos row col hcursor).2
  | range first last appendStart =>
    rw [hchange] at hspec
    dsimp only at hspec ⊢
    have hvisible := hspec.visible
    by_cases hdeleted : new.length ≤ first
    · have happended := hspec.appended
      have hordered := hspec.ordered
      have hkept := hspec.kept
      have hshort : new.length < t.previousLines.length := by omega
      have hin : t.previousViewportTop ≤ new.length - 1 := by
        by_contra hgt
        exact habove (Or.inl ⟨by omega, by omega⟩)
      obtain ⟨htracks, hfails⟩ := tracks_eraseDeleted h hnew hfirst hshort hin
        (fun i hi hlt => hspec.before i hi (by omega)) fun row col hcursor => (hpos row col hcursor).2
      rw [if_pos hdeleted]
      exact outcome_other hfirst hno htracks (eraseDeleted_previousLines t cursorPos new) hfails
    · rw [if_neg hdeleted, if_neg (by omega)]
      obtain ⟨rendered, hrendered, htracks, hfails⟩ :=
        tracks_drawChanged h hnew hfirst hspec (by omega) hfits hpos
      rw [hrendered]
      exact outcome_other hfirst hno htracks (drawChanged_previousLines hrendered) hfails

/-! ## Runs -/

/-- The lines that `render` gives for a frame, and the setting at that time. -/
structure Frame where
  lines : List String
  clearOnShrink : Bool
  deriving DecidableEq, Repr

/-- No line that is written is wider than the terminal. -/
def Frame.Fits (T : Terminal String) (normalize : String → String) (f : Frame) : Prop :=
  ∀ line ∈ drawnLines T normalize f.lines, T.visibleWidth line ≤ T.width

/-- Each frame is rendered, and the screen shows it. -/
def AlwaysShown (T : Terminal String) (normalize : String → String) :
    TUI → Screen String → List Frame → Prop
  | _, _, [] => True
  | t, s, f :: frames => ∃ t' written,
      t.doRender T normalize f.clearOnShrink f.lines = some (t', written) ∧
      Shown T t' (drawnLines T normalize f.lines) (s.run T written) ∧
      AlwaysShown T normalize t' (s.run T written) frames

/-- Each frame meets the condition when it is rendered. -/
def AlwaysMeets (T : Terminal String) (normalize : String → String) : TUI → List Frame → Prop
  | _, [] => True
  | t, f :: frames =>
      t.Meets T f.clearOnShrink (extractCursorPosition T f.lines).1
        (drawnLines T normalize f.lines) ∧
      ∀ t' written, t.doRender T normalize f.clearOnShrink f.lines = some (t', written) →
        AlwaysMeets T normalize t' frames

theorem alwaysShown_of_tracks (hheight : 0 < T.height) (normalize : String → String)
    (h : Tracks T t s) (frames : List Frame) (hfits : ∀ f ∈ frames, f.Fits T normalize) :
    AlwaysShown T normalize t s frames ↔ AlwaysMeets T normalize t frames := by
  induction frames generalizing t s with
  | nil => exact Iff.rfl
  | cons f frames ih =>
    obtain ⟨hfit, hrest⟩ := List.forall_mem_cons.1 hfits
    obtain ⟨t', written, hrendered, hgood, hbad⟩ :=
      doRender_spec hheight h normalize f.clearOnShrink f.lines hfit
    constructor
    · rintro ⟨t'', written', hsame, hshown, hlater⟩
      obtain ⟨rfl, rfl⟩ := Prod.mk.inj (Option.some.inj (hsame.symm.trans hrendered))
      have hmeets := Classical.byContradiction fun hno => hbad hno hshown
      refine ⟨hmeets, fun t'' written' hsame => ?_⟩
      obtain ⟨rfl, rfl⟩ := Prod.mk.inj (Option.some.inj (hsame.symm.trans hrendered))
      exact (ih (hgood hmeets).1 hrest).1 hlater
    · rintro ⟨hmeets, hlater⟩
      obtain ⟨htracks, hlines⟩ := hgood hmeets
      refine ⟨t', written, hrendered, hlines ▸ htracks.shown, ?_⟩
      exact (ih htracks hrest).2 (hlater t' written hrendered)

/-- The frames are rendered one after the other. -/
def renderAll (T : Terminal String) (normalize : String → String) :
    TUI → Screen String → List Frame → Option (TUI × Screen String)
  | t, s, [] => some (t, s)
  | t, s, f :: frames =>
    match t.doRender T normalize f.clearOnShrink f.lines with
    | none => none
    | some (t', written) => renderAll T normalize t' (s.run T written) frames

/-- Behind the last frame that is shown the cursor is where the renderer believes it to be. -/
theorem AlwaysShown.cursor {normalize : String → String} {f : Frame} {frames : List Frame}
    (h : AlwaysShown T normalize t s (f :: frames)) :
    ∃ p, renderAll T normalize t s (f :: frames) = some p ∧
      (p.2.row : Int) = p.1.hardwareCursorRow - p.1.previousViewportTop := by
  induction frames generalizing t s f with
  | nil =>
    obtain ⟨t', written, hrendered, hshown, -⟩ := h
    refine ⟨(t', s.run T written), ?_, hshown.cursor⟩
    simp only [renderAll, hrendered]
  | cons g frames ih =>
    obtain ⟨t', written, hrendered, -, hlater⟩ := h
    obtain ⟨p, hp, hcursor⟩ := ih hlater
    refine ⟨p, ?_, hcursor⟩
    rw [renderAll, hrendered]
    exact hp

/-- **From a clean screen, every frame is shown exactly when every frame meets the condition.** -/
theorem alwaysShown_iff (T : Terminal String) (normalize : String → String) (frames : List Frame)
    (hheight : 0 < T.height) (hfits : ∀ f ∈ frames, f.Fits T normalize) :
    AlwaysShown T normalize TUI.fresh Screen.clean frames ↔
      AlwaysMeets T normalize TUI.fresh frames :=
  alwaysShown_of_tracks hheight normalize (tracks_fresh hheight) frames hfits

/-- A terminal of twenty columns for texts whose first escape sequence ends the visible part. -/
def asciiTerminal (height : Nat) : Terminal String :=
  ⟨height, 20, fun line => (line.toList.takeWhile (· ≠ '\x1b')).length⟩

/-- A line is changed, one with the cursor marker is added, and that one is deleted again. -/
theorem alwaysShown_edited : AlwaysShown (asciiTerminal 3) id TUI.fresh Screen.clean
    [⟨["a", "b"], false⟩, ⟨["a", "x", "c\x1b_pi:c\x07"], false⟩, ⟨["a", "x"], false⟩] := by
  refine (alwaysShown_iff _ _ _ (by decide) ?_).2 ?_
  · unfold Frame.Fits
    decide
  · refine ⟨Or.inl rfl, fun t written hrendered => ?_⟩
    have hfirst : (TUI.fresh.doRender (asciiTerminal 3) id false ["a", "b"]).map Prod.fst =
        some ⟨["a" ++ segmentReset, "b" ++ segmentReset], 1, 2, 0⟩ := by decide
    rw [hrendered] at hfirst
    obtain rfl := Option.some.inj hfirst
    refine ⟨Or.inr ⟨fun hnil => ?_, fun row _ _ => Or.inr (Nat.zero_le row)⟩,
      fun t written hrendered => ?_⟩
    · exact absurd hnil (by decide)
    have hsecond : (TUI.doRender (asciiTerminal 3) id false
        ⟨["a" ++ segmentReset, "b" ++ segmentReset], 1, 2, 0⟩
        ["a", "x", "c\x1b_pi:c\x07"]).map Prod.fst =
        some ⟨["a" ++ segmentReset, "x" ++ segmentReset, "c" ++ segmentReset], 2, 3, 0⟩ := by
      decide
    rw [hrendered] at hsecond
    obtain rfl := Option.some.inj hsecond
    refine ⟨Or.inr ⟨fun hnil => ?_, fun row _ _ => Or.inr (Nat.zero_le row)⟩,
      fun _ _ _ => trivial⟩
    exact absurd hnil (by decide)

/-- After a frame without lines the cursor is on the last row and believed to be on the first; and a
marker above the rows that are on the screen is where the cursor cannot go. -/
theorem cursor_lost :
    (∃ frames, (∀ f ∈ frames, f.Fits (asciiTerminal 2) id) ∧
      ¬AlwaysShown (asciiTerminal 2) id TUI.fresh Screen.clean frames) ∧
    ∃ frames, (∀ f ∈ frames, f.Fits (asciiTerminal 3) id) ∧
      ¬AlwaysShown (asciiTerminal 3) id TUI.fresh Screen.clean frames := by
  refine ⟨⟨[⟨["a", "b", "c"], false⟩, ⟨[], false⟩], ?_, fun hshown => ?_⟩,
    ⟨[⟨["a", "b", "c", "d", "e"], false⟩, ⟨["\x1b_pi:c\x07a", "b", "c"], false⟩], ?_,
      fun hshown => ?_⟩⟩
  · unfold Frame.Fits
    decide
  · obtain ⟨p, hp, hcursor⟩ := hshown.cursor
    have hend : (renderAll (asciiTerminal 2) id TUI.fresh Screen.clean
        [⟨["a", "b", "c"], false⟩, ⟨[], false⟩]).map
        (fun p => (p.2.row, p.1.hardwareCursorRow, p.1.previousViewportTop)) = some (1, 0, 0) := by
      decide
    rw [hp] at hend
    obtain ⟨hrow, hbelieved, htop⟩ : p.2.row = 1 ∧ p.1.hardwareCursorRow = 0 ∧
        p.1.previousViewportTop = 0 := by simpa using hend
    omega
  · unfold Frame.Fits
    decide
  · obtain ⟨p, hp, hcursor⟩ := hshown.cursor
    have hend : (renderAll (asciiTerminal 3) id TUI.fresh Screen.clean
        [⟨["a", "b", "c", "d", "e"], false⟩, ⟨["\x1b_pi:c\x07a", "b", "c"], false⟩]).map
        (fun p => (p.1.hardwareCursorRow, p.1.previousViewportTop)) = some (0, 2) := by
      decide
    rw [hp] at hend
    obtain ⟨hbelieved, htop⟩ : p.1.hardwareCursorRow = 0 ∧ p.1.previousViewportTop = 2 := by
      simpa using hend
    omega

end BeauPi.Tui
