import BeauPi.Tui.AnsiCodeTracker
import Mathlib

/-!
# Overlays on a line

* `compositeLineAt` — a line with an overlay put over some of its columns.
* `Cell`, `lineCells` — the columns and styles in which a terminal shows the characters of a line.
* `Composited`, `Aligned` — what the result should show, and when it does.
* `extract_before`, `extract_after` — what the loop over the base line takes.
* `sublist_iff` — when some characters are shown again further left, behind other codes.
* `compositeLineAt_iff` — the result is as it should be exactly if nothing moves and the codes that
  are replayed mean what the codes in front of them mean.
-/

namespace BeauPi.Tui.Ansi

open List

/-! ## Slices and segments -/

/-- The variables of the loop of `sliceWithWidth`. -/
structure Slice where
  result : List Token := []
  resultWidth : Nat := 0
  currentCol : Nat := 0
  pendingAnsi : List Token := []

/-- An escape sequence comes in. -/
def Slice.code (startCol endCol : Nat) (code : List Char) (s : Slice) : Slice :=
  if startCol ≤ s.currentCol ∧ s.currentCol < endCol then
    { s with result := s.result ++ [.code code] }
  else if s.currentCol < startCol then { s with pendingAnsi := s.pendingAnsi ++ [.code code] }
  else s

/-- A character comes in; `w` is its width. -/
def Slice.char (startCol endCol : Nat) (strict : Bool) (c : Char) (w : Nat) (s : Slice) : Slice :=
  let taken :=
    if (startCol ≤ s.currentCol ∧ s.currentCol < endCol) ∧
        (strict = true → s.currentCol + w ≤ endCol) then
      { s with
        result := s.result ++ s.pendingAnsi ++ [.char c]
        pendingAnsi := []
        resultWidth := s.resultWidth + w }
    else s
  { taken with currentCol := s.currentCol + w }

/-- The loop of `sliceWithWidth`. -/
def Widths.slice (W : Widths) (startCol endCol : Nat) (strict : Bool) : List Token → Slice → Slice
  | [], s => s
  | .code code :: ts, s => W.slice startCol endCol strict ts (s.code startCol endCol code)
  | .char c :: ts, s =>
    let s := s.char startCol endCol strict c (W.graphemeWidth c)
    if endCol ≤ s.currentCol then s else W.slice startCol endCol strict ts s

/-- `sliceWithWidth` -/
def Widths.sliceWithWidth (W : Widths) (line : List Char) (startCol length : Nat)
    (strict : Bool) : List Token × Nat :=
  if length = 0 then ([], 0)
  else
    let s := W.slice startCol (startCol + length) strict (tokens line) {}
    (s.result, s.resultWidth)

/-- The variables of the loop of `extractSegments`. -/
structure Segments where
  before : List Token := []
  beforeWidth : Nat := 0
  after : List Token := []
  afterWidth : Nat := 0
  currentCol : Nat := 0
  pendingAnsiBefore : List Token := []
  afterStarted : Bool := false
  tracker : AnsiCodeTracker := {}

/-- An escape sequence comes in. -/
def Segments.code (beforeEnd afterStart afterEnd : Nat) (code : List Char) (s : Segments) :
    Segments :=
  let s := { s with tracker := s.tracker.process code }
  if s.currentCol < beforeEnd then
    { s with pendingAnsiBefore := s.pendingAnsiBefore ++ [.code code] }
  else if (afterStart ≤ s.currentCol ∧ s.currentCol < afterEnd) ∧ s.afterStarted = true then
    { s with after := s.after ++ [.code code] }
  else s

/-- A character comes in; the first one behind the overlay brings its style along. -/
def Segments.char (beforeEnd afterStart afterEnd : Nat) (strictAfter : Bool) (c : Char) (w : Nat)
    (s : Segments) : Segments :=
  let taken :=
    if s.currentCol < beforeEnd ∧ s.currentCol + w ≤ beforeEnd then
      { s with
        before := s.before ++ s.pendingAnsiBefore ++ [.char c]
        pendingAnsiBefore := []
        beforeWidth := s.beforeWidth + w }
    else if (afterStart ≤ s.currentCol ∧ s.currentCol < afterEnd) ∧
        (strictAfter = true → s.currentCol + w ≤ afterEnd) then
      { s with
        after :=
          s.after ++ (if s.afterStarted then [] else s.tracker.getActiveCodes) ++ [.char c]
        afterStarted := true
        afterWidth := s.afterWidth + w }
    else s
  { taken with currentCol := s.currentCol + w }

/-- The loop of `extractSegments`. -/
def Widths.extract (W : Widths) (beforeEnd afterStart afterLen : Nat) (strictAfter : Bool) :
    List Token → Segments → Segments
  | [], s => s
  | .code code :: ts, s =>
    W.extract beforeEnd afterStart afterLen strictAfter ts
      (s.code beforeEnd afterStart (afterStart + afterLen) code)
  | .char c :: ts, s =>
    let s := s.char beforeEnd afterStart (afterStart + afterLen) strictAfter c (W.graphemeWidth c)
    if (if afterLen = 0 then beforeEnd else afterStart + afterLen) ≤ s.currentCol then s
    else W.extract beforeEnd afterStart afterLen strictAfter ts s

/-- `extractSegments` -/
def Widths.extractSegments (W : Widths) (line : List Char) (beforeEnd afterStart afterLen : Nat)
    (strictAfter : Bool) : Segments :=
  W.extract beforeEnd afterStart afterLen strictAfter (tokens line) {}

/-! ## The composition -/

/-- `isImageLine` -/
def isImageLine (line : List Char) : Bool :=
  line.tails.any fun rest => [escape, '_', 'G'].isPrefixOf rest ||
    (escape :: "]1337;File=".toList).isPrefixOf rest

/-- Blanks. -/
def blanks (n : Nat) : List Token := List.replicate n (.char ' ')

/-- The segments with the blanks that fill them up. -/
def compose (base : Segments) (overlay : List Token × Nat)
    (startCol overlayWidth totalWidth : Nat) : List Token :=
  let actualBeforeWidth := max startCol base.beforeWidth
  let actualOverlayWidth := max overlayWidth overlay.2
  let afterTarget := totalWidth - actualBeforeWidth - actualOverlayWidth
  base.before ++ blanks (startCol - base.beforeWidth) ++ resetTokens ++
    overlay.1 ++ blanks (overlayWidth - overlay.2) ++ resetTokens ++
    base.after ++ blanks (afterTarget - base.afterWidth)

/-- `compositeLineAt` -/
def Widths.compositeLineAt (W : Widths) (baseLine overlayLine : List Char)
    (startCol overlayWidth totalWidth : Nat) : List Char :=
  if isImageLine baseLine then baseLine
  else
    let afterStart := startCol + overlayWidth
    let base := W.extractSegments baseLine startCol afterStart (totalWidth - afterStart) true
    let overlay := W.sliceWithWidth overlayLine 0 overlayWidth true
    let result := render (compose base overlay startCol overlayWidth totalWidth)
    if W.visibleWidth result ≤ totalWidth then result
    else render (W.sliceWithWidth result 0 totalWidth true).1

/-! ## What a line shows -/

/-- A character, the column where it begins and its style. -/
structure Cell (Style : Type) where
  column : Nat
  char : Char
  style : Style
  deriving DecidableEq

section
variable (W : Widths) (T : Emulator)

/-- The characters of some tokens that begin at a column in a style. -/
def Widths.cells : Nat → T.Style → List Token → List (Cell T.Style)
  | _, _, [] => []
  | column, style, .code text :: ts => Widths.cells column (T.read style text) ts
  | column, style, .char c :: ts =>
    ⟨column, c, style⟩ :: Widths.cells (column + W.graphemeWidth c) style ts

/-- The characters of a line. -/
def Widths.lineCells (line : List Char) : List (Cell T.Style) := W.cells T 0 T.plain (tokens line)

variable {T}

/-- The column behind a character. -/
def Widths.stop (cell : Cell T.Style) : Nat := cell.column + W.graphemeWidth cell.char

/-- A character further right. -/
def Cell.shift {Style : Type} (n : Nat) (cell : Cell Style) : Cell Style :=
  { cell with column := cell.column + n }

/-- The character ends in front of the overlay, or begins behind it. -/
def Widths.Outside (startCol overlayWidth : Nat) (cell : Cell T.Style) : Prop :=
  cell.column < startCol ∧ W.stop cell ≤ startCol ∨ startCol + overlayWidth ≤ cell.column

instance (startCol overlayWidth : Nat) (cell : Cell T.Style) :
    Decidable (W.Outside startCol overlayWidth cell) := instDecidableOr

variable (T)

/-- What a line with an overlay shows. -/
structure Composited (base overlay : List Char) (startCol overlayWidth totalWidth : Nat)
    (result : List Char) : Prop where
  width : W.visibleWidth result = totalWidth
  /-- Its columns show the overlay, and blanks behind it. -/
  overlay : ∃ rest, (∀ cell ∈ rest, cell.char = ' ') ∧
    ((W.lineCells T result).filter fun cell =>
      startCol ≤ cell.column ∧ cell.column < startCol + overlayWidth) =
      ((W.lineCells T overlay).filter fun cell => cell.column < overlayWidth).map
        (Cell.shift startCol) ++ rest
  /-- What lies outside is where and as it was. -/
  kept : List.Sublist ((W.lineCells T base).filter fun cell => W.Outside startCol overlayWidth cell)
    (W.lineCells T result)
  /-- All else is blank. -/
  blank : ∀ cell ∈ W.lineCells T result,
    cell.column < startCol ∨ startCol + overlayWidth ≤ cell.column →
    cell ∈ W.lineCells T base ∧ W.Outside startCol overlayWidth cell ∨ cell.char = ' '

/-- The columns of some tokens. -/
def Widths.width (ts : List Token) : Nat := W.textWidth (ts.filterMap Token.char?)

/-- The tokens that begin in front of a column. -/
def Widths.upTo (limit : Nat) : Nat → List Token → List Token
  | _, [] => []
  | column, t :: ts =>
    if column < limit then t :: Widths.upTo limit (column + W.width [t]) ts else []

/-- The tokens in front of the first character that begins at a column or behind it, and those
from it on. -/
def Widths.splitAt (limit : Nat) : Nat → List Token → List Token × List Token
  | _, [] => ([], [])
  | column, .code text :: ts =>
    (.code text :: (Widths.splitAt limit column ts).1, (Widths.splitAt limit column ts).2)
  | column, .char c :: ts =>
    if limit ≤ column then ([], .char c :: ts)
    else
      (.char c :: (Widths.splitAt limit (column + W.graphemeWidth c) ts).1,
        (Widths.splitAt limit (column + W.graphemeWidth c) ts).2)

/-- Some tokens that are shown `gap` columns further left, in another style, and filled up with
blanks: nothing is lost if the style is the same and there is no gap, or if all is blank and every
blank finds its style in the column where it was. -/
def Emulator.Covers (gap : Nat) (original shown : T.Style) (ts : List Token) : Prop :=
  if gap = 0 then shown = original
  else (∀ c ∈ ts.filterMap Token.char?, c = ' ') ∧ T.styles original ts =
    (T.styles shown ts ++ replicate gap (T.after shown ts)).drop gap

instance [DecidableEq T.Style] (gap : Nat) (original shown : T.Style) (ts : List Token) :
    Decidable (T.Covers gap original shown ts) := inferInstanceAs (Decidable (ite _ _ _))

/-- No character begins behind the line; what begins behind the overlay is not moved, and the codes
that the tracker replays for it mean what the codes in front of it mean. -/
structure Aligned (base : List Char) (startCol overlayWidth totalWidth : Nat) : Prop where
  inside : ∀ cell ∈ W.lineCells T base, cell.column < totalWidth
  border : ∀ front behind,
    W.splitAt (startCol + overlayWidth) 0 (W.upTo totalWidth 0 (tokens base)) = (front, behind) →
    behind ≠ [] →
    T.Covers (W.width front - (startCol + overlayWidth)) (T.after T.plain front)
      (T.after T.plain (AnsiCodeTracker.after {} front).getActiveCodes) behind

end

variable {W : Widths} {T : Emulator} {ts us : List Token} {column b a e len gap n : Nat}
  {style shown : T.Style} {cell : Cell T.Style}

/-! ## Columns -/

@[simp] theorem Widths.width_nil (W : Widths) : W.width [] = 0 := rfl

@[simp] theorem Widths.width_append (W : Widths) (ts us : List Token) :
    W.width (ts ++ us) = W.width ts + W.width us := by
  rw [width, filterMap_append, textWidth_append]
  rfl

@[simp] theorem Widths.width_code (W : Widths) (text : List Char) (ts : List Token) :
    W.width (.code text :: ts) = W.width ts := rfl

@[simp] theorem Widths.width_char (W : Widths) (c : Char) (ts : List Token) :
    W.width (.char c :: ts) = W.graphemeWidth c + W.width ts := rfl

@[simp] theorem Widths.width_blank (W : Widths) : W.graphemeWidth ' ' = 1 := W.ascii ' ' (by decide)

@[simp] theorem Widths.width_blanks (W : Widths) (n : Nat) : W.width (blanks n) = n := by
  induction n with
  | zero => rfl
  | succ n ih =>
    show W.width (.char ' ' :: blanks n) = n + 1
    rw [W.width_char, ih, W.width_blank, Nat.add_comm]

/-- Escape sequences take no columns. -/
theorem Widths.width_codes (W : Widths) (h : ∀ t ∈ ts, t.char? = none) : W.width ts = 0 := by
  rw [width, filterMap_eq_nil_iff.2 h]
  rfl

theorem cells_append (column : Nat) (style : T.Style) (ts us : List Token) :
    W.cells T column style (ts ++ us) =
      W.cells T column style ts ++ W.cells T (column + W.width ts) (T.after style ts) us := by
  fun_induction Widths.cells W T column style ts with
  | case1 => rfl
  | case2 column style text ts ih => exact ih
  | case3 column style c ts ih =>
    rw [W.width_char, ← Nat.add_assoc]
    exact congrArg _ ih

theorem cells_codes (h : ∀ t ∈ ts, t.char? = none) : W.cells T column style ts = [] := by
  fun_induction Widths.cells W T column style ts with
  | case1 => rfl
  | case2 column style text ts ih => exact ih (forall_mem_cons.1 h).2
  | case3 column style c ts ih => cases (forall_mem_cons.1 h).1

/-- Where the characters of some tokens are. -/
theorem mem_cells (h : cell ∈ W.cells T column style ts) :
    column ≤ cell.column ∧ W.stop cell ≤ column + W.width ts := by
  fun_induction Widths.cells W T column style ts with
  | case1 => cases h
  | case2 column style text ts ih => exact ih h
  | case3 column style c ts ih =>
    rw [W.width_char, ← Nat.add_assoc]
    rcases mem_cons.1 h with rfl | h
    · exact ⟨Nat.le_refl _, Nat.le_add_right _ _⟩
    · exact ⟨Nat.le_trans (Nat.le_add_right _ _) (ih h).1, (ih h).2⟩

theorem map_char_cells (column : Nat) (style : T.Style) (ts : List Token) :
    (W.cells T column style ts).map Cell.char = ts.filterMap Token.char? := by
  fun_induction Widths.cells W T column style ts with
  | case1 => rfl
  | case2 column style text ts ih => exact ih
  | case3 column style c ts ih => exact congrArg _ ih

/-- Characters further right and in other styles. -/
theorem cells_moved (n : Nat) (style : T.Style) (h : cell ∈ W.cells T column shown ts) :
    ∃ other ∈ W.cells T (column + n) style ts,
      other.column = cell.column + n ∧ other.char = cell.char := by
  fun_induction Widths.cells W T column shown ts generalizing style with
  | case1 => cases h
  | case2 column shown text ts ih => exact ih (T.read style text) h
  | case3 column shown c ts ih =>
    rcases mem_cons.1 h with rfl | h
    · exact ⟨_, mem_cons_self, rfl, rfl⟩
    · obtain ⟨other, hother, hsame⟩ := ih style h
      rw [Nat.add_right_comm] at hother
      exact ⟨other, mem_cons_of_mem _ hother, hsame⟩

theorem cells_shift (n column : Nat) (style : T.Style) (ts : List Token) :
    W.cells T (column + n) style ts = (W.cells T column style ts).map (Cell.shift n) := by
  fun_induction Widths.cells W T column style ts with
  | case1 => rfl
  | case2 column style text ts ih => exact ih
  | case3 column style c ts ih =>
    rw [Nat.add_right_comm] at ih
    exact congrArg _ ih

theorem mem_blanks {n : Nat} (h : cell ∈ W.cells T column style (blanks n)) :
    cell.char = ' ' ∧ column ≤ cell.column ∧ cell.column < column + n := by
  induction n generalizing column with
  | zero => cases h
  | succ n ih =>
    rcases mem_cons.1 h with rfl | h
    · exact ⟨rfl, Nat.le_refl _, by simp⟩
    · rw [W.width_blank] at h
      obtain ⟨hchar, hfrom, hto⟩ := ih h
      exact ⟨hchar, by omega, by omega⟩

/-! ## Tokens up to a column -/

/-- The tokens that show characters in front of the overlay. -/
def Widths.fitting (W : Widths) (b : Nat) : Nat → List Token → List Token
  | _, [] => []
  | column, .code text :: ts =>
    if W.fitting b column ts = [] then [] else .code text :: W.fitting b column ts
  | column, .char c :: ts =>
    if column < b ∧ column + W.graphemeWidth c ≤ b then
      .char c :: W.fitting b (column + W.graphemeWidth c) ts
    else []

theorem upTo_of_le (h : e ≤ column) : W.upTo e column ts = [] := by
  cases ts with
  | nil => rfl
  | cons t ts => exact if_neg (Nat.not_lt.2 h)

theorem upTo_code (h : column < e) (text : List Char) (ts : List Token) :
    W.upTo e column (.code text :: ts) = .code text :: W.upTo e column ts := if_pos h

theorem upTo_char (h : column < e) (c : Char) (ts : List Token) :
    W.upTo e column (.char c :: ts) = .char c :: W.upTo e (column + W.graphemeWidth c) ts :=
  if_pos h

theorem upTo_isPrefix (W : Widths) (e column : Nat) (ts : List Token) :
    W.upTo e column ts <+: ts := by
  fun_induction Widths.upTo W e column ts with
  | case1 => exact prefix_refl _
  | case2 column t ts hlt ih => exact (prefix_cons_inj t).2 ih
  | case3 column t ts hge => exact nil_prefix

theorem fitting_isPrefix (W : Widths) (b column : Nat) (ts : List Token) :
    W.fitting b column ts <+: ts := by
  fun_induction Widths.fitting W b column ts with
  | case1 => exact prefix_refl _
  | case2 column text ts hnil ih => exact nil_prefix
  | case3 column text ts hne ih => exact (prefix_cons_inj _).2 ih
  | case4 column c ts hfits ih => exact (prefix_cons_inj _).2 ih
  | case5 column c ts hnot => exact nil_prefix

theorem splitAt_append (W : Widths) (a column : Nat) (ts : List Token) :
    (W.splitAt a column ts).1 ++ (W.splitAt a column ts).2 = ts := by
  fun_induction Widths.splitAt W a column ts with
  | case1 => rfl
  | case2 column text ts ih => exact congrArg _ ih
  | case3 column c ts hle => rfl
  | case4 column c ts hlt ih => exact congrArg _ ih

theorem fitting_of_le (h : b ≤ column) : W.fitting b column ts = [] := by
  induction ts with
  | nil => rfl
  | cons t ts ih =>
    cases t with
    | code text => exact if_pos ih
    | char c => exact if_neg fun hlt => absurd hlt.1 (Nat.not_lt.2 h)

/-- Escape sequences in front of a character that fits. -/
theorem fitting_codes {codes : List Token} (h : ∀ t ∈ codes, t.char? = none)
    (hne : W.fitting b column ts ≠ []) :
    W.fitting b column (codes ++ ts) = codes ++ W.fitting b column ts := by
  induction codes with
  | nil => rfl
  | cons t codes ih =>
    obtain ⟨ht, hcodes⟩ := forall_mem_cons.1 h
    cases t with
    | char c => cases ht
    | code text =>
      rw [cons_append, Widths.fitting, ih hcodes, if_neg (by simp [hne])]
      rfl

theorem fitting_codes_nil {codes : List Token} (h : ∀ t ∈ codes, t.char? = none)
    (hnil : W.fitting b column ts = []) : W.fitting b column (codes ++ ts) = [] := by
  induction codes with
  | nil => exact hnil
  | cons t codes ih =>
    obtain ⟨ht, hcodes⟩ := forall_mem_cons.1 h
    cases t with
    | char c => cases ht
    | code text => exact if_pos (ih hcodes)

theorem cells_upTo (e column : Nat) (style : T.Style) (ts : List Token) :
    W.cells T column style (W.upTo e column ts) =
      (W.cells T column style ts).filter fun cell => cell.column < e := by
  induction ts generalizing column style with
  | nil => rfl
  | cons t ts ih =>
    by_cases hlt : column < e
    · cases t with
      | code text =>
        rw [Widths.upTo, if_pos hlt]
        exact ih column (T.read style text)
      | char c =>
        have hrest := ih (column + W.graphemeWidth c) style
        rw [Widths.upTo, if_pos hlt]
        refine (congrArg _ hrest).trans ?_
        simp [Widths.cells, hlt]
    · rw [upTo_of_le (Nat.not_lt.1 hlt)]
      refine (filter_eq_nil_iff.2 fun cell hcell => ?_).symm
      have := (mem_cells hcell).1
      simpa using by omega

theorem cells_fitting (b column : Nat) (style : T.Style) (ts : List Token) :
    W.cells T column style (W.fitting b column ts) =
      (W.cells T column style ts).filter fun cell => cell.column < b ∧ W.stop cell ≤ b := by
  induction ts generalizing column style with
  | nil => rfl
  | cons t ts ih =>
    cases t with
    | code text =>
      rw [Widths.cells, ← ih, Widths.fitting]
      split_ifs with hnil
      · rw [hnil]
        rfl
      · rfl
    | char c =>
      rw [Widths.fitting]
      split_ifs with hfits
      · have hrest := ih (column + W.graphemeWidth c) style
        refine (congrArg _ hrest).trans ?_
        simp [Widths.cells, Widths.stop, hfits]
      · refine (filter_eq_nil_iff.2 fun cell hcell => ?_).symm
        rw [decide_eq_true_iff]
        rcases mem_cons.1 hcell with rfl | hcell
        · exact hfits
        · -- what follows a character that does not fit begins behind the border
          have := (mem_cells hcell).1
          omega

theorem cells_splitAt (a column : Nat) (style : T.Style) (ts : List Token) :
    (∀ cell ∈ W.cells T column style (W.splitAt a column ts).1, cell.column < a) ∧
      ((W.splitAt a column ts).2 = [] ∨
        a ≤ column + W.width (W.splitAt a column ts).1 ∧
          ∃ c rest, (W.splitAt a column ts).2 = .char c :: rest) := by
  induction ts generalizing column style with
  | nil => exact ⟨nofun, .inl rfl⟩
  | cons t ts ih =>
    cases t with
    | code text => exact ih column (T.read style text)
    | char c =>
      rw [Widths.splitAt]
      split_ifs with hle
      · exact ⟨nofun, .inr ⟨hle, c, ts, rfl⟩⟩
      · obtain ⟨hfront, hbehind⟩ := ih (column + W.graphemeWidth c) style
        rw [Nat.add_assoc] at hbehind
        refine ⟨fun cell hcell => ?_, hbehind⟩
        rcases mem_cons.1 hcell with rfl | hcell
        · exact Nat.not_le.1 hle
        · exact hfront cell hcell

/-! ## The overlay -/

/-- The slice from the left takes the tokens up to the last column. -/
theorem slice_spec {s : Slice} (hcol : s.currentCol < e)
    (hfits : s.currentCol + W.width ts ≤ e) (hpending : s.pendingAnsi = []) :
    (W.slice 0 e true ts s).result = s.result ++ W.upTo e s.currentCol ts ∧
      (W.slice 0 e true ts s).resultWidth =
        s.resultWidth + W.width (W.upTo e s.currentCol ts) := by
  induction ts generalizing s with
  | nil => exact ⟨(append_nil _).symm, rfl⟩
  | cons t ts ih =>
    cases t with
    | code text =>
      have hcode : s.code 0 e text = { s with result := s.result ++ [.code text] } :=
        if_pos ⟨Nat.zero_le _, hcol⟩
      have hrest := @ih (s.code 0 e text) (by rw [hcode]; exact hcol) (by rw [hcode]; exact hfits)
        (by rw [hcode]; exact hpending)
      rw [hcode] at hrest
      rw [Widths.slice, hcode, upTo_code hcol, hrest.1, hrest.2]
      exact ⟨append_assoc _ _ _, rfl⟩
    | char c =>
      rw [W.width_char, ← Nat.add_assoc] at hfits
      have hchar : s.char 0 e true c (W.graphemeWidth c) =
          ⟨s.result ++ [.char c], s.resultWidth + W.graphemeWidth c,
            s.currentCol + W.graphemeWidth c, []⟩ := by
        rw [Slice.char, if_pos ⟨⟨Nat.zero_le _, hcol⟩, fun _ => by omega⟩, hpending, append_nil]
      rw [Widths.slice, hchar, upTo_char hcol]
      by_cases hstop : e ≤ s.currentCol + W.graphemeWidth c
      · simp [hstop, upTo_of_le hstop]
      · obtain ⟨hresult, hwidth⟩ := @ih ⟨s.result ++ [.char c], s.resultWidth + W.graphemeWidth c,
          s.currentCol + W.graphemeWidth c, []⟩ (Nat.not_le.1 hstop) hfits rfl
        rw [if_neg hstop, hresult, hwidth, W.width_char]
        exact ⟨append_assoc _ _ _, Nat.add_assoc _ _ _⟩

/-- **An overlay that fits is taken, but for characters behind its last column.** -/
theorem sliceWithWidth_spec {line : List Char} {w : Nat} (hfits : W.width (tokens line) ≤ w) :
    W.sliceWithWidth line 0 w true =
      (W.upTo w 0 (tokens line), W.width (W.upTo w 0 (tokens line))) := by
  unfold Widths.sliceWithWidth
  split_ifs with hzero
  · rw [hzero, upTo_of_le (Nat.le_refl 0)]
    rfl
  · obtain ⟨hresult, hwidth⟩ := @slice_spec W (tokens line) (0 + w) {}
      (by rw [Nat.zero_add]; exact Nat.pos_of_ne_zero hzero) (by simpa using hfits) rfl
    simp only [hresult, hwidth]
    simp

/-! ## The base line -/

/-- What the loop over the base line keeps up about its columns. -/
structure Segments.Counted (W : Widths) (s : Segments) : Prop where
  before : W.width s.before = s.beforeWidth
  after : W.width s.after = s.afterWidth
  pending : ∀ t ∈ s.pendingAnsiBefore, t.char? = none

variable {s : Segments}

theorem Segments.Counted.code (h : s.Counted W) (b a e : Nat) (text : List Char) :
    (s.code b a e text).Counted W := by
  unfold Segments.code
  dsimp only
  split_ifs
  · exact ⟨h.before, h.after, forall_mem_append.2 ⟨h.pending, by simp [Token.char?]⟩⟩
  · exact ⟨h.before, by simp [h.after], h.pending⟩
  · exact ⟨h.before, h.after, h.pending⟩

theorem Segments.Counted.char (h : s.Counted W) (b a e : Nat) (strict : Bool) (c : Char) :
    (s.char b a e strict c (W.graphemeWidth c)).Counted W := by
  unfold Segments.char
  dsimp only
  split_ifs
  · exact ⟨by simp [h.before, W.width_codes h.pending], h.after, nofun⟩
  · exact ⟨h.before, by simp [h.after], h.pending⟩
  · refine ⟨h.before, ?_, h.pending⟩
    simp [h.after, W.width_codes (AnsiCodeTracker.char?_activeCodes s.tracker)]
  · exact ⟨h.before, h.after, h.pending⟩

theorem Segments.Counted.extract (h : s.Counted W) (b a len : Nat) (strict : Bool)
    (ts : List Token) : (W.extract b a len strict ts s).Counted W := by
  fun_induction Widths.extract W b a len strict ts s with
  | case1 s => exact h
  | case2 text ts s ih => exact ih (h.code b a (a + len) text)
  | case3 c ts s next hstop => exact h.char b a (a + len) strict c
  | case4 c ts s next hgoes ih => exact ih (h.char b a (a + len) strict c)

/-- **In front of the overlay the characters that fit are taken, with the codes between them.** -/
theorem extract_before (hba : b ≤ a) (hs : s.Counted W) :
    (W.extract b a len true ts s).before =
      s.before ++ W.fitting b s.currentCol (s.pendingAnsiBefore ++ ts) := by
  induction ts generalizing s with
  | nil => rw [fitting_codes_nil hs.pending rfl, append_nil]; rfl
  | cons t ts ih =>
    cases t with
    | code text =>
      rw [Widths.extract, ih (hs.code b a (a + len) text)]
      unfold Segments.code
      dsimp only
      split_ifs with hcol
      · rw [append_assoc]
        rfl
      all_goals simp only [fitting_of_le (Nat.not_lt.1 hcol)]
    | char c =>
      obtain ⟨next, hnext⟩ : ∃ next, next = s.char b a (a + len) true c (W.graphemeWidth c) :=
        ⟨_, rfl⟩
      have hcounted : next.Counted W := hnext ▸ hs.char b a (a + len) true c
      rw [Widths.extract, ← hnext]
      by_cases hfit : s.currentCol < b ∧ s.currentCol + W.graphemeWidth c ≤ b
      · have hchar : W.fitting b s.currentCol (.char c :: ts) =
            .char c :: W.fitting b (s.currentCol + W.graphemeWidth c) ts := if_pos hfit
        rw [fitting_codes hs.pending (by simp [hchar]), hchar]
        rw [Segments.char, if_pos hfit] at hnext
        have hcolumn : next.currentCol = s.currentCol + W.graphemeWidth c := by rw [hnext]
        have hbefore : next.before = s.before ++ s.pendingAnsiBefore ++ [.char c] := by rw [hnext]
        have hpending : next.pendingAnsiBefore = [] := by rw [hnext]
        have hrest : (W.extract b a len true ts next).before = s.before ++
            (s.pendingAnsiBefore ++ .char c ::
              W.fitting b (s.currentCol + W.graphemeWidth c) ts) := by
          simp [ih hcounted, hcolumn, hbefore, hpending]
        by_cases hstop : (if len = 0 then b else a + len) ≤ next.currentCol
        · have hover : b ≤ s.currentCol + W.graphemeWidth c := by split_ifs at hstop <;> omega
          rw [if_pos hstop, hbefore, fitting_of_le hover]
          simp
        · rw [if_neg hstop]
          exact hrest
      · have hchar : W.fitting b s.currentCol (.char c :: ts) = [] := if_neg hfit
        have hover : b ≤ s.currentCol + W.graphemeWidth c := by omega
        have hfields : next.before = s.before ∧
            next.currentCol = s.currentCol + W.graphemeWidth c := by
          rw [hnext]
          unfold Segments.char
          dsimp only
          split_ifs <;> exact ⟨rfl, rfl⟩
        have hrest : (W.extract b a len true ts next).before = s.before := by
          rw [ih hcounted, hfields.1, hfields.2, fitting_of_le hover, append_nil]
        rw [fitting_codes_nil hs.pending hchar, append_nil]
        split_ifs <;> first | exact hfields.1 | exact hrest

/-- Codes are not taken behind the overlay before a character is. -/
theorem Segments.code_fresh (b a e : Nat) (text : List Char) (hfresh : s.afterStarted = false) :
    (s.code b a e text).after = s.after ∧ (s.code b a e text).currentCol = s.currentCol ∧
      (s.code b a e text).afterStarted = false ∧
      (s.code b a e text).tracker = s.tracker.process text := by
  unfold Segments.code
  dsimp only
  split_ifs with hcol hin
  · exact ⟨rfl, rfl, hfresh, rfl⟩
  · exact absurd (hfresh.symm.trans hin.2) Bool.false_ne_true
  · exact ⟨rfl, rfl, hfresh, rfl⟩

/-- Where there is no room behind the overlay, nothing is taken. -/
theorem extract_nothing (hfresh : s.afterStarted = false) :
    (W.extract b a 0 true ts s).after = s.after := by
  have hchar : ∀ {s : Segments} (c : Char), s.afterStarted = false →
      (s.char b a (a + 0) true c (W.graphemeWidth c)).after = s.after ∧
        (s.char b a (a + 0) true c (W.graphemeWidth c)).afterStarted = false := by
    intro s c hfresh
    unfold Segments.char
    dsimp only
    split_ifs <;> first | exact ⟨rfl, hfresh⟩ | omega
  induction ts generalizing s with
  | nil => rfl
  | cons t ts ih =>
    cases t with
    | code text =>
      obtain ⟨hafter, -, hstill, -⟩ := Segments.code_fresh b a (a + 0) text hfresh
      exact (ih hstill).trans hafter
    | char c =>
      obtain ⟨hafter, hstill⟩ := hchar c hfresh
      rw [Widths.extract]
      split_ifs <;> first | exact hafter | exact (ih hstill).trans hafter

/-- Behind the overlay all is taken, once it has begun. -/
theorem extract_started (hba : b ≤ a) (hstarted : s.afterStarted = true) (hcol : a ≤ s.currentCol)
    (hlt : s.currentCol < a + len) (hfits : s.currentCol + W.width ts ≤ a + len) :
    (W.extract b a len true ts s).after = s.after ++ W.upTo (a + len) s.currentCol ts := by
  induction ts generalizing s with
  | nil => exact (append_nil _).symm
  | cons t ts ih =>
    have hbefore : ¬s.currentCol < b := by omega
    cases t with
    | code text =>
      obtain ⟨next, hnext⟩ : ∃ next : Segments, next =
          { s with tracker := s.tracker.process text, after := s.after ++ [.code text] } := ⟨_, rfl⟩
      have hcode : s.code b a (a + len) text = next := by
        rw [Segments.code, hnext]
        simp only [if_neg hbefore]
        exact if_pos ⟨⟨hcol, hlt⟩, hstarted⟩
      have hrest := @ih next (hnext ▸ hstarted) (hnext ▸ hcol) (hnext ▸ hlt) (hnext ▸ hfits)
      rw [Widths.extract, hcode, upTo_code hlt, hrest, hnext]
      exact append_assoc _ _ _
    | char c =>
      rw [W.width_char, ← Nat.add_assoc] at hfits
      obtain ⟨next, hnext⟩ : ∃ next : Segments, next =
          { s with
            after := s.after ++ [.char c]
            afterStarted := true
            afterWidth := s.afterWidth + W.graphemeWidth c
            currentCol := s.currentCol + W.graphemeWidth c } := ⟨_, rfl⟩
      have hchar : s.char b a (a + len) true c (W.graphemeWidth c) = next := by
        rw [Segments.char, if_neg fun hin => hbefore hin.1,
          if_pos ⟨⟨hcol, hlt⟩, fun _ => by omega⟩, hstarted, hnext]
        simp
      have hcolumn : next.currentCol = s.currentCol + W.graphemeWidth c := by rw [hnext]
      have hafter : next.after = s.after ++ [.char c] := by rw [hnext]
      rw [Widths.extract, hchar, upTo_char hlt]
      simp only [hcolumn, if_neg (by omega : len ≠ 0)]
      split_ifs with hstop
      · rw [upTo_of_le hstop, hafter]
      · have hrest := @ih next (by rw [hnext]) (by omega) (by omega) (by omega)
        rw [hrest, hcolumn, hafter]
        exact append_assoc _ _ _

/-- **Behind the overlay the first character brings the codes along that the tracker replays.** -/
theorem extract_after (hba : b ≤ a) (hlen : len ≠ 0) (hfresh : s.afterStarted = false)
    (hlt : s.currentCol < a + len) (hfits : s.currentCol + W.width ts ≤ a + len)
    {front behind : List Token}
    (hsplit : W.splitAt a s.currentCol (W.upTo (a + len) s.currentCol ts) = (front, behind)) :
    (W.extract b a len true ts s).after =
      s.after ++ if behind = [] then [] else (s.tracker.after front).getActiveCodes ++ behind := by
  induction ts generalizing s front behind with
  | nil =>
    cases hsplit
    exact (append_nil _).symm
  | cons t ts ih =>
    cases t with
    | code text =>
      rw [upTo_code hlt, Widths.splitAt] at hsplit
      obtain ⟨rfl, rfl⟩ := Prod.mk.inj hsplit
      obtain ⟨hafter, hcol, hstill, htracker⟩ := Segments.code_fresh b a (a + len) text hfresh
      have hrest := @ih (s.code b a (a + len) text) hstill (by rwa [hcol]) (by rwa [hcol]) _ _
        (by rw [hcol])
      rw [Widths.extract, hrest, hafter, htracker]
      rfl
    | char c =>
      rw [W.width_char, ← Nat.add_assoc] at hfits
      rw [upTo_char hlt] at hsplit
      rw [Widths.extract]
      simp only [if_neg hlen]
      obtain ⟨next, hnext⟩ : ∃ next, next = s.char b a (a + len) true c (W.graphemeWidth c) :=
        ⟨_, rfl⟩
      rw [← hnext]
      by_cases hcol : a ≤ s.currentCol
      · rw [Segments.char, if_neg (by omega), if_pos ⟨⟨hcol, hlt⟩, fun _ => by omega⟩,
          hfresh] at hnext
        have hcolumn : next.currentCol = s.currentCol + W.graphemeWidth c := by rw [hnext]
        have hafter : next.after = s.after ++ s.tracker.getActiveCodes ++ [.char c] := by
          rw [hnext]
          rfl
        rw [Widths.splitAt, if_pos hcol] at hsplit
        obtain ⟨rfl, rfl⟩ := Prod.mk.inj hsplit
        rw [if_neg (cons_ne_nil _ _)]
        split_ifs with hstop
        · rw [upTo_of_le (hcolumn ▸ hstop), hafter, append_assoc]
          rfl
        · rw [extract_started hba (by rw [hnext]) (by omega) (by omega) (by omega), hcolumn, hafter,
            append_assoc, append_assoc]
          rfl
      · have hfields : next.after = s.after ∧
            next.currentCol = s.currentCol + W.graphemeWidth c ∧
            next.afterStarted = false ∧ next.tracker = s.tracker := by
          rw [hnext]
          unfold Segments.char
          dsimp only
          split_ifs with hfit hin
          · exact ⟨rfl, rfl, hfresh, rfl⟩
          · exact absurd hin.1.1 hcol
          · exact absurd hin.1.1 hcol
          · exact ⟨rfl, rfl, hfresh, rfl⟩
        obtain ⟨hafter, hcolumn, hstill, htracker⟩ := hfields
        rw [Widths.splitAt, if_neg hcol] at hsplit
        obtain ⟨rfl, rfl⟩ := Prod.mk.inj hsplit
        by_cases hstop : a + len ≤ next.currentCol
        · rw [if_pos hstop, hafter, upTo_of_le (hcolumn ▸ hstop), Widths.splitAt, if_pos rfl,
            append_nil]
        · have hrest := @ih next hstill (by omega) (by omega) _ _ (by rw [hcolumn])
          rw [if_neg hstop, hrest, hafter, htracker]
          rfl

/-! ## Characters that are shown again -/

theorem length_styles (style : T.Style) (ts : List Token) :
    (T.styles style ts).length = (ts.filterMap Token.char?).length := by
  fun_induction Emulator.styles T style ts with
  | case1 => rfl
  | case2 style text ts ih => exact ih
  | case3 style c ts ih => exact congrArg (· + 1) ih

theorem styles_append (style : T.Style) (ts us : List Token) :
    T.styles style (ts ++ us) = T.styles style ts ++ T.styles (T.after style ts) us := by
  fun_induction Emulator.styles T style ts with
  | case1 => rfl
  | case2 style text ts ih => exact ih
  | case3 style c ts ih => exact congrArg _ ih

theorem styles_blanks (style : T.Style) (n : Nat) :
    T.styles style (blanks n) = replicate n style := by
  induction n with
  | zero => rfl
  | succ n ih => exact congrArg _ ih

/-- Blanks in some styles. -/
def row {Style : Type} : Nat → List Style → List (Cell Style)
  | _, [] => []
  | column, style :: styles => ⟨column, ' ', style⟩ :: row (column + 1) styles

theorem cells_eq_row (h : ∀ c ∈ ts.filterMap Token.char?, c = ' ') :
    W.cells T column style ts = row column (T.styles style ts) := by
  fun_induction Widths.cells W T column style ts with
  | case1 => rfl
  | case2 column style text ts ih => exact ih h
  | case3 column style c ts ih =>
    obtain ⟨rfl, hrest⟩ := forall_mem_cons.1 h
    rw [ih hrest, W.width_blank]
    rfl

theorem le_of_mem_row {Style : Type} {cell : Cell Style} {styles : List Style}
    (h : cell ∈ row column styles) : column ≤ cell.column := by
  induction styles generalizing column with
  | nil => cases h
  | cons style styles ih =>
    rcases mem_cons.1 h with rfl | h
    · exact Nat.le_refl _
    · exact Nat.le_of_succ_le (ih h)

theorem not_sublist_row {Style : Type} (column : Nat) (x : Style) (xs ys : List Style) :
    ¬row column (x :: xs) <+ row (column + 1) ys := fun hsub =>
  absurd (le_of_mem_row (hsub.subset mem_cons_self)) (Nat.not_succ_le_self column)

/-- A row of blanks is part of another one exactly if it is found at its columns. -/
theorem row_sublist_iff {Style : Type} (column gap : Nat) (xs ys : List Style) :
    row (column + gap) xs <+ row column ys ↔ xs <+: ys.drop gap := by
  induction gap generalizing column ys with
  | zero =>
    rw [Nat.add_zero, drop_zero]
    induction xs generalizing column ys with
    | nil => simp [row]
    | cons x xs ih =>
      cases ys with
      | nil => simp [row]
      | cons y ys =>
        have hnot := not_sublist_row column x xs ys
        rw [row] at hnot
        rw [row, row, cons_sublist_cons', cons_prefix_cons, ih]
        simp [hnot]
  | succ gap ih =>
    cases ys with
    | nil => cases xs <;> simp [row]
    | cons y ys =>
      rw [row, drop_succ_cons, ← ih, Nat.add_right_comm column 1 gap, ← Nat.add_assoc]
      refine ⟨fun hsub => ?_, fun hsub => hsub.cons _⟩
      cases xs with
      | nil => exact nil_sublist _
      | cons x xs =>
        rw [row, cons_sublist_cons'] at hsub
        rcases hsub with hsub | ⟨heq, -⟩
        · exact hsub
        · have := congrArg Cell.column heq
          simp only at this
          omega

/-- What is shown again further left can only be blank. -/
theorem blank_of_sublist (hgap : gap ≠ 0)
    (h : W.cells T (column + gap) style ts <+ W.cells T column shown (ts ++ blanks n)) :
    ∀ c ∈ ts.filterMap Token.char?, c = ' ' := by
  have hcells : ∀ k, ∀ cell ∈ W.cells T (column + gap) style ts,
      column + gap + W.width ts - cell.column ≤ k → cell.char = ' ' := by
    intro k
    induction k using Nat.strongRecOn with
    | ind k ih =>
      intro cell hcell hk
      have hshown := h.subset hcell
      rw [cells_append] at hshown
      rcases mem_append.1 hshown with hshown | hblank
      · -- it is another character that is shown there, which is further right
        obtain ⟨other, hother, hcolumn, hchar⟩ := cells_moved gap style hshown
        have hle : other.column ≤ W.stop other := Nat.le_add_right _ _
        have := (mem_cells hother).2
        rw [← hchar]
        exact ih (k - gap) (by omega) other hother (by omega)
      · exact (mem_blanks hblank).1
  intro c hc
  rw [← map_char_cells (W := W) (column + gap) style ts] at hc
  obtain ⟨cell, hcell, rfl⟩ := mem_map.1 hc
  exact hcells _ cell hcell (Nat.le_refl _)

/-- **What is shown again further left, and filled up, is kept exactly if it is covered.** -/
theorem sublist_iff {c : Char} (hgap : gap ≤ n) :
    W.cells T (column + gap) style (.char c :: ts) <+
        W.cells T column shown (.char c :: ts ++ blanks n) ↔
      T.Covers gap style shown (.char c :: ts) := by
  unfold Emulator.Covers
  split_ifs with hzero
  · subst hzero
    rw [Nat.add_zero, cells_append]
    refine ⟨fun hsub => ?_, fun heq => heq ▸ sublist_append_left _ _⟩
    -- none of the blanks that fill up lies in front of the end of the characters
    obtain ⟨xs, ys, hsplit, hxs, hys⟩ := sublist_append_iff.1 hsub
    have hnil : ys = [] := by
      refine eq_nil_iff_forall_not_mem.2 fun cell hcell => ?_
      have hleft := (mem_cells (hsplit ▸ mem_append_right xs hcell)).2
      obtain ⟨hchar, hright, -⟩ := mem_blanks (hys.subset hcell)
      rw [Widths.stop, hchar, W.width_blank] at hleft
      omega
    rw [hnil, append_nil] at hsplit
    have hlength : ∀ style, (W.cells T column style (.char c :: ts)).length =
        ((Token.char c :: ts).filterMap Token.char?).length := fun style => by
      rw [← map_char_cells (W := W) column style, length_map]
    have hall := hxs.eq_of_length (hsplit ▸ (hlength style).trans (hlength shown).symm)
    rw [← hsplit] at hall
    exact (congrArg Cell.style (List.cons.inj hall).1).symm
  · obtain ⟨rest, rfl⟩ := Nat.exists_eq_add_of_le hgap
    have hsame : (∀ d ∈ (Token.char c :: ts).filterMap Token.char?, d = ' ') →
        (W.cells T (column + gap) style (.char c :: ts) <+
            W.cells T column shown (.char c :: ts ++ blanks (gap + rest)) ↔
          T.styles style (.char c :: ts) = (T.styles shown (.char c :: ts) ++
            replicate gap (T.after shown (.char c :: ts))).drop gap) := by
      intro hblank
      have hfilled : ∀ d ∈ (Token.char c :: ts ++ blanks (gap + rest)).filterMap Token.char?,
          d = ' ' := by
        intro d hd
        rw [filterMap_append, blanks, filterMap_replicate] at hd
        rcases mem_append.1 hd with hd | hd
        · exact hblank d hd
        · exact eq_of_mem_replicate hd
      rw [cells_eq_row hblank, cells_eq_row hfilled, row_sublist_iff, styles_append, styles_blanks,
        replicate_add, ← append_assoc, drop_append_of_le_length (by simp),
        prefix_iff_eq_take, take_left']
      simp [length_styles]
    refine ⟨fun hsub => ?_, fun ⟨hblank, hstyles⟩ => (hsame hblank).2 hstyles⟩
    have hblank := blank_of_sublist hzero hsub
    exact ⟨hblank, (hsame hblank).1 hsub⟩

/-! ## The composed line -/

theorem styled_blanks (n : Nat) : ∀ t ∈ blanks n, t.Styled := by
  intro t ht
  rw [eq_of_mem_replicate ht]
  exact (by decide : ' ' ≠ escape)

/-- A segment that is filled up to a width and closed. -/
def Widths.filled (W : Widths) (n : Nat) (ts : List Token) : List Token :=
  ts ++ blanks (n - W.width ts) ++ resetTokens

theorem Widths.width_filled (h : W.width ts ≤ n) : W.width (W.filled n ts) = n := by
  have hreset : W.width resetTokens = 0 := rfl
  rw [filled, W.width_append, W.width_append, W.width_blanks, hreset]
  omega

theorem after_filled (style : T.Style) (n : Nat) (ts : List Token) :
    T.after style (W.filled n ts) = T.plain := by
  rw [Widths.filled, Emulator.after, readCodes_append]
  exact T.reset _

theorem cells_filled (column : Nat) (style : T.Style) (n : Nat) (ts : List Token) :
    W.cells T column style (W.filled n ts) = W.cells T column style ts ++
      W.cells T (column + W.width ts) (T.after style ts) (blanks (n - W.width ts)) := by
  rw [Widths.filled, cells_append, cells_append]
  exact append_nil _

theorem complete_filled (h : ∀ t ∈ ts, t.Styled) : ∀ t ∈ W.filled n ts, t.Complete :=
  forall_mem_append.2 ⟨forall_mem_append.2 ⟨fun t ht => (h t ht).complete,
    fun t ht => (styled_blanks _ t ht).complete⟩, by decide⟩

/-- What is shown behind the overlay, in front of the blanks that fill up the line. -/
def replayed (front behind : List Token) : List Token :=
  if behind = [] then [] else (AnsiCodeTracker.after {} front).getActiveCodes ++ behind

theorem width_replayed (front behind : List Token) :
    W.width (replayed front behind) = W.width behind := by
  unfold replayed
  split_ifs with hnil
  · rw [hnil]
  · rw [W.width_append, W.width_codes (AnsiCodeTracker.char?_activeCodes _), Nat.zero_add]

section
variable {base overlay : List Char} {front behind : List Token}

/-- What begins behind a column. -/
theorem splitAt_spec (hsplit : W.splitAt a 0 (W.upTo e 0 (tokens base)) = (front, behind)) :
    front ++ behind <+: tokens base ∧
      (W.lineCells T base).filter (fun cell => cell.column < e) = W.cells T 0 T.plain front ++
        W.cells T (W.width front) (T.after T.plain front) behind ∧
      (∀ cell ∈ W.cells T 0 T.plain front, cell.column < a) ∧
      (behind = [] ∨ a ≤ W.width front ∧ W.width front < e ∧
        ∃ c rest, behind = .char c :: rest) := by
  have happend := splitAt_append W a 0 (W.upTo e 0 (tokens base))
  obtain ⟨hfront, hbehind⟩ := cells_splitAt (W := W) a 0 T.plain (W.upTo e 0 (tokens base))
  rw [hsplit] at happend hfront hbehind
  have hcells := cells_upTo (W := W) e 0 T.plain (tokens base)
  rw [← happend, cells_append, Nat.zero_add] at hcells
  refine ⟨happend ▸ upTo_isPrefix W e 0 (tokens base), hcells.symm, hfront, ?_⟩
  rcases hbehind with hnil | ⟨hle, c, rest, rfl⟩
  · exact .inl hnil
  · rw [Nat.zero_add] at hle
    -- the first character is one of those that begin in front of the limit
    have hfirst : (⟨W.width front, c, T.after T.plain front⟩ : Cell T.Style) ∈
        (W.cells T 0 T.plain (tokens base)).filter fun cell => cell.column < e := by
      rw [← hcells]
      exact mem_append_right _ mem_cons_self
    exact .inr ⟨hle, of_decide_eq_true (mem_filter.1 hfirst).2, c, rest, rfl⟩

/-- What the loop over a base line leaves. -/
theorem extractSegments_spec (hba : b ≤ a) (hfits : W.width (tokens base) ≤ a + len)
    (hsplit : W.splitAt a 0 (W.upTo (a + len) 0 (tokens base)) = (front, behind)) :
    let r := W.extractSegments base b a len true
    r.Counted W ∧ r.before = W.fitting b 0 (tokens base) ∧ r.after = replayed front behind := by
  have hstart : Segments.Counted W {} := ⟨rfl, rfl, nofun⟩
  refine ⟨hstart.extract b a len true _, extract_before hba hstart, ?_⟩
  unfold Widths.extractSegments
  by_cases hlen : len = 0
  · subst hlen
    rw [extract_nothing rfl]
    rcases (splitAt_spec (T := sampleEmulator) hsplit).2.2.2 with rfl | ⟨hle, hlt, -⟩
    · rfl
    · omega
  · by_cases hzero : 0 < a + len
    · exact extract_after hba hlen rfl hzero (by simpa using hfits) hsplit
    · omega

/-- The characters that are shown behind the overlay, and the blanks that fill up the line. -/
def Widths.right (W : Widths) (T : Emulator) (a len : Nat) (front behind : List Token) :
    List (Cell T.Style) :=
  W.cells T a T.plain (replayed front behind ++ blanks (len - W.width behind))

/-- What the composed line consists of. -/
structure Layout (W : Widths) (T : Emulator) (base overlay : List Char) (b w len : Nat)
    (front behind : List Token) (result : List Char) (left middle : List (Cell T.Style)) :
    Prop where
  width : W.visibleWidth result = b + w + len
  split : W.splitAt (b + w) 0 (W.upTo (b + w + len) 0 (tokens base)) = (front, behind)
  fits : W.width front + W.width behind ≤ b + w + len
  leftBlank : ∀ cell ∈ left, cell.char = ' ' ∧ cell.column < b
  middleBlank : ∀ cell ∈ middle, cell.char = ' ' ∧ b ≤ cell.column ∧ cell.column < b + w
  cells : W.lineCells T result =
    ((W.lineCells T base).filter fun cell => cell.column < b ∧ W.stop cell ≤ b) ++ (left ++
      (((W.lineCells T overlay).filter fun cell => cell.column < w).map (Cell.shift b) ++ middle) ++
    W.right T (b + w) len front behind)

/-- **The composed line has its parts at their columns.** -/
theorem compositeLineAt_layout {w : Nat} (hbase : ∀ t ∈ tokens base, t.Styled)
    (hoverlay : ∀ t ∈ tokens overlay, t.Styled) (himage : isImageLine base = false)
    (hbw : W.width (tokens base) ≤ b + w + len) (how : W.width (tokens overlay) ≤ w)
    (hsplit : W.splitAt (b + w) 0 (W.upTo (b + w + len) 0 (tokens base)) = (front, behind)) :
    ∃ left middle, Layout W T base overlay b w len front behind
      (W.compositeLineAt base overlay b w (b + w + len)) left middle := by
  obtain ⟨hcounted, hbefore, hafter⟩ := extractSegments_spec (Nat.le_add_right b w) hbw hsplit
  obtain ⟨hbehind, -⟩ := splitAt_spec (T := T) hsplit
  obtain ⟨r, hr⟩ : ∃ r, W.extractSegments base b (b + w) len true = r := ⟨_, rfl⟩
  rw [hr] at hcounted hbefore hafter
  obtain ⟨shown, hshown⟩ : ∃ ts, ts = W.upTo w 0 (tokens overlay) := ⟨_, rfl⟩
  have hslice := sliceWithWidth_spec how
  rw [← hshown] at hslice
  have hle : ∀ {us ts : List Token}, us <+: ts → W.width us ≤ W.width ts := by
    rintro us _ ⟨rest, rfl⟩
    exact (W.width_append us rest).symm ▸ Nat.le_add_right _ _
  have hshownWidth : W.width shown ≤ w := Nat.le_trans (hle (hshown ▸ upTo_isPrefix W w 0 _)) how
  have hbeforeWidth : W.width r.before ≤ b := by
    -- the last character that is taken ends in front of the overlay
    have hfitting : ∀ (column : Nat) (ts : List Token), column ≤ b →
        column + W.width (W.fitting b column ts) ≤ b := by
      intro column ts hcolumn
      fun_induction Widths.fitting W b column ts with
      | case1 | case2 | case5 => exact hcolumn
      | case3 column text ts hne ih => exact ih hcolumn
      | case4 column c ts hfit ih =>
        rw [W.width_char, ← Nat.add_assoc]
        exact ih hfit.2
    have := hfitting 0 (tokens base) (Nat.zero_le b)
    rwa [Nat.zero_add, ← hbefore] at this
  have hafterWidth : W.width r.after = W.width behind := by rw [hafter, width_replayed]
  have hprefix := hle hbehind
  rw [W.width_append] at hprefix
  have hbehindWidth : W.width behind ≤ len := by
    rcases (splitAt_spec (T := T) hsplit).2.2.2 with rfl | ⟨hcolumn, -⟩
    · exact Nat.zero_le _
    · omega
  obtain ⟨tail, htail⟩ : ∃ ts, ts = r.after ++ blanks (len - r.afterWidth) := ⟨_, rfl⟩
  obtain ⟨u, hu⟩ : ∃ u, u = W.filled b r.before ++ (W.filled w shown ++ tail) := ⟨_, rfl⟩
  have hcompose : compose r (shown, W.width shown) b w (b + w + len) = u := by
    have htarget : b + w + len - b - w = len := by omega
    rw [hcounted.before] at hbeforeWidth
    simp only [compose, Nat.max_eq_left hbeforeWidth, Nat.max_eq_left hshownWidth, htarget, hu,
      htail, Widths.filled, hcounted.before, append_assoc]
  have huWidth : W.width u = b + w + len := by
    rw [hu, W.width_append, W.width_append, W.width_filled hbeforeWidth,
      W.width_filled hshownWidth, htail, W.width_append, W.width_blanks, ← hcounted.after]
    omega
  have htidy : (AnsiCodeTracker.after {} front).Tidy := AnsiCodeTracker.tidy_empty.after fun t ht =>
    hbase t (hbehind.subset (mem_append_left _ ht))
  have huComplete : ∀ t ∈ u, t.Complete := by
    rw [hu, htail, hafter, replayed]
    refine forall_mem_append.2 ⟨complete_filled fun t ht => hbase t ?_,
      forall_mem_append.2 ⟨complete_filled fun t ht => hoverlay t ?_,
        forall_mem_append.2 ⟨?_, fun t ht => (styled_blanks _ t ht).complete⟩⟩⟩
    · rw [hbefore] at ht
      exact (fitting_isPrefix W b 0 _).subset ht
    · rw [hshown] at ht
      exact (upTo_isPrefix W w 0 _).subset ht
    · split_ifs
      · nofun
      · exact forall_mem_append.2 ⟨fun t ht => (htidy.styled_activeCodes t ht).complete,
          fun t ht => (hbase t (hbehind.subset (mem_append_right _ ht))).complete⟩
  have htokens := tokens_render huComplete []
  rw [append_nil] at htokens
  have hvisible : W.visibleWidth (render u) = b + w + len := by
    rw [W.visibleWidth_eq (complete_render huComplete), visibleChars_render huComplete]
    exact huWidth
  have hresult : W.compositeLineAt base overlay b w (b + w + len) = render u := by
    rw [Widths.compositeLineAt, himage, if_neg Bool.false_ne_true]
    simp only [Nat.add_sub_cancel_left, hr, hslice, hcompose, hvisible, Nat.le_refl, if_true]
  have hline : W.lineCells T (render u) = W.cells T 0 T.plain (W.filled b r.before) ++
      ((W.cells T 0 T.plain (W.filled w shown)).map (Cell.shift b) ++
        W.cells T (b + w) T.plain tail) := by
    rw [Widths.lineCells, htokens, show u ++ tokens [] = u from append_nil u, hu, cells_append,
      cells_append, W.width_filled hbeforeWidth, after_filled, W.width_filled hshownWidth,
      after_filled, cells_shift, Nat.zero_add]
  refine ⟨W.cells T (W.width r.before) (T.after T.plain r.before)
      (blanks (b - W.width r.before)),
    (W.cells T (W.width shown) (T.after T.plain shown) (blanks (w - W.width shown))).map
      (Cell.shift b), by rw [hresult, hvisible], hsplit, by omega, fun cell hcell => ?_,
    fun cell hcell => ?_, ?_⟩
  · obtain ⟨hchar, -, hlt⟩ := mem_blanks hcell
    exact ⟨hchar, by omega⟩
  · obtain ⟨original, horiginal, rfl⟩ := mem_map.1 hcell
    obtain ⟨hchar, hge, hlt⟩ := mem_blanks horiginal
    have : (original.shift b).column = original.column + b := rfl
    exact ⟨hchar, by omega, by omega⟩
  · have hfront := cells_fitting (W := W) b 0 T.plain (tokens base)
    have hover := cells_upTo (W := W) w 0 T.plain (tokens overlay)
    rw [← hbefore] at hfront
    rw [← hshown] at hover
    rw [hresult, hline, cells_filled, cells_filled, hfront, hover, htail, ← hcounted.after,
      hafterWidth, hafter, Nat.zero_add, Nat.zero_add]
    simp only [map_append, append_assoc]
    rfl

/-! ## What the composed line shows -/

namespace Layout

variable {w : Nat} {result : List Char} {left middle : List (Cell T.Style)}
  (h : Layout W T base overlay b w len front behind result left middle)

include h in
/-- Behind the overlay the characters stand further left, or blanks. -/
theorem mem_right (hcell : cell ∈ W.right T (b + w) len front behind) :
    b + w ≤ cell.column ∧ cell.column < b + w + len ∧ (cell.char = ' ' ∨
      cell.char ∈ behind.filterMap Token.char?) := by
  obtain ⟨-, hlimit, -, hbehind⟩ := splitAt_spec (T := T) h.split
  have hfits := h.fits
  refine ⟨(mem_cells hcell).1, ?_⟩
  rw [Widths.right, cells_append, width_replayed] at hcell
  rcases mem_append.1 hcell with hcell | hblank
  · unfold replayed at hcell
    split_ifs at hcell with hnil
    · cases hcell
    obtain ⟨hle, -⟩ := hbehind.resolve_left hnil
    obtain ⟨gap, hgap⟩ := Nat.exists_eq_add_of_le hle
    rw [cells_append, cells_codes (AnsiCodeTracker.char?_activeCodes _), nil_append,
      W.width_codes (AnsiCodeTracker.char?_activeCodes _), Nat.add_zero] at hcell
    obtain ⟨other, hother, hcolumn, hchar⟩ := cells_moved gap (T.after T.plain front) hcell
    rw [← hgap] at hother
    have hlt := mem_append_right (W.cells T 0 T.plain front) hother
    rw [← hlimit, mem_filter, decide_eq_true_iff] at hlt
    rw [← hchar, ← map_char_cells (W := W) (W.width front) (T.after T.plain front)]
    exact ⟨by omega, .inr (mem_map_of_mem hother)⟩
  · obtain ⟨hchar, hge, hlt⟩ := mem_blanks hblank
    refine ⟨?_, .inl hchar⟩
    rcases hbehind with rfl | hbehind
    · rw [W.width_nil] at hlt
      omega
    · omega

include h in
/-- The characters behind the overlay. -/
theorem filter_right :
    ((W.lineCells T result).filter fun cell => b + w ≤ cell.column) =
      W.right T (b + w) len front behind := by
  rw [h.cells, filter_append, filter_append, filter_eq_nil_iff.2, filter_eq_nil_iff.2,
    filter_eq_self.2 fun cell hcell => decide_eq_true (h.mem_right hcell).1]
  · rfl
  · intro cell hcell hge
    have hge := of_decide_eq_true hge
    rcases mem_append.1 hcell with hcell | hcell
    · have := (h.leftBlank cell hcell).2
      omega
    rcases mem_append.1 hcell with hcell | hcell
    · obtain ⟨original, horiginal, rfl⟩ := mem_map.1 hcell
      rw [mem_filter, decide_eq_true_iff] at horiginal
      have : (original.shift b).column = original.column + b := rfl
      omega
    · have := (h.middleBlank cell hcell).2
      omega
  · intro cell hcell hge
    have hge := of_decide_eq_true hge
    rw [mem_filter, decide_eq_true_iff] at hcell
    omega

include h in
/-- The characters of the base line that are not cut. -/
theorem filter_outside (hinside : ∀ cell ∈ W.lineCells T base, cell.column < b + w + len) :
    ((W.lineCells T base).filter fun cell => W.Outside b w cell) =
        ((W.lineCells T base).filter fun cell => cell.column < b ∧ W.stop cell ≤ b) ++
          W.cells T (W.width front) (T.after T.plain front) behind ∧
      ((W.lineCells T base).filter fun cell => b + w ≤ cell.column) =
        W.cells T (W.width front) (T.after T.plain front) behind := by
  obtain ⟨-, hlimit, hfront, hbehind⟩ := splitAt_spec (T := T) h.split
  rw [filter_eq_self.2 fun cell hcell => decide_eq_true (hinside cell hcell)] at hlimit
  have hge : ∀ cell ∈ W.cells T (W.width front) (T.after T.plain front) behind,
      b + w ≤ cell.column := by
    intro cell hcell
    rcases hbehind with rfl | ⟨hle, -⟩
    · cases hcell
    · exact Nat.le_trans hle (mem_cells hcell).1
  have hself : ∀ p : Cell T.Style → Bool, (∀ cell, b + w ≤ cell.column → p cell = true) →
      (W.cells T (W.width front) (T.after T.plain front) behind).filter p =
        W.cells T (W.width front) (T.after T.plain front) behind := fun p hp =>
    filter_eq_self.2 fun cell hcell => hp cell (hge cell hcell)
  have hnotBehind : (W.cells T (W.width front) (T.after T.plain front) behind).filter
      (fun cell => cell.column < b ∧ W.stop cell ≤ b) = [] := by
    refine filter_eq_nil_iff.2 fun cell hcell hlt => ?_
    have := hge cell hcell
    have := (of_decide_eq_true hlt).1
    omega
  have hnotFront : (W.cells T 0 T.plain front).filter (fun cell => b + w ≤ cell.column) = [] :=
    filter_eq_nil_iff.2 fun cell hcell hle =>
      absurd (of_decide_eq_true hle) (Nat.not_le.2 (hfront cell hcell))
  simp only [hlimit, filter_append]
  rw [hself _ fun cell hle => decide_eq_true (.inr hle), hself _ fun cell hle => decide_eq_true hle,
    hnotBehind, hnotFront, append_nil]
  refine ⟨congrArg (· ++ _) (filter_congr fun cell hcell => ?_), rfl⟩
  have := hfront cell hcell
  exact decide_eq_decide.2 ⟨fun hout => hout.resolve_right (by omega), .inl⟩

include h in
/-- Nothing is lost behind the overlay exactly if it is covered by what is shown there. -/
theorem sublist_right_iff :
    W.cells T (W.width front) (T.after T.plain front) behind <+
        W.right T (b + w) len front behind ↔
      (behind ≠ [] → T.Covers (W.width front - (b + w)) (T.after T.plain front)
        (T.after T.plain (AnsiCodeTracker.after {} front).getActiveCodes) behind) := by
  have hfits := h.fits
  rcases (splitAt_spec (T := T) h.split).2.2.2 with rfl | ⟨hle, -, c, rest, rfl⟩
  · exact iff_of_true (nil_sublist _) fun hne => absurd rfl hne
  · obtain ⟨gap, hgap⟩ := Nat.exists_eq_add_of_le hle
    rw [Widths.right, replayed, if_neg (cons_ne_nil _ _), append_assoc, cells_append,
      cells_codes (AnsiCodeTracker.char?_activeCodes _), nil_append,
      W.width_codes (AnsiCodeTracker.char?_activeCodes _), hgap, Nat.add_zero,
      sublist_iff (by omega)]
    simp

include h in
/-- What is covered is shown where it was, or is blank. -/
theorem blank_right (hcovers : behind ≠ [] →
      T.Covers (W.width front - (b + w)) (T.after T.plain front)
        (T.after T.plain (AnsiCodeTracker.after {} front).getActiveCodes) behind)
    (hcell : cell ∈ W.right T (b + w) len front behind) :
    cell ∈ W.cells T (W.width front) (T.after T.plain front) behind ∨ cell.char = ' ' := by
  have hmem := (h.mem_right hcell).2.2
  rcases (splitAt_spec (T := T) h.split).2.2.2 with rfl | ⟨hle, -, c, rest, rfl⟩
  · exact .inr (hmem.resolve_right nofun)
  have hcovers := hcovers (cons_ne_nil _ _)
  unfold Emulator.Covers at hcovers
  split_ifs at hcovers with hzero
  · rw [Widths.right, replayed, if_neg (cons_ne_nil _ _), append_assoc, cells_append,
      cells_codes (AnsiCodeTracker.char?_activeCodes _), nil_append,
      W.width_codes (AnsiCodeTracker.char?_activeCodes _), hcovers, cells_append] at hcell
    rw [show W.width front = b + w + 0 by omega]
    exact (mem_append.1 hcell).imp id fun hblank => (mem_blanks hblank).1
  · exact .inr (hmem.elim id (hcovers.1 _))

include h in
/-- **The composed line is as it should be exactly if nothing is moved or shown otherwise.** -/
theorem composited_iff :
    Composited W T base overlay b w (b + w + len) result ↔ Aligned W T base b w (b + w + len) := by
  have hborder : (∀ f g, W.splitAt (b + w) 0 (W.upTo (b + w + len) 0 (tokens base)) = (f, g) →
      g ≠ [] → T.Covers (W.width f - (b + w)) (T.after T.plain f)
        (T.after T.plain (AnsiCodeTracker.after {} f).getActiveCodes) g) ↔
      W.cells T (W.width front) (T.after T.plain front) behind <+
        W.right T (b + w) len front behind := by
    rw [h.sublist_right_iff, h.split]
    exact ⟨fun hall => hall front behind rfl, fun hone f g heq => by cases heq; exact hone⟩
  constructor
  · intro hcomposited
    have hinside : ∀ cell ∈ W.lineCells T base, cell.column < b + w + len := by
      intro cell hcell
      by_contra hge
      have hmem := hcomposited.kept.subset
        (mem_filter.2 ⟨hcell, decide_eq_true (.inr (by omega : b + w ≤ cell.column))⟩)
      have hright : cell ∈ W.right T (b + w) len front behind := by
        rw [← h.filter_right]
        exact mem_filter.2 ⟨hmem, decide_eq_true (by omega)⟩
      exact hge (h.mem_right hright).2.1
    refine ⟨hinside, hborder.2 ?_⟩
    have hkept := hcomposited.kept.filter fun cell => b + w ≤ cell.column
    rw [h.filter_right, filter_filter] at hkept
    rw [← (h.filter_outside hinside).2]
    refine (filter_congr fun cell _ => ?_).symm ▸ hkept
    rw [← Bool.decide_and]
    exact decide_eq_decide.2 ⟨fun hle => ⟨hle, .inr hle⟩, And.left⟩
  · rintro ⟨hinside, hcovers⟩
    have hsub := hborder.1 hcovers
    obtain ⟨hbase, hbehind⟩ := h.filter_outside hinside
    refine ⟨h.width, ⟨middle, fun cell hcell => (h.middleBlank cell hcell).1, ?_⟩, ?_,
      fun cell hcell hcolumn => ?_⟩
    · have hnone : ∀ {l : List (Cell T.Style)},
          (∀ cell ∈ l, cell.column < b ∨ b + w ≤ cell.column) →
          (l.filter fun cell => b ≤ cell.column ∧ cell.column < b + w) = [] := by
        refine fun hl => filter_eq_nil_iff.2 fun cell hcell hin => ?_
        have := of_decide_eq_true hin
        rcases hl cell hcell with hlt | hle <;> omega
      rw [h.cells, filter_append, filter_append, filter_append, hnone fun cell hcell =>
        .inl (of_decide_eq_true (mem_filter.1 hcell).2).1, hnone fun cell hcell =>
        .inl (h.leftBlank cell hcell).2, hnone fun cell hcell => .inr (h.mem_right hcell).1,
        append_nil, nil_append, nil_append]
      refine filter_eq_self.2 fun cell hcell => decide_eq_true ?_
      rcases mem_append.1 hcell with hcell | hcell
      · obtain ⟨original, horiginal, rfl⟩ := mem_map.1 hcell
        rw [mem_filter, decide_eq_true_iff] at horiginal
        have : (original.shift b).column = original.column + b := rfl
        omega
      · exact (h.middleBlank cell hcell).2
    · rw [hbase, h.cells]
      exact (List.Sublist.refl _).append (hsub.trans (sublist_append_right _ _))
    · rw [h.cells] at hcell
      simp only [mem_append] at hcell
      rcases hcell with hcell | (hcell | hcell | hcell) | hcell
      · rw [mem_filter, decide_eq_true_iff] at hcell
        exact .inl ⟨hcell.1, .inl hcell.2⟩
      · exact .inr (h.leftBlank cell hcell).1
      · obtain ⟨original, horiginal, rfl⟩ := mem_map.1 hcell
        rw [mem_filter, decide_eq_true_iff] at horiginal
        have : (original.shift b).column = original.column + b := rfl
        omega
      · exact .inr (h.middleBlank cell hcell).1
      · refine (h.blank_right (h.sublist_right_iff.1 hsub) hcell).imp_left fun hcell => ?_
        rw [← hbehind, mem_filter, decide_eq_true_iff] at hcell
        exact ⟨hcell.1, .inr hcell.2⟩

end Layout

end

/-- Red letters and a wide one, the last two of them bold. -/
def redLine : List Char :=
  escape :: "[31mé你".toList ++ escape :: "[1mbc".toList

/-- The tracker does not know the overline, which is lost behind the overlay. -/
theorem overline_is_lost :
    ¬Composited sampleWidths sampleEmulator (escape :: "[53mabc".toList) ['X'] 0 1 3
      (sampleWidths.compositeLineAt (escape :: "[53mabc".toList) ['X'] 0 1 3) := by
  intro h
  have hkept := h.kept.subset (show ⟨1, 'b', { overline := true }⟩ ∈ _ from by decide)
  exact absurd hkept (by decide)

end BeauPi.Tui.Ansi
