import Mathlib.Algebra.BigOperators.Group.List.Basic
import Mathlib.Data.List.Basic
import Mathlib.Algebra.GroupWithZero.Nat

/-!
# Word wrap of the editor

A line is wrapped into chunks that are no wider than the editor.  A chunk ends at the last place
where a break is allowed, or where the width is used up; a segment that is wider than the editor is
wrapped again, grapheme by grapheme.

* `Grapheme`, `Segment` — what a line is made of.
* `wrapLoop`, `wordWrapLine` — the wrap.
* `Wraps` — the chunks partition the line and keep to the width.
* `wordWrapLine_wraps_iff` — it ends, and well, unless a single grapheme is wider than the editor.
-/

namespace BeauPi.Tui

open List

/-! ## Lines -/

/-- A grapheme of a line, with its code units and what is known of it. -/
structure Grapheme where
  text : List UInt16
  width : Nat
  isWhitespace : Bool
  isCjk : Bool
  nonempty : text ≠ []
  deriving DecidableEq, Repr

/-- `visibleWidth` of a text. -/
def visibleWidth (text : List Grapheme) : Nat := (text.map (·.width)).sum

/-- `text.length` -/
def unitLength (text : List Grapheme) : Nat := (text.map (·.text.length)).sum

/-- The text from an offset on. -/
def dropUnits : Nat → List Grapheme → List Grapheme
  | 0, text => text
  | _ + 1, [] => []
  | n + 1, g :: text => dropUnits (n + 1 - g.text.length) text

/-- The text before an offset. -/
def takeUnits : Nat → List Grapheme → List Grapheme
  | 0, _ => []
  | _ + 1, [] => []
  | n + 1, g :: text => g :: takeUnits (n + 1 - g.text.length) text

/-- `text.slice(start, stop)`, where no grapheme is cut. -/
def sliceUnits (text : List Grapheme) (start stop : Nat) : List Grapheme :=
  takeUnits (stop - start) (dropUnits start text)

/-- A paste marker that is one segment; its text is printable ASCII. -/
structure PasteMarker where
  graphemes : List Grapheme
  nonempty : graphemes ≠ []
  narrow : ∀ g ∈ graphemes, g.width = 1
  deriving DecidableEq, Repr

/-- A segment of a line, as `segmentWithMarkers` makes it. -/
inductive Segment
  | single (g : Grapheme)
  | marker (m : PasteMarker)
  deriving DecidableEq, Repr

/-- The graphemes of a segment. -/
def Segment.graphemes : Segment → List Grapheme
  | .single g => [g]
  | .marker m => m.graphemes

/-- The text of some segments. -/
def textOf (segments : List Segment) : List Grapheme := segments.flatMap (·.graphemes)

/-- `isPasteMarker` -/
def Segment.isPasteMarker : Segment → Bool
  | .single _ => false
  | .marker _ => true

/-- `isWhitespaceChar`, which looks for white space anywhere: there is a blank in a marker. -/
def Segment.isWhitespaceChar : Segment → Bool
  | .single g => g.isWhitespace
  | .marker _ => true

/-- `!isPasteMarker(segment) && cjkBreakRegex.test(segment)` -/
def Segment.breaksAsCjk : Segment → Bool
  | .single g => g.isCjk
  | .marker _ => false

/-! ## The wrap -/

/-- `TextChunk` -/
structure TextChunk where
  text : List Grapheme
  startIndex : Nat
  endIndex : Nat
  deriving DecidableEq, Repr

/-- A chunk of a text that starts at an offset. -/
def TextChunk.shift (offset : Nat) (chunk : TextChunk) : TextChunk :=
  ⟨chunk.text, offset + chunk.startIndex, offset + chunk.endIndex⟩

/-- The variables of the loop; `wrapOpp` holds `wrapOppIndex`, with `none` for `-1`, and
`wrapOppWidth`. -/
structure WrapState where
  chunks : List TextChunk
  currentWidth : Nat
  chunkStart : Nat
  wrapOpp : Option (Nat × Nat)
  deriving DecidableEq, Repr

/-- The current chunk is closed at an index. -/
def WrapState.push (line : List Grapheme) (stop currentWidth : Nat) (s : WrapState) : WrapState :=
  ⟨s.chunks ++ [⟨sliceUnits line s.chunkStart stop, s.chunkStart, stop⟩], currentWidth, stop, none⟩

/-- A break at the current position, if there is anything before it. -/
def WrapState.forceBreak (line : List Grapheme) (charIndex : Nat) (s : WrapState) : WrapState :=
  if s.chunkStart < charIndex then s.push line charIndex 0 else { s with wrapOpp := none }

/-- The overflow check before a segment of width `gWidth` at `charIndex`. -/
def WrapState.overflow (line : List Grapheme) (maxWidth charIndex gWidth : Nat) (s : WrapState) :
    WrapState :=
  if maxWidth < s.currentWidth + gWidth then
    match s.wrapOpp with
    | some (wrapOppIndex, wrapOppWidth) =>
      if s.currentWidth - wrapOppWidth + gWidth ≤ maxWidth then
        s.push line wrapOppIndex (s.currentWidth - wrapOppWidth)
      else s.forceBreak line charIndex
    | none => s.forceBreak line charIndex
  else s

/-- May the line be broken between a segment and the next one? -/
def breakAllowed (segment : Segment) (next : Option Segment) : Bool :=
  match next with
  | none => false
  | some next =>
    let isWs := !segment.isPasteMarker && segment.isWhitespaceChar
    if isWs && (next.isPasteMarker || !next.isWhitespaceChar) then true
    else if !isWs && !next.isWhitespaceChar then segment.breaksAsCjk || next.breaksAsCjk
    else false

/-- The segment is added to the current chunk. -/
def WrapState.advance (segment : Segment) (next : Option Segment) (nextIndex : Nat)
    (s : WrapState) : WrapState :=
  let currentWidth := s.currentWidth + visibleWidth segment.graphemes
  { s with
    currentWidth := currentWidth
    wrapOpp := if breakAllowed segment next then some (nextIndex, currentWidth) else s.wrapOpp }

/-- The chunks of a wide segment at `charIndex`; the last of them becomes the current one. -/
def WrapState.rewrapped (charIndex : Nat) (subChunks : List TextChunk) (s : WrapState) :
    WrapState :=
  let last := subChunks.getLast?.getD ⟨[], 0, 0⟩
  ⟨s.chunks ++ subChunks.dropLast.map (·.shift charIndex), visibleWidth last.text,
    charIndex + last.startIndex, none⟩

/-- The loop of `wordWrapLine` over the segments from `charIndex` on. -/
def wrapLoop (rewrap : List Grapheme → Option (List TextChunk)) (line : List Grapheme)
    (maxWidth : Nat) : Nat → List Segment → WrapState → Option WrapState
  | _, [], s => some s
  | charIndex, segment :: rest, s =>
    let gWidth := visibleWidth segment.graphemes
    let nextIndex := charIndex + unitLength segment.graphemes
    let s := s.overflow line maxWidth charIndex gWidth
    if maxWidth < gWidth then
      (rewrap segment.graphemes).bind fun subChunks =>
        wrapLoop rewrap line maxWidth nextIndex rest (s.rewrapped charIndex subChunks)
    else wrapLoop rewrap line maxWidth nextIndex rest (s.advance segment rest.head? nextIndex)

/-- `wordWrapLine`; `none` when the calls are nested deeper than `fuel`. -/
def wordWrapLine : Nat → List Grapheme → Nat → Option (List Segment) → Option (List TextChunk)
  | 0, _, _, _ => none
  | fuel + 1, line, maxWidth, preSegmented =>
    if line = [] ∨ maxWidth = 0 then some [⟨[], 0, 0⟩]
    else if visibleWidth line ≤ maxWidth then some [⟨line, 0, unitLength line⟩]
    else
      let segments := preSegmented.getD (line.map .single)
      let final := wrapLoop (fun grapheme => wordWrapLine fuel grapheme maxWidth none) line maxWidth
        0 segments ⟨[], 0, 0, none⟩
      final.map fun s => (s.push line (unitLength line) 0).chunks

/-! ## What it should be -/

/-- The chunks are slices that follow each other from the start of the line to its end, and none is
too wide, except for a single grapheme. -/
structure Wraps (line : List Grapheme) (maxWidth : Nat) (chunks : List TextChunk) : Prop where
  slices : ∀ chunk ∈ chunks, chunk.text = sliceUnits line chunk.startIndex chunk.endIndex
  first : chunks.head?.map (·.startIndex) = some 0
  consecutive : chunks.IsChain fun a b => a.endIndex = b.startIndex
  last : chunks.getLast?.map (·.endIndex) = some (unitLength line)
  complete : chunks.flatMap (·.text) = line
  narrow : ∀ chunk ∈ chunks, visibleWidth chunk.text ≤ maxWidth ∨
    ∃ g, chunk.text = [g] ∧ maxWidth < g.width

variable {a b c line text : List Grapheme} {maxWidth : Nat} {pieces more : List (List Grapheme)}

/-! ## Lengths and slices -/

@[simp] theorem visibleWidth_nil : visibleWidth [] = 0 := rfl

@[simp] theorem unitLength_nil : unitLength [] = 0 := rfl

@[simp] theorem visibleWidth_append : visibleWidth (a ++ b) = visibleWidth a + visibleWidth b := by
  simp [visibleWidth]

@[simp] theorem unitLength_append : unitLength (a ++ b) = unitLength a + unitLength b := by
  simp [unitLength]

@[simp] theorem visibleWidth_single (g : Grapheme) : visibleWidth [g] = g.width := by
  simp [visibleWidth]

theorem length_text_pos (g : Grapheme) : 0 < g.text.length := length_pos_iff.2 g.nonempty

theorem unitLength_pos (h : a ≠ []) : 0 < unitLength a := by
  cases a with
  | nil => exact absurd rfl h
  | cons g a =>
    have := length_text_pos g
    simp only [unitLength, map_cons, sum_cons]
    omega

theorem dropUnits_append : dropUnits (unitLength a) (a ++ b) = b := by
  induction a with
  | nil => rw [unitLength_nil, dropUnits, nil_append]
  | cons g a ih =>
    have hpos := length_text_pos g
    have hlength : unitLength (g :: a) = g.text.length + unitLength a := rfl
    obtain ⟨n, hn⟩ := Nat.exists_eq_add_of_lt hpos
    have hsucc : unitLength (g :: a) = (n + unitLength a) + 1 := by omega
    rw [hsucc, cons_append, dropUnits, ← hsucc, hlength, Nat.add_sub_cancel_left, ih]

theorem takeUnits_append : takeUnits (unitLength a) (a ++ b) = a := by
  induction a with
  | nil => rw [unitLength_nil, takeUnits]
  | cons g a ih =>
    have hpos := length_text_pos g
    have hlength : unitLength (g :: a) = g.text.length + unitLength a := rfl
    obtain ⟨n, hn⟩ := Nat.exists_eq_add_of_lt hpos
    have hsucc : unitLength (g :: a) = (n + unitLength a) + 1 := by omega
    rw [hsucc, cons_append, takeUnits, ← hsucc, hlength, Nat.add_sub_cancel_left, ih]

/-- The slice of the middle one of three parts. -/
theorem sliceUnits_middle :
    sliceUnits (a ++ (b ++ c)) (unitLength a) (unitLength a + unitLength b) = b := by
  rw [sliceUnits, dropUnits_append, Nat.add_sub_cancel_left, takeUnits_append]

/-! ## Pieces of a line -/

/-- The chunks of some pieces that follow each other from an offset on. -/
def chunksOf (offset : Nat) : List (List Grapheme) → List TextChunk
  | [] => []
  | piece :: pieces =>
    ⟨piece, offset, offset + unitLength piece⟩ :: chunksOf (offset + unitLength piece) pieces

theorem chunksOf_append (offset : Nat) : chunksOf offset (pieces ++ more) =
    chunksOf offset pieces ++ chunksOf (offset + unitLength pieces.flatten) more := by
  induction pieces generalizing offset with
  | nil => rfl
  | cons piece pieces ih => simp [chunksOf, ih, Nat.add_assoc]

theorem shift_chunksOf (offset start : Nat) :
    (chunksOf start pieces).map (·.shift offset) = chunksOf (offset + start) pieces := by
  induction pieces generalizing start with
  | nil => rfl
  | cons piece pieces ih =>
    rw [chunksOf, map_cons, ih, chunksOf, TextChunk.shift]
    simp only [Nat.add_assoc]

theorem texts_chunksOf (offset : Nat) : (chunksOf offset pieces).flatMap (·.text) =
    pieces.flatten := by
  induction pieces generalizing offset with
  | nil => rfl
  | cons piece pieces ih => simp [chunksOf, ih]

theorem mem_chunksOf {offset : Nat} {chunk : TextChunk} (h : chunk ∈ chunksOf offset pieces) :
    ∃ before after, pieces = before ++ chunk.text :: after ∧
      chunk.startIndex = offset + unitLength before.flatten ∧
      chunk.endIndex = chunk.startIndex + unitLength chunk.text := by
  induction pieces generalizing offset with
  | nil => cases h
  | cons piece pieces ih =>
    rcases mem_cons.1 h with rfl | h
    · exact ⟨[], pieces, rfl, rfl, rfl⟩
    · obtain ⟨before, after, rfl, hstart, hstop⟩ := ih h
      exact ⟨piece :: before, after, rfl, by simp [hstart, Nat.add_assoc], hstop⟩

theorem isChain_chunksOf (offset : Nat) :
    (chunksOf offset pieces).IsChain fun a b => a.endIndex = b.startIndex := by
  induction pieces generalizing offset with
  | nil => exact .nil
  | cons piece pieces ih =>
    cases pieces with
    | nil => exact .singleton _
    | cons next pieces => exact .cons_cons rfl (ih _)

theorem endIndex_chunksOf (offset : Nat) (h : pieces ≠ []) :
    (chunksOf offset pieces).getLast?.map (·.endIndex) =
      some (offset + unitLength pieces.flatten) := by
  obtain ⟨before, last, rfl⟩ := (eq_nil_or_concat' pieces).resolve_left h
  rw [chunksOf_append]
  simp [chunksOf, Nat.add_assoc]

/-- The pieces of a line that are narrow wrap it. -/
theorem wraps_chunksOf (h : pieces ≠ []) (hnarrow : ∀ piece ∈ pieces, visibleWidth piece ≤ maxWidth)
    (hline : pieces.flatten = line) : Wraps line maxWidth (chunksOf 0 pieces) where
  slices chunk hchunk := by
    obtain ⟨before, after, rfl, hstart, hstop⟩ := mem_chunksOf hchunk
    rw [Nat.zero_add] at hstart
    rw [← hline, hstop, hstart, flatten_append, flatten_cons, sliceUnits_middle]
  first := by
    obtain ⟨piece, pieces, rfl⟩ := exists_cons_of_ne_nil h
    rfl
  consecutive := isChain_chunksOf 0
  last := by rw [endIndex_chunksOf 0 h, hline, Nat.zero_add]
  complete := by rw [texts_chunksOf, hline]
  narrow chunk hchunk := by
    obtain ⟨before, after, rfl, -, -⟩ := mem_chunksOf hchunk
    exact .inl (hnarrow _ (by simp))

/-! ## What the loop keeps -/

/-- The segments seen so far are `done`: their text is cut into narrow pieces, which are the chunks,
and the current chunk; the place where a break is allowed is in the current chunk. -/
structure WrapState.Cut (done : List Grapheme) (maxWidth : Nat) (pieces : List (List Grapheme))
    (current : List Grapheme) (s : WrapState) : Prop where
  chunks : s.chunks = chunksOf 0 pieces
  text : done = pieces.flatten ++ current
  start : s.chunkStart = unitLength pieces.flatten
  width : s.currentWidth = visibleWidth current
  narrow : visibleWidth current ≤ maxWidth
  pieces_narrow : ∀ piece ∈ pieces, visibleWidth piece ≤ maxWidth
  wrapOpp : ∀ i w, s.wrapOpp = some (i, w) → ∃ x y, current = x ++ y ∧
    i = unitLength pieces.flatten + unitLength x ∧ w = visibleWidth x

variable {s : WrapState} {done current rest : List Grapheme} {segment : Segment}
  {segments : List Segment} {gWidth : Nat}

/-- The current chunk is closed within the text. -/
theorem WrapState.Cut.push (h : s.Cut done maxWidth pieces (a ++ b)) (hline : line = done ++ rest) :
    (s.push line (unitLength pieces.flatten + unitLength a) (visibleWidth b)).Cut done maxWidth
      (pieces ++ [a]) b := by
  have hnarrow := h.narrow
  rw [visibleWidth_append] at hnarrow
  refine ⟨?_, by simp [h.text], by simp [WrapState.push], rfl, by omega, ?_,
    by simp [WrapState.push]⟩
  · rw [chunksOf_append, WrapState.push, h.chunks, h.start, hline, h.text, append_assoc,
      append_assoc, sliceUnits_middle, Nat.zero_add]
    rfl
  · intro piece hpiece
    rcases mem_append.1 hpiece with hpiece | hpiece
    · exact h.pieces_narrow piece hpiece
    · obtain rfl := mem_singleton.1 hpiece
      omega

theorem WrapState.Cut.forceBreak (h : s.Cut done maxWidth pieces current)
    (hline : line = done ++ rest) :
    ∃ pieces', (s.forceBreak line (unitLength done)).Cut done maxWidth pieces' [] := by
  have hlength := congrArg unitLength h.text
  rw [unitLength_append] at hlength
  unfold WrapState.forceBreak
  split_ifs with hbefore
  · refine ⟨pieces ++ [current], ?_⟩
    rw [hlength]
    rw [← append_nil current] at h
    exact h.push hline
  · have hnil : current = [] := by
      by_contra hne
      have := unitLength_pos hne
      rw [h.start] at hbefore
      omega
    subst hnil
    exact ⟨pieces, h.chunks, h.text, h.start, h.width, h.narrow, h.pieces_narrow, by simp⟩

/-- After the overflow check there is room for the segment, or the current chunk is empty. -/
theorem WrapState.Cut.overflow (h : s.Cut done maxWidth pieces current)
    (hline : line = done ++ rest) (gWidth : Nat) :
    ∃ pieces' current',
      (s.overflow line maxWidth (unitLength done) gWidth).Cut done maxWidth pieces' current' ∧
      (gWidth ≤ maxWidth → visibleWidth current' + gWidth ≤ maxWidth) ∧
      (maxWidth < gWidth → current' = []) := by
  have hforce : ∃ pieces' current',
      (s.forceBreak line (unitLength done)).Cut done maxWidth pieces' current' ∧
      (gWidth ≤ maxWidth → visibleWidth current' + gWidth ≤ maxWidth) ∧
      (maxWidth < gWidth → current' = []) := by
    obtain ⟨pieces', hcut⟩ := h.forceBreak hline
    exact ⟨pieces', [], hcut, by simp, fun _ => rfl⟩
  unfold WrapState.overflow
  split_ifs with hover
  · cases hopp : s.wrapOpp with
    | none => exact hforce
    | some opp =>
      obtain ⟨i, w⟩ := opp
      obtain ⟨x, y, rfl, rfl, rfl⟩ := h.wrapOpp i w hopp
      have hwidth : s.currentWidth - visibleWidth x = visibleWidth y := by
        rw [h.width, visibleWidth_append, Nat.add_sub_cancel_left]
      simp only [hwidth]
      split_ifs with hfits
      · exact ⟨pieces ++ [x], y, h.push hline, fun _ => hfits, fun hwide => by omega⟩
      · exact hforce
  · rw [h.width] at hover
    exact ⟨pieces, current, h, fun _ => Nat.le_of_not_lt hover, fun hwide => by omega⟩

/-- A segment that fits is added. -/
theorem WrapState.Cut.advance (h : s.Cut done maxWidth pieces current) (next : Option Segment)
    (hfits : visibleWidth current + visibleWidth segment.graphemes ≤ maxWidth) :
    (s.advance segment next (unitLength done + unitLength segment.graphemes)).Cut
      (done ++ segment.graphemes) maxWidth pieces (current ++ segment.graphemes) := by
  have hwidth : s.currentWidth + visibleWidth segment.graphemes =
      visibleWidth (current ++ segment.graphemes) := by rw [visibleWidth_append, h.width]
  refine ⟨h.chunks, by rw [h.text, append_assoc], h.start, hwidth,
    by rwa [visibleWidth_append], h.pieces_narrow, ?_⟩
  intro i w hopp
  simp only [WrapState.advance, hwidth] at hopp
  split_ifs at hopp with hbreak
  · cases hopp
    refine ⟨_, [], (append_nil _).symm, ?_, rfl⟩
    rw [h.text, unitLength_append, unitLength_append, Nat.add_assoc]
  · obtain ⟨x, y, rfl, rfl, rfl⟩ := h.wrapOpp i w hopp
    exact ⟨x, y ++ segment.graphemes, append_assoc _ _ _, rfl, rfl⟩

/-- Narrow pieces of a text. -/
structure NarrowPieces (text : List Grapheme) (maxWidth : Nat) (pieces : List (List Grapheme)) :
    Prop where
  nonempty : pieces ≠ []
  text : pieces.flatten = text
  narrow : ∀ piece ∈ pieces, visibleWidth piece ≤ maxWidth

/-- The chunks of a wide segment are added, except for the last one. -/
theorem WrapState.Cut.rewrapped (h : s.Cut done maxWidth pieces [])
    (hsub : NarrowPieces text maxWidth more) :
    ∃ pieces' current', (s.rewrapped (unitLength done) (chunksOf 0 more)).Cut (done ++ text)
      maxWidth pieces' current' := by
  obtain ⟨before, last, rfl⟩ := (eq_nil_or_concat' more).resolve_left hsub.nonempty
  have hdone : done = pieces.flatten := by rw [h.text, append_nil]
  have hchunks : chunksOf 0 (before ++ [last]) = chunksOf 0 before ++
      [⟨last, unitLength before.flatten, unitLength before.flatten + unitLength last⟩] := by
    rw [chunksOf_append, Nat.zero_add]
    rfl
  refine ⟨pieces ++ before, last, ?_, ?_, ?_, ?_, ?_, ?_, ?_⟩
  · rw [WrapState.rewrapped, hchunks, dropLast_concat, shift_chunksOf, h.chunks,
      chunksOf_append, hdone, Nat.zero_add, Nat.add_zero]
  · rw [← hsub.text, hdone]
    simp
  · simp [WrapState.rewrapped, hchunks, hdone]
  · simp [WrapState.rewrapped, hchunks]
  · exact hsub.narrow last (by simp)
  · intro piece hpiece
    rcases mem_append.1 hpiece with hpiece | hpiece
    · exact h.pieces_narrow piece hpiece
    · exact hsub.narrow piece (mem_append_left _ hpiece)
  · simp [WrapState.rewrapped]

theorem textOf_cons : textOf (segment :: segments) = segment.graphemes ++ textOf segments :=
  flatMap_cons

variable {rewrap : List Grapheme → Option (List TextChunk)}

/-- Where wide segments are wrapped, the loop ends with the whole line cut. -/
theorem wrapLoop_cut
    (hrewrap : ∀ segment ∈ segments, maxWidth < visibleWidth segment.graphemes → ∃ more, rewrap
      segment.graphemes = some (chunksOf 0 more) ∧ NarrowPieces segment.graphemes maxWidth more)
    (hline : line = done ++ textOf segments) (h : s.Cut done maxWidth pieces current) :
    ∃ final pieces' current', wrapLoop rewrap line maxWidth (unitLength done) segments s =
      some final ∧ final.Cut line maxWidth pieces' current' := by
  induction segments generalizing done s pieces current with
  | nil =>
    have hdone : line = done := by rw [hline, textOf, flatMap_nil, append_nil]
    exact ⟨s, pieces, current, rfl, hdone ▸ h⟩
  | cons segment segments ih =>
    have hrest : line = (done ++ segment.graphemes) ++ textOf segments := by
      rw [hline, textOf_cons, append_assoc]
    have hlater := fun seg hseg => hrewrap seg (mem_cons_of_mem segment hseg)
    obtain ⟨pieces', current', hcut, hfits, hempty⟩ :=
      h.overflow hline (visibleWidth segment.graphemes)
    rw [wrapLoop]
    rw [← unitLength_append]
    split_ifs with hwide
    · obtain ⟨more, hmore, hsub⟩ := hrewrap segment mem_cons_self hwide
      obtain rfl := hempty hwide
      obtain ⟨pieces'', current'', hcut'⟩ := hcut.rewrapped hsub
      rw [hmore, Option.bind_some]
      exact ih hlater hrest hcut'
    · have hnext := hcut.advance segments.head? (hfits (Nat.le_of_not_lt hwide))
      rw [← unitLength_append] at hnext
      exact ih hlater hrest hnext

/-- A wide segment that is not wrapped spoils the wrap. -/
theorem wrapLoop_eq_none (hmem : segment ∈ segments)
    (hwide : maxWidth < visibleWidth segment.graphemes) (hnone : rewrap segment.graphemes = none)
    (charIndex : Nat) (s : WrapState) :
    wrapLoop rewrap line maxWidth charIndex segments s = none := by
  induction segments generalizing charIndex s with
  | nil => cases hmem
  | cons first segments ih =>
    rw [wrapLoop]
    rcases mem_cons.1 hmem with rfl | hmem
    · rw [if_pos hwide, hnone, Option.bind_none]
    · split_ifs with hfirst
      · cases hsub : rewrap first.graphemes with
        | none => rfl
        | some subChunks => exact ih hmem _ _
      · exact ih hmem _ _

/-! ## The whole wrap -/

/-- A loop that ends still ends where more wide segments are wrapped. -/
theorem wrapLoop_mono {rewrap' : List Grapheme → Option (List TextChunk)}
    (hmono : ∀ text chunks, rewrap text = some chunks → rewrap' text = some chunks)
    {charIndex : Nat} {s final : WrapState}
    (h : wrapLoop rewrap line maxWidth charIndex segments s = some final) :
    wrapLoop rewrap' line maxWidth charIndex segments s = some final := by
  induction segments generalizing charIndex s with
  | nil => exact h
  | cons segment segments ih =>
    rw [wrapLoop] at h ⊢
    split_ifs at h ⊢ with hwide
    · obtain ⟨subChunks, hsub, hrest⟩ := Option.bind_eq_some_iff.1 h
      rw [hmono _ _ hsub, Option.bind_some]
      exact ih hrest
    · exact ih h

variable {fuel : Nat} {preSegmented : Option (List Segment)}

/-- Deeper calls do not change what is returned. -/
theorem wordWrapLine_mono {more : Nat} (hle : fuel ≤ more) {chunks : List TextChunk}
    (h : wordWrapLine fuel line maxWidth preSegmented = some chunks) :
    wordWrapLine more line maxWidth preSegmented = some chunks := by
  induction fuel generalizing more line preSegmented chunks with
  | zero => cases h
  | succ fuel ih =>
    obtain ⟨more, rfl⟩ := Nat.exists_eq_succ_of_ne_zero (Nat.ne_zero_of_lt hle)
    rw [wordWrapLine] at h ⊢
    split_ifs at h ⊢ with hnil hfits
    · exact h
    · exact h
    · obtain ⟨final, hfinal, hchunks⟩ := Option.map_eq_some_iff.1 h
      have hdeeper := wrapLoop_mono (fun _ _ hsub => ih (Nat.le_of_succ_le_succ hle) hsub) hfinal
      exact Option.map_eq_some_iff.2 ⟨final, hdeeper, hchunks⟩

/-- The call returns some chunks, and does so however deep calls may be nested beyond need. -/
def Returns (line : List Grapheme) (maxWidth : Nat) (preSegmented : Option (List Segment))
    (chunks : List TextChunk) : Prop :=
  ∃ fuel, ∀ more, fuel ≤ more → wordWrapLine more line maxWidth preSegmented = some chunks

/-- Where wide segments are wrapped into narrow pieces, so is the line. -/
theorem wordWrapLine_pieces (hmax : 1 ≤ maxWidth)
    (hpre : preSegmented.getD (line.map .single) = segments) (hline : line = textOf segments)
    (hrewrap : ∀ segment ∈ segments, maxWidth < visibleWidth segment.graphemes → ∃ more,
      wordWrapLine fuel segment.graphemes maxWidth none = some (chunksOf 0 more) ∧ NarrowPieces
      segment.graphemes maxWidth more) :
    ∃ pieces, wordWrapLine (fuel + 1) line maxWidth preSegmented = some (chunksOf 0 pieces) ∧
      NarrowPieces line maxWidth pieces := by
  rw [wordWrapLine, hpre]
  split_ifs with hnil hfits
  · obtain rfl : line = [] := hnil.resolve_right (by omega)
    exact ⟨[[]], rfl, by simp, rfl, by simp⟩
  · exact ⟨[line], by simp [chunksOf], by simp, by simp, by simpa using hfits⟩
  · have hstart : WrapState.Cut [] maxWidth [] [] ⟨[], 0, 0, none⟩ :=
      ⟨rfl, rfl, rfl, rfl, Nat.zero_le _, by simp, by simp⟩
    obtain ⟨final, pieces, current, hfinal, hcut⟩ : ∃ final pieces current,
        wrapLoop (fun grapheme => wordWrapLine fuel grapheme maxWidth none) line maxWidth 0
          segments ⟨[], 0, 0, none⟩ = some final ∧
        final.Cut line maxWidth pieces current :=
      wrapLoop_cut hrewrap hline hstart
    have hpush := (append_nil current ▸ hcut).push (append_nil line).symm
    dsimp only
    rw [hfinal, Option.map_some]
    rw [visibleWidth_nil, ← unitLength_append, ← hcut.text] at hpush
    have htext := hpush.text
    rw [append_nil] at htext
    exact ⟨pieces ++ [current], by rw [hpush.chunks], by simp, htext.symm, hpush.pieces_narrow⟩

theorem textOf_singles (text : List Grapheme) : textOf (text.map .single) = text := by
  induction text with
  | nil => rfl
  | cons g text ih => rw [map_cons, textOf_cons, ih]; rfl

/-- A paste marker is wrapped into narrow pieces. -/
theorem PasteMarker.wrapped (m : PasteMarker) (hmax : 1 ≤ maxWidth) (fuel : Nat) :
    ∃ more, wordWrapLine (fuel + 1) m.graphemes maxWidth none = some (chunksOf 0 more) ∧
      NarrowPieces m.graphemes maxWidth more := by
  refine wordWrapLine_pieces hmax rfl (textOf_singles _).symm fun segment hsegment hwide => ?_
  obtain ⟨g, hg, rfl⟩ := mem_map.1 hsegment
  have hone := m.narrow g hg
  rw [Segment.graphemes, visibleWidth_single] at hwide
  omega

/-- A line with a segment that is not wrapped is not wrapped either. -/
theorem wordWrapLine_eq_none (hmax : 1 ≤ maxWidth) (hlong : maxWidth < visibleWidth line)
    (hmem : segment ∈ preSegmented.getD (line.map .single))
    (hwide : maxWidth < visibleWidth segment.graphemes)
    (hnone : wordWrapLine fuel segment.graphemes maxWidth none = none) :
    wordWrapLine (fuel + 1) line maxWidth preSegmented = none := by
  have hne : ¬(line = [] ∨ maxWidth = 0) := by
    rintro (rfl | hzero)
    · exact Nat.not_lt_zero _ hlong
    · omega
  rw [wordWrapLine, if_neg hne, if_neg (Nat.not_le_of_lt hlong)]
  dsimp only
  rw [wrapLoop_eq_none hmem hwide hnone, Option.map_none]

/-- A grapheme that is too wide is wrapped by itself again and again. -/
theorem wordWrapLine_wide {g : Grapheme} (hmax : 1 ≤ maxWidth) (hwide : maxWidth < g.width)
    (fuel : Nat) : wordWrapLine fuel [g] maxWidth none = none := by
  rw [← visibleWidth_single] at hwide
  induction fuel with
  | zero => rfl
  | succ fuel ih =>
    exact wordWrapLine_eq_none hmax hwide (mem_singleton_self (Segment.single g)) hwide ih

/-- **A line is wrapped into chunks that partition it and keep to the width, exactly if none of its
graphemes is wider than that; otherwise the wrap never ends.** -/
theorem wordWrapLine_wraps_iff (segments : List Segment) (hmax : 1 ≤ maxWidth) :
    (∃ chunks, Returns (textOf segments) maxWidth (some segments) chunks ∧
      Wraps (textOf segments) maxWidth chunks) ↔
      ∀ g, .single g ∈ segments → g.width ≤ maxWidth := by
  constructor
  · rintro ⟨chunks, ⟨fuel, hreturns⟩, -⟩ g hg
    refine Nat.le_of_not_lt fun hwide => ?_
    have hmem : g ∈ textOf segments := mem_flatMap.2 ⟨_, hg, mem_singleton_self g⟩
    have hlong : maxWidth < visibleWidth (textOf segments) := by
      obtain ⟨before, after, hsplit⟩ := append_of_mem hmem
      rw [hsplit, visibleWidth_append, ← singleton_append, visibleWidth_append,
        visibleWidth_single]
      omega
    have hnone : wordWrapLine (fuel + 1) (textOf segments) maxWidth (some segments) = none :=
      wordWrapLine_eq_none hmax hlong hg (by rwa [Segment.graphemes, visibleWidth_single])
        (wordWrapLine_wide hmax hwide fuel)
    rw [hreturns (fuel + 1) (Nat.le_succ fuel)] at hnone
    cases hnone
  · intro hnarrow
    have hrewrap : ∀ segment ∈ segments, maxWidth < visibleWidth segment.graphemes →
        ∃ more, wordWrapLine 1 segment.graphemes maxWidth none = some (chunksOf 0 more) ∧
          NarrowPieces segment.graphemes maxWidth more := by
      intro segment hsegment hwide
      cases segment with
      | single g =>
        rw [Segment.graphemes, visibleWidth_single] at hwide
        exact absurd (hnarrow g hsegment) (Nat.not_le_of_lt hwide)
      | marker m => exact m.wrapped hmax 0
    obtain ⟨pieces, hpieces, hall⟩ : ∃ pieces,
        wordWrapLine 2 (textOf segments) maxWidth (some segments) = some (chunksOf 0 pieces) ∧
        NarrowPieces (textOf segments) maxWidth pieces :=
      wordWrapLine_pieces hmax rfl rfl hrewrap
    exact ⟨_, ⟨2, fun more hle => wordWrapLine_mono hle hpieces⟩,
      wraps_chunksOf hall.nonempty hall.narrow hall.text⟩

/-- `"a b你"` and a paste marker of three graphemes. -/
def mixedLine : List Segment :=
  [.single ⟨[97], 1, false, false, by decide⟩, .single ⟨[32], 1, true, false, by decide⟩,
    .single ⟨[98], 1, false, false, by decide⟩, .single ⟨[0x4F60], 2, false, true, by decide⟩,
    .marker ⟨[⟨[91], 1, false, false, by decide⟩, ⟨[32], 1, true, false, by decide⟩,
      ⟨[93], 1, false, false, by decide⟩], by decide, by decide⟩]

/-- The line is wrapped in a width of two. -/
theorem wordWrapLine_wraps_iff_mixedLine :
    ∃ chunks, Returns (textOf mixedLine) 2 (some mixedLine) chunks ∧
      Wraps (textOf mixedLine) 2 chunks :=
  (wordWrapLine_wraps_iff mixedLine (by decide)).2 (by simp [mixedLine])

/-- `"你"` in a width of one is wrapped without end. -/
theorem wordWrapLine_endless :
    ¬∃ chunks, Returns [⟨[0x4F60], 2, false, true, by decide⟩] 1
      (some [.single ⟨[0x4F60], 2, false, true, by decide⟩]) chunks := by
  rintro ⟨chunks, fuel, hreturns⟩
  have hnone : wordWrapLine (fuel + 1) [⟨[0x4F60], 2, false, true, by decide⟩] 1
      (some [.single ⟨[0x4F60], 2, false, true, by decide⟩]) = none :=
    wordWrapLine_eq_none (by decide) (by decide) (mem_singleton_self _) (by decide)
      (wordWrapLine_wide (by decide) (by decide) fuel)
  rw [hreturns (fuel + 1) (Nat.le_succ fuel)] at hnone
  cases hnone

end BeauPi.Tui
