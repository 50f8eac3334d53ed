import BeauPi.Tools.EditMatches

/-!
# Replacements and the lines they touch

* `getReplacementLineRange_eq` — the lines of a range that lies in the text.
* `GroupsOk`, `groupReplacements_eq` — the groups hold all ranges and are apart.
* `Overlaid` — a text of which the touched lines are rewritten from their normal form.
* `overlaid_groups` — what `rewriteGroups` returns is such a text.
-/

namespace BeauPi.Tools

open Js Machine List

variable {lines base : List Units} {replacement : TextReplacement}

/-! ## Spans -/

/-- The text before a line. -/
def textBefore (lines : List Units) (i : Nat) : Units := (lines.take i).flatten

/-- Where a line begins. -/
def lineStart (lines : List Units) (i : Nat) : Nat := (textBefore lines i).length

/-- The span of a line. -/
def spanAt (lines : List Units) (i : Nat) : LineSpan :=
  ⟨lineStart lines i, lineStart lines (i + 1)⟩

/-- A range begins in a line, or it began before and reaches into it. -/
def LineSpan.TouchedBy (span : LineSpan) (range : Splice UInt16) : Prop :=
  range.start < span.stop ∧
    (span.start ≤ range.start ∨ span.start < range.start + range.length)

theorem textBefore_succ {line : Units} {i : Nat} (h : lines[i]? = some line) :
    textBefore lines (i + 1) = textBefore lines i ++ line := by
  rw [textBefore, textBefore, take_add_one, h]
  simp

theorem textBefore_add (lines : List Units) (i j : Nat) :
    textBefore lines (i + j) = textBefore lines i ++ textBefore (lines.drop i) j := by
  rw [textBefore, textBefore, textBefore, take_add, flatten_append]

theorem lineStart_add (lines : List Units) (i j : Nat) :
    lineStart lines (i + j) = lineStart lines i + lineStart (lines.drop i) j := by
  rw [lineStart, textBefore_add, length_append]
  rfl

theorem lineStart_mono {i j : Nat} (h : i ≤ j) : lineStart lines i ≤ lineStart lines j := by
  obtain ⟨k, rfl⟩ := Nat.exists_eq_add_of_le h
  rw [lineStart_add]
  omega

theorem lineStart_length (lines : List Units) :
    lineStart lines lines.length = lines.flatten.length := by
  rw [lineStart, textBefore, take_length]

theorem take_lineStart (lines : List Units) (i : Nat) :
    lines.flatten.take (lineStart lines i) = textBefore lines i := by
  have hsplit : textBefore lines i ++ (lines.drop i).flatten = lines.flatten := by
    rw [textBefore, ← flatten_append, take_append_drop]
  rw [← hsplit]
  exact take_left' rfl

theorem lineStart_cons (line : Units) (i : Nat) :
    lineStart (line :: lines) (i + 1) = line.length + lineStart lines i := by
  simp [lineStart, textBefore]

theorem length_spansFrom (offset : Nat) (lines : List Units) :
    (spansFrom offset lines).length = lines.length := by
  induction lines generalizing offset with
  | nil => rfl
  | cons line lines ih => simp [spansFrom, ih]

theorem spansFrom_getElem? {offset i : Nat} (h : i < lines.length) :
    (spansFrom offset lines)[i]? =
      some ⟨offset + lineStart lines i, offset + lineStart lines (i + 1)⟩ := by
  induction lines generalizing offset i with
  | nil => exact absurd h (Nat.not_lt_zero _)
  | cons line lines ih =>
    cases i with
    | zero => simp [spansFrom, lineStart, textBefore]
    | succ i =>
      rw [spansFrom, getElem?_cons_succ, ih (Nat.lt_of_succ_lt_succ h), lineStart_cons,
        lineStart_cons, Nat.add_assoc, Nat.add_assoc]

/-- The spans of a text's lines. -/
theorem spans_getElem? {i : Nat} (h : i < lines.length) :
    (spansFrom 0 lines)[i]? = some (spanAt lines i) := by
  simp [spansFrom_getElem? h, spanAt]

/-- Every position of the text is in a line. -/
theorem exists_line {position : Nat} (h : position < lines.flatten.length) :
    ∃ i < lines.length, lineStart lines i ≤ position ∧ position < lineStart lines (i + 1) := by
  induction lines generalizing position with
  | nil => exact absurd h (Nat.not_lt_zero _)
  | cons line lines ih =>
    by_cases hline : position < line.length
    · exact ⟨0, Nat.succ_pos _, by simp [lineStart, textBefore],
        by simpa [lineStart, textBefore] using hline⟩
    · rw [flatten_cons, length_append] at h
      obtain ⟨i, hi, hstart, hstop⟩ := @ih (position - line.length) (by omega)
      refine ⟨i + 1, Nat.succ_lt_succ hi, ?_, ?_⟩
      · rw [lineStart_cons]
        omega
      · rw [lineStart_cons]
        omega

/-! ## The lines of a range -/

/-- The lines from `first` to before `stop` are those that a range touches. -/
structure LinesOf (lines : List Units) (replacement : TextReplacement) (first stop : Nat) :
    Prop where
  lt : first < stop
  le_length : stop ≤ lines.length
  starts : lineStart lines first ≤ replacement.matchIndex
  starts_before : replacement.matchIndex < lineStart lines (first + 1)
  stops : replacement.matchIndex + replacement.matchLength ≤ lineStart lines stop
  reaches : ∀ i, first < i → i < stop →
    lineStart lines i < replacement.matchIndex + replacement.matchLength

theorem takeWhile_stops {α : Type} {p : α → Bool} {l : List α} (h : ∃ x ∈ l, p x = false) :
    (∃ x, l[(l.takeWhile p).length]? = some x ∧ p x = false) ∧
      ∀ j < (l.takeWhile p).length, ∀ x, l[j]? = some x → p x = true := by
  induction l with
  | nil => obtain ⟨x, hx, -⟩ := h; exact absurd hx not_mem_nil
  | cons y l ih =>
    cases hy : p y with
    | false =>
      rw [takeWhile_cons_of_neg (by simp [hy])]
      exact ⟨⟨y, rfl, hy⟩, fun j hj => absurd hj (Nat.not_lt_zero _)⟩
    | true =>
      rw [takeWhile_cons_of_pos hy, length_cons]
      obtain ⟨x, hx, hfalse⟩ := h
      have hmem : x ∈ l := by
        rcases mem_cons.1 hx with rfl | hx
        · rw [hy] at hfalse
          cases hfalse
        · exact hx
      obtain ⟨hstop, hfront⟩ := ih ⟨x, hmem, hfalse⟩
      refine ⟨hstop, fun j hj z hz => ?_⟩
      cases j with
      | zero => exact Option.some.inj hz ▸ hy
      | succ j => exact hfront j (Nat.lt_of_succ_lt_succ hj) z hz

/-- The first line of a range. -/
theorem findIdx?_spans (h : replacement.matchIndex < lines.flatten.length) :
    ∃ first < lines.length, (spansFrom 0 lines).findIdx? (fun span =>
        span.start ≤ replacement.matchIndex ∧ replacement.matchIndex < span.stop) = some first ∧
      lineStart lines first ≤ replacement.matchIndex ∧
      replacement.matchIndex < lineStart lines (first + 1) := by
  obtain ⟨i, hi, hstart, hstop⟩ := exists_line h
  cases hfind : (spansFrom 0 lines).findIdx? (fun span =>
      span.start ≤ replacement.matchIndex ∧ replacement.matchIndex < span.stop) with
  | none =>
    have hnone := findIdx?_eq_none_iff.1 hfind _ (mem_of_getElem? (spans_getElem? hi))
    simp [spanAt, hstart, hstop] at hnone
  | some first =>
    obtain ⟨hlt, hfirst, -⟩ := findIdx?_eq_some_iff_getElem.1 hfind
    rw [length_spansFrom] at hlt
    have hget := spans_getElem? hlt
    rw [getElem?_eq_getElem (by rwa [length_spansFrom])] at hget
    rw [Option.some.inj hget, decide_eq_true_iff] at hfirst
    exact ⟨first, hlt, rfl, hfirst⟩

/-- **A range that lies in the text has the lines that it touches.** -/
theorem getReplacementLineRange_eq (hstart : replacement.matchIndex < lines.flatten.length)
    (hstop : replacement.matchIndex + replacement.matchLength ≤ lines.flatten.length) :
    ∃ first stop, getReplacementLineRange (spansFrom 0 lines) replacement = .ok (first, stop) ∧
      LinesOf lines replacement first stop := by
  obtain ⟨first, hfirst, hfind, hbegins, hbefore⟩ := findIdx?_spans hstart
  have hdrop : ∀ j, first + j < lines.length →
      ((spansFrom 0 lines).drop first)[j]? = some (spanAt lines (first + j)) := by
    intro j hj
    rw [getElem?_drop, spans_getElem? hj]
  have hlast : ∃ span ∈ (spansFrom 0 lines).drop first,
      decide (span.stop < replacement.matchIndex + replacement.matchLength) = false := by
    have hget := hdrop (lines.length - 1 - first) (by omega)
    refine ⟨_, mem_of_getElem? hget, decide_eq_false ?_⟩
    have hend : first + (lines.length - 1 - first) + 1 = lines.length := by omega
    simp only [spanAt, hend, lineStart_length]
    omega
  obtain ⟨⟨span, hspan, hreached⟩, hfront⟩ := takeWhile_stops hlast
  generalize hk : (((spansFrom 0 lines).drop first).takeWhile fun span => decide
    (span.stop < replacement.matchIndex + replacement.matchLength)).length = k at hspan hfront
  have hlt : first + k < lines.length := by
    have := (List.getElem?_eq_some_iff.1 hspan).1
    rw [length_drop, length_spansFrom] at this
    omega
  rw [hdrop k hlt] at hspan
  obtain rfl := Option.some.inj hspan
  refine ⟨first, first + k + 1, ?_, ⟨by omega, hlt, hbegins, hbefore,
    Nat.not_lt.1 (of_decide_eq_false hreached), fun i hi histop => ?_⟩⟩
  · simp only [getReplacementLineRange, hfind, hk, length_spansFrom, if_neg (Nat.not_le.2 hlt)]
  · have hprev := hfront (i - 1 - first) (by omega) _ (hdrop _ (by omega))
    have hindex : first + (i - 1 - first) + 1 = i := by omega
    rw [spanAt, hindex] at hprev
    exact of_decide_eq_true hprev

/-- A range touches each of its lines. -/
theorem LinesOf.touched {first stop i : Nat} (h : LinesOf lines replacement first stop)
    (hfirst : first ≤ i) (hstop : i < stop) : (spanAt lines i).TouchedBy replacement.range := by
  refine ⟨Nat.lt_of_lt_of_le h.starts_before (lineStart_mono (Nat.succ_le_succ hfirst)), ?_⟩
  rcases Nat.eq_or_lt_of_le hfirst with rfl | hlt
  · exact .inl h.starts
  · exact .inr (h.reaches i hlt hstop)

/-! ## Groups -/

/-- A group holds ranges within its lines, which touch all of them. -/
structure GroupOk (lines : List Units) (group : ReplacementGroup) : Prop where
  lt : group.startLine < group.endLine
  le_length : group.endLine ≤ lines.length
  starts : ∀ r ∈ group.replacements, lineStart lines group.startLine ≤ r.matchIndex
  starts_before : ∀ r ∈ group.replacements, r.matchIndex < lineStart lines group.endLine
  stops : ∀ r ∈ group.replacements,
    r.matchIndex + r.matchLength ≤ lineStart lines group.endLine
  touched : ∀ i, group.startLine ≤ i → i < group.endLine →
    ∃ r ∈ group.replacements, (spanAt lines i).TouchedBy r.range

/-- Groups that hold the given ranges in order, and whose lines are apart. -/
structure GroupsOk (lines : List Units) (groups : List ReplacementGroup)
    (replacements : List TextReplacement) : Prop where
  all : groups.flatMap (·.replacements) = replacements
  group : ∀ group ∈ groups, GroupOk lines group
  apart : groups.Pairwise fun a b => a.endLine ≤ b.startLine

/-- The group of one range. -/
theorem LinesOf.groupOk {first stop : Nat} (h : LinesOf lines replacement first stop) :
    GroupOk lines ⟨first, stop, [replacement]⟩ where
  lt := h.lt
  le_length := h.le_length
  starts := by simpa using h.starts
  starts_before := by
    simpa using Nat.lt_of_lt_of_le h.starts_before (lineStart_mono h.lt)
  stops := by simpa using h.stops
  touched i hfirst hstop := ⟨replacement, mem_singleton_self _, h.touched hfirst hstop⟩

/-- A range that touches a line of the group joins it. -/
theorem GroupOk.join {group : ReplacementGroup} {first stop : Nat} (hgroup : GroupOk lines group)
    (h : LinesOf lines replacement first stop) (hfirst : first < group.endLine)
    (hsorted : ∀ r ∈ group.replacements, r.matchIndex ≤ replacement.matchIndex) :
    GroupOk lines ⟨group.startLine, max group.endLine stop,
      group.replacements ++ [replacement]⟩ := by
  have hafter : group.startLine ≤ first := by
    obtain ⟨r, hr, -⟩ := hgroup.touched group.startLine (Nat.le_refl _) hgroup.lt
    by_contra hlt
    have hmono : lineStart lines (first + 1) ≤ lineStart lines group.startLine :=
      lineStart_mono (by omega)
    have := hgroup.starts r hr
    have := hsorted r hr
    have := h.starts_before
    omega
  have hgrown : lineStart lines group.endLine ≤ lineStart lines (max group.endLine stop) :=
    lineStart_mono (Nat.le_max_left _ _)
  have hnew := h.groupOk
  have hstop : lineStart lines stop ≤ lineStart lines (max group.endLine stop) :=
    lineStart_mono (Nat.le_max_right _ _)
  refine ⟨Nat.lt_of_lt_of_le hgroup.lt (Nat.le_max_left _ _),
    Nat.max_le.2 ⟨hgroup.le_length, h.le_length⟩, fun r hr => ?_, fun r hr => ?_, fun r hr => ?_,
    fun i hstart hend => ?_⟩
  · rcases mem_append.1 hr with hr | hr
    · exact hgroup.starts r hr
    · exact Nat.le_trans (lineStart_mono hafter) (hnew.starts r hr)
  · rcases mem_append.1 hr with hr | hr
    · exact Nat.lt_of_lt_of_le (hgroup.starts_before r hr) hgrown
    · exact Nat.lt_of_lt_of_le (hnew.starts_before r hr) hstop
  · rcases mem_append.1 hr with hr | hr
    · exact Nat.le_trans (hgroup.stops r hr) hgrown
    · exact Nat.le_trans (hnew.stops r hr) hstop
  · by_cases hi : i < group.endLine
    · obtain ⟨r, hr, htouched⟩ := hgroup.touched i hstart hi
      exact ⟨r, mem_append_left _ hr, htouched⟩
    · exact ⟨replacement, mem_append_right _ (mem_singleton_self _),
        h.touched (by omega) (by have : i < max group.endLine stop := hend; omega)⟩

/-- The next range joins the last group or opens a new one. -/
theorem GroupsOk.next {groups : List ReplacementGroup} {replacements : List TextReplacement}
    {current : ReplacementGroup} {first stop : Nat}
    (hgroups : GroupsOk lines (groups ++ [current]) replacements)
    (h : LinesOf lines replacement first stop)
    (hsorted : ∀ r ∈ replacements, r.matchIndex ≤ replacement.matchIndex) :
    if first < current.endLine then
      GroupsOk lines (groups ++ [⟨current.startLine, max current.endLine stop,
        current.replacements ++ [replacement]⟩]) (replacements ++ [replacement])
    else GroupsOk lines (groups ++ [current] ++ [⟨first, stop, [replacement]⟩])
        (replacements ++ [replacement]) := by
  have hcurrent := hgroups.group current (by simp)
  have hmem : ∀ r ∈ current.replacements, r ∈ replacements := by
    intro r hr
    rw [← hgroups.all]
    exact mem_flatMap.2 ⟨current, by simp, hr⟩
  obtain ⟨hapart, -, hbefore⟩ := pairwise_append.1 hgroups.apart
  split_ifs with hjoin
  · have hjoined := hcurrent.join h hjoin fun r hr => hsorted r (hmem r hr)
    refine ⟨?_, fun group hgroup => ?_, pairwise_append.2 ⟨hapart, by simp, ?_⟩⟩
    · rw [← hgroups.all]
      simp
    · rcases mem_append.1 hgroup with hgroup | hgroup
      · exact hgroups.group group (mem_append_left _ hgroup)
      · exact mem_singleton.1 hgroup ▸ hjoined
    · intro a ha b hb
      obtain rfl := mem_singleton.1 hb
      exact hbefore a ha current (mem_singleton_self _)
  · refine ⟨?_, fun group hgroup => ?_, pairwise_append.2 ⟨hgroups.apart, by simp, ?_⟩⟩
    · rw [← hgroups.all]
      simp
    · rcases mem_append.1 hgroup with hgroup | hgroup
      · exact hgroups.group group hgroup
      · exact mem_singleton.1 hgroup ▸ h.groupOk
    · intro a ha b hb
      obtain rfl := mem_singleton.1 hb
      have hlt := hcurrent.lt
      rcases mem_append.1 ha with ha | ha
      · have := hbefore a ha current (mem_singleton_self _)
        simp only
        omega
      · obtain rfl := mem_singleton.1 ha
        exact Nat.not_lt.1 hjoin

/-- **Sorted ranges that lie in the text are put into groups.** -/
theorem groupReplacements_eq {groups : List ReplacementGroup}
    {replacements rest : List TextReplacement} (hgroups : GroupsOk lines groups replacements)
    (hsorted : (replacements ++ rest).Pairwise fun a b => a.matchIndex ≤ b.matchIndex)
    (hwithin : ∀ r ∈ rest, r.matchIndex < lines.flatten.length ∧
      r.matchIndex + r.matchLength ≤ lines.flatten.length) :
    ∃ groups', groupReplacements (spansFrom 0 lines) groups rest = .ok groups' ∧
      GroupsOk lines groups' (replacements ++ rest) := by
  induction rest generalizing groups replacements with
  | nil => exact ⟨groups, rfl, by rwa [append_nil]⟩
  | cons replacement rest ih =>
    obtain ⟨hin, hrest⟩ := forall_mem_cons.1 hwithin
    obtain ⟨first, stop, hrange, hlines⟩ := getReplacementLineRange_eq hin.1 hin.2
    have hbefore : ∀ r ∈ replacements, r.matchIndex ≤ replacement.matchIndex :=
      fun r hr => (pairwise_append.1 hsorted).2.2 r hr replacement mem_cons_self
    have hassoc : replacements ++ replacement :: rest = replacements ++ [replacement] ++ rest := by
      simp
    rw [hassoc] at hsorted ⊢
    rw [groupReplacements]
    simp only [hrange]
    rcases eq_nil_or_concat groups with rfl | ⟨front, current, rfl⟩
    · obtain rfl : replacements = [] := hgroups.all.symm
      exact ih ⟨rfl, by simpa using hlines.groupOk, by simp⟩ hsorted hrest
    · rw [concat_eq_append] at hgroups ⊢
      simp only [getLast?_concat, dropLast_concat]
      have hnext := hgroups.next hlines hbefore
      split_ifs at hnext ⊢
      · exact ih hnext hsorted hrest
      · exact ih hnext hsorted hrest

/-! ## Rewriting -/

/-- Replacing in a part of a text is replacing in the text. -/
theorem applyReplacements_drop {text : Units} {offset : Nat}
    {replacements : List TextReplacement} (hapart : Apart replacements)
    (hstarts : ∀ r ∈ replacements, offset ≤ r.matchIndex)
    (hstops : ∀ r ∈ replacements, r.matchIndex + r.matchLength ≤ text.length) :
    applyReplacements (text.drop offset) replacements offset =
      splice text offset (replacements.map (·.range)) := by
  by_cases hoffset : text.length < offset
  · have hnone : replacements = [] := by
      refine eq_nil_iff_forall_not_mem.2 fun r hr => ?_
      have := hstarts r hr
      have := hstops r hr
      omega
    subst hnone
    rfl
  · induction replacements with
    | nil => rfl
    | cons r rest ih =>
      obtain ⟨hbefore, htail⟩ := pairwise_cons.1 hapart
      obtain ⟨hr, hrest⟩ := forall_mem_cons.1 hstarts
      obtain ⟨hrstop, hreststop⟩ := forall_mem_cons.1 hstops
      have hrec := ih htail hrest hreststop
      have hfrom : ∀ range ∈ rest.map (·.range), r.matchIndex + r.matchLength ≤ range.start :=
        hbefore
      have hoff : ∀ range ∈ rest.map (·.range), offset ≤ range.start := by
        simpa [TextReplacement.range] using hrest
      have hto : ∀ range ∈ rest.map (·.range), range.start + range.length ≤ text.length := by
        simpa [TextReplacement.range] using hreststop
      -- the same text, with the ranges from `offset` and from the end of `r` on
      have hsame := (foldr_replaceRange htail hoff hto).symm.trans
        (foldr_replaceRange htail hfrom hto)
      have hcut : splice text offset (rest.map (·.range)) =
          (text.take (r.matchIndex + r.matchLength)).drop offset ++
            splice text (r.matchIndex + r.matchLength) (rest.map (·.range)) := by
        have hdrop := congrArg (List.drop offset) hsame
        rwa [drop_left' (by simp; omega), drop_append_of_le_length (by simp; omega)]
          at hdrop
      have hlength : ((text.take (r.matchIndex + r.matchLength)).drop offset).length =
          r.matchIndex - offset + r.matchLength := by
        rw [length_drop, length_take_of_le hrstop]
        omega
      have hfront : ((text.take (r.matchIndex + r.matchLength)).drop offset).take
          (r.matchIndex - offset) = (text.take r.matchIndex).drop offset := by
        rw [drop_take, drop_take, take_take, Nat.min_eq_left (by omega)]
      calc applyReplacements (text.drop offset) (r :: rest) offset
        _ = (splice text offset (rest.map (·.range))).take (r.matchIndex - offset) ++ r.newText ++
            (splice text offset (rest.map (·.range))).drop
              (r.matchIndex - offset + r.matchLength) := by
          rw [← hrec]
          rfl
        _ = (text.take r.matchIndex).drop offset ++ r.newText ++
            splice text (r.matchIndex + r.matchLength) (rest.map (·.range)) := by
          rw [hcut, take_append_of_le_length (by omega), hfront, drop_left' hlength]

/-- The lines of a text, of which those that are touched are rewritten from their normal form.
`front` is the normal form of the lines before. -/
inductive Overlaid (normal : Units → Units) :
    Units → List Units → List (Splice UInt16) → Units → Prop
  | nil {front : Units} : Overlaid normal front [] [] []
  /-- A line that no range touches is kept. -/
  | kept {front line result : Units} {lines : List Units} {ranges : List (Splice UInt16)}
    (untouched : ∀ range ∈ ranges,
      ¬(⟨front.length, (front ++ normal line).length⟩ : LineSpan).TouchedBy range)
    (rest : Overlaid normal (front ++ normal line) lines ranges result) :
    Overlaid normal front (line :: lines) ranges (line ++ result)
  /-- A block of lines that are all touched is its normal form with the ranges replaced. -/
  | touched {front result : Units} {block lines : List Units} {own ranges : List (Splice UInt16)}
    (nonempty : block ≠ [])
    (touched : ∀ span ∈ spansFrom front.length (block.map normal),
      ∃ range ∈ own, span.TouchedBy range)
    (within : ∀ range ∈ own, front.length ≤ range.start ∧
      range.start < (front ++ (block.map normal).flatten).length ∧
      range.start + range.length ≤ (front ++ (block.map normal).flatten).length)
    (rest : Overlaid normal (front ++ (block.map normal).flatten) lines ranges result) :
    Overlaid normal front (block ++ lines) (own ++ ranges)
      (splice (front ++ (block.map normal).flatten) front.length own ++ result)

variable {normal : Units → Units} {ranges : List (Splice UInt16)} {result : Units}

/-- Lines that no range touches are kept. -/
theorem Overlaid.keep {i j : Nat} (hle : i ≤ j) (hj : j ≤ lines.length)
    (huntouched : ∀ k, i ≤ k → k < j → ∀ range ∈ ranges,
      ¬(spanAt (lines.map normal) k).TouchedBy range)
    (hrest : Overlaid normal (textBefore (lines.map normal) j) (lines.drop j) ranges result) :
    Overlaid normal (textBefore (lines.map normal) i) (lines.drop i) ranges
      (sliceLines lines i j ++ result) := by
  obtain ⟨n, rfl⟩ := Nat.exists_eq_add_of_le hle
  induction n generalizing i with
  | zero => simpa [sliceLines] using hrest
  | succ n ih =>
    have hi : i < lines.length := by omega
    have hnormal : (lines.map normal)[i]? = some (normal lines[i]) := by simp [hi]
    have hnext : i + 1 + n = i + (n + 1) := by omega
    have htail := @ih (i + 1) (by omega) (by omega)
      (fun k hk hkj => huntouched k (by omega) (by omega)) (by rwa [hnext])
    have hslice : sliceLines lines i (i + (n + 1)) =
        lines[i] ++ sliceLines lines (i + 1) (i + 1 + n) := by
      have hhead : (lines.take (i + (n + 1)))[i]? = some lines[i] := by
        rw [getElem?_take_of_lt (by omega), getElem?_eq_getElem hi]
      obtain ⟨hshort, hget⟩ := List.getElem?_eq_some_iff.1 hhead
      rw [sliceLines, sliceLines, hnext, drop_eq_getElem_cons hshort, hget,
        flatten_cons]
    rw [drop_eq_getElem_cons hi, hslice, append_assoc]
    rw [textBefore_succ hnormal] at htail
    refine .kept (fun range hrange => ?_) htail
    have hspan := huntouched i (Nat.le_refl _) (by omega) range hrange
    rwa [spanAt, lineStart, lineStart, textBefore_succ hnormal] at hspan

/-- The spans of a block are spans of the text. -/
theorem mem_spansFrom_block {span : LineSpan} {i j : Nat} (hij : i ≤ j) (hj : j ≤ lines.length)
    (hspan : span ∈ spansFrom (lineStart lines i) ((lines.take j).drop i)) :
    ∃ k, i ≤ k ∧ k < j ∧ span = spanAt lines k := by
  obtain ⟨k, hbound, hget⟩ := getElem_of_mem hspan
  have hk := hbound
  have hlength : ((lines.take j).drop i).length = j - i := by
    rw [length_drop, length_take_of_le hj]
  rw [length_spansFrom, hlength] at hk
  have hspan := @spansFrom_getElem? _ (lineStart lines i) k (by rwa [hlength])
  rw [getElem?_eq_getElem hbound, hget] at hspan
  have hblock : ∀ m ≤ j - i, lineStart ((lines.take j).drop i) m = lineStart (lines.drop i) m := by
    intro m hm
    rw [lineStart, lineStart, textBefore, textBefore, drop_take, take_take,
      Nat.min_eq_left hm]
  refine ⟨i + k, by omega, by omega, ?_⟩
  rw [Option.some.inj hspan, hblock k (by omega), hblock (k + 1) hk, ← lineStart_add,
    ← lineStart_add]
  rfl

/-- The lines before `j` are those before `i` and a block. -/
theorem textBefore_block {i j : Nat} (hij : i ≤ j) (lines : List Units) :
    textBefore lines j = textBefore lines i ++ ((lines.take j).drop i).flatten := by
  obtain ⟨n, rfl⟩ := Nat.exists_eq_add_of_le hij
  rw [textBefore_add, drop_take, Nat.add_sub_cancel_left]
  rfl

/-- The lines from `i` on are a block and those from `j` on. -/
theorem drop_block {i j : Nat} (hij : i ≤ j) (hj : j ≤ lines.length) :
    lines.drop i = (lines.take j).drop i ++ lines.drop j := by
  have hlength : i ≤ (lines.take j).length := by rwa [length_take_of_le hj]
  rw [← drop_append_of_le_length hlength, take_append_drop]

/-- All ranges begin in the first group's first line or after it. -/
theorem GroupsOk.starts {group : ReplacementGroup} {groups : List ReplacementGroup}
    {replacements : List TextReplacement} (h : GroupsOk lines (group :: groups) replacements) :
    ∀ r ∈ replacements, lineStart lines group.startLine ≤ r.matchIndex := by
  obtain ⟨hgroup, hothers⟩ := forall_mem_cons.1 h.group
  intro r hr
  rw [← h.all, flatMap_cons] at hr
  rcases mem_append.1 hr with hr | hr
  · exact hgroup.starts r hr
  · obtain ⟨other, hother, hr⟩ := mem_flatMap.1 hr
    have hafter := (pairwise_cons.1 h.apart).1 other hother
    have hlt := hgroup.lt
    exact Nat.le_trans (lineStart_mono (by omega)) ((hothers other hother).starts r hr)

/-- **The text that the groups give is overlaid with their ranges.** -/
theorem overlaid_groups {groups : List ReplacementGroup} {replacements : List TextReplacement}
    {i : Nat} (hgroups : GroupsOk (lines.map normal) groups replacements)
    (hfrom : ∀ group ∈ groups, i ≤ group.startLine) (hi : i ≤ lines.length)
    (hapart : Apart replacements) :
    Overlaid normal (textBefore (lines.map normal) i) (lines.drop i)
      (replacements.map (·.range))
      (rewriteGroups lines (lines.map normal).flatten (spansFrom 0 (lines.map normal)) i
        groups) := by
  induction groups generalizing i replacements with
  | nil =>
    obtain rfl : replacements = [] := hgroups.all.symm
    have hend : Overlaid normal (textBefore (lines.map normal) lines.length)
        (lines.drop lines.length) [] [] := by
      rw [drop_length]
      exact .nil
    simpa [rewriteGroups] using hend.keep hi (Nat.le_refl _) (by simp)
  | cons group groups ih =>
    obtain ⟨hbefore, htail⟩ := pairwise_cons.1 hgroups.apart
    obtain ⟨hgroup, hothers⟩ := forall_mem_cons.1 hgroups.group
    have hstarts := hgroups.starts
    have hall := hgroups.all
    rw [flatMap_cons] at hall
    subst hall
    have hlength := hgroup.le_length
    rw [length_map] at hlength
    rw [Apart, map_append, pairwise_append] at hapart
    obtain ⟨hown, hrest, -⟩ := hapart
    have hnext := ih ⟨rfl, hothers, htail⟩ hbefore hlength hrest
    have hstart := hfrom group mem_cons_self
    have hlt := hgroup.lt
    have hmapped : ((lines.take group.endLine).drop group.startLine).map normal =
        ((lines.map normal).take group.endLine).drop group.startLine := by
      rw [map_drop, map_take]
    have hfront : textBefore (lines.map normal) group.endLine =
        textBefore (lines.map normal) group.startLine ++
          (((lines.take group.endLine).drop group.startLine).map normal).flatten := by
      rw [hmapped]
      exact textBefore_block hlt.le _
    have hlines := drop_block hlt.le hlength
    have hblock : applyReplacements
        (((lines.map normal).flatten.take (lineStart (lines.map normal) group.endLine)).drop
          (lineStart (lines.map normal) group.startLine)) group.replacements
        (lineStart (lines.map normal) group.startLine) =
        splice (textBefore (lines.map normal) group.endLine)
          (textBefore (lines.map normal) group.startLine).length
          (group.replacements.map (·.range)) := by
      rw [take_lineStart]
      exact applyReplacements_drop hown hgroup.starts hgroup.stops
    have hspans : ∀ k < (lines.map normal).length,
        (spansFrom 0 (lines.map normal))[k]? = some (spanAt (lines.map normal) k) :=
      fun k hk => spans_getElem? hk
    have hprev : group.endLine - 1 + 1 = group.endLine := by omega
    rw [rewriteGroups]
    simp only [hspans group.startLine (by rw [length_map]; omega),
      hspans (group.endLine - 1) (by rw [length_map]; omega), Option.map_some,
      Option.getD_some, spanAt, hprev, hblock]
    rw [append_assoc, map_append]
    refine Overlaid.keep hstart (by omega) (fun k _ hk range hrange htouched => ?_) ?_
    · have hbegins : lineStart (lines.map normal) group.startLine ≤ range.start := by
        rw [← map_append, mem_map] at hrange
        obtain ⟨r, hr, rfl⟩ := hrange
        exact hstarts r hr
      have hstop : range.start < lineStart (lines.map normal) (k + 1) := htouched.1
      have hmono : lineStart (lines.map normal) (k + 1) ≤
          lineStart (lines.map normal) group.startLine := lineStart_mono hk
      omega
    · rw [hlines, hfront]
      refine .touched ?_ (fun span hspan => ?_) (fun range hrange => ?_) (hfront ▸ hnext)
      · intro hnil
        have := congrArg List.length hnil
        rw [length_drop, length_take_of_le hlength, length_nil] at this
        omega
      · rw [hmapped] at hspan
        obtain ⟨k, hk, hkend, rfl⟩ := mem_spansFrom_block hlt.le hgroup.le_length hspan
        obtain ⟨r, hr, htouched⟩ := hgroup.touched k hk hkend
        exact ⟨r.range, mem_map_of_mem hr, htouched⟩
      · obtain ⟨r, hr, rfl⟩ := mem_map.1 hrange
        exact ⟨hgroup.starts r hr, hfront ▸ hgroup.starts_before r hr, hfront ▸ hgroup.stops r hr⟩

end BeauPi.Tools
