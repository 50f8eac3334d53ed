import BeauPi.Tools.LineGroups
import Mathlib.Data.List.DropRight

/-!
# Fuzzy edits leave other lines alone

* `splitLines_normalized` — the lines of a normalized text, of which an empty last line is gone.
* `MatchedFuzzily`, `applyEdits_fuzzy` — edits that match in the normalized space.
* `LeavesOtherLines` — what is to hold of them: touched lines are rewritten, the others are kept.
* `fuzzyEdits_leave_iff` — it does exactly if no line of the text normalizes to nothing.
-/

namespace BeauPi.Tools

open Js Machine List

variable {nfkc : Units → Units} {content base : Units} {edits : List Edit} {path : String}
  {edit : Edit}

/-! ## Lines and their normal forms -/

/-- What is relied on of `normalize("NFKC")`. -/
structure ActsPerLine (nfkc : Units → Units) : Prop where
  lines_eq : ∀ text, lines (nfkc text) = (lines text).map nfkc
  nil : nfkc [] = []
  /-- What is in normal form stays so when white space is cut and characters are made plain. -/
  normal : ∀ text, nfkc (normalizeForFuzzyMatch nfkc text) = normalizeForFuzzyMatch nfkc text

/-- The lines with the line feeds between them; an empty last line is none. -/
def closeLines : List Units → List Units
  | [] => []
  | [line] => if line = [] then [] else [line]
  | line :: next :: rest => (line ++ [lineFeed]) :: closeLines (next :: rest)

theorem closeLines_cons (line : Units) {rest : List Units} (h : rest ≠ []) :
    closeLines (line :: rest) = (line ++ [lineFeed]) :: closeLines rest := by
  cases rest with
  | nil => exact absurd rfl h
  | cons next rest => rfl

theorem splitText_lineFeed_ne_nil (part text : Units) :
    splitText [lineFeed] 0 part text ≠ [] := by
  have := length_splitText_pos [lineFeed] part text
  exact length_pos_iff.1 this

/-- `splitLinesWithEndings` are the lines of `split("\n")` with their line feeds. -/
theorem splitLinesFrom_eq (part text : Units) :
    splitLinesFrom part text = closeLines (splitText [lineFeed] 0 part text) := by
  induction text generalizing part with
  | nil => rfl
  | cons unit text ih =>
    rw [splitLinesFrom, splitText_lineFeed]
    split_ifs with hfeed
    · rw [closeLines_cons _ (splitText_lineFeed_ne_nil _ _), ih, hfeed]
    · exact ih _

/-- No line holds a line feed. -/
theorem lineFeed_notMem {part text line : Units} (hpart : lineFeed ∉ part)
    (h : line ∈ splitText [lineFeed] 0 part text) : lineFeed ∉ line := by
  induction text generalizing part with
  | nil => exact mem_singleton.1 h ▸ hpart
  | cons unit text ih =>
    rw [splitText_lineFeed] at h
    split_ifs at h with hfeed
    · rcases mem_cons.1 h with rfl | h
      · exact hpart
      · exact ih not_mem_nil h
    · exact ih (by simp [hpart, Ne.symm hfeed]) h

/-- Text without a line feed is put to the line so far. -/
theorem splitText_append {line : Units} (h : lineFeed ∉ line) (part text : Units) :
    splitText [lineFeed] 0 part (line ++ text) = splitText [lineFeed] 0 (part ++ line) text := by
  induction line generalizing part with
  | nil => simp
  | cons unit line ih =>
    obtain ⟨hunit, hline⟩ := not_or.1 (mt mem_cons.2 h)
    rw [cons_append, splitText_lineFeed, if_neg (Ne.symm hunit), ih hline]
    simp

/-- Lines that are joined are the lines of the text. -/
theorem lines_intercalate {ls : List Units} (hne : ls ≠ []) (h : ∀ line ∈ ls, lineFeed ∉ line) :
    lines ([lineFeed].intercalate ls) = ls := by
  have hjoin : ∀ first rest, (∀ line ∈ first :: rest, lineFeed ∉ line) →
      splitText [lineFeed] 0 [] ([lineFeed].intercalate (first :: rest)) = first :: rest := by
    intro first rest hfree
    induction rest generalizing first with
    | nil =>
      obtain ⟨hfirst, -⟩ := forall_mem_cons.1 hfree
      have happend := splitText_append hfirst [] []
      simpa [intercalate_singleton, splitText] using happend
    | cons next rest ih =>
      obtain ⟨hfirst, hrest⟩ := forall_mem_cons.1 hfree
      rw [intercalate_cons_cons, append_assoc, splitText_append hfirst,
        singleton_append, splitText_lineFeed, if_pos rfl, ih next hrest, nil_append]
  cases ls with
  | nil => exact absurd rfl hne
  | cons first rest => exact hjoin first rest h

/-- The normal form of a line without a line feed. -/
def normalLine (nfkc : Units → Units) (line : Units) : Units :=
  (trimEndUnits (nfkc line)).map plainUnit

theorem plainUnit_eq_lineFeed {unit : UInt16} (h : plainUnit unit = lineFeed) :
    unit = lineFeed := by
  unfold plainUnit at h
  split_ifs at h <;> first | exact absurd h (by decide) | exact h

theorem map_intercalate (ls : List Units) : ([lineFeed].intercalate ls).map plainUnit =
    [lineFeed].intercalate (ls.map (·.map plainUnit)) := by
  induction ls with
  | nil => rfl
  | cons line ls ih =>
    cases ls with
    | nil => simp
    | cons next ls =>
      have hjoin : [lineFeed].intercalate ((line :: next :: ls).map (·.map plainUnit)) =
          line.map plainUnit ++ [lineFeed] ++
            [lineFeed].intercalate ((next :: ls).map (·.map plainUnit)) :=
        intercalate_cons_cons
      rw [hjoin, ← ih, intercalate_cons_cons, map_append, map_append]
      rfl

/-- The normal form of a text, line by line. -/
theorem normalizeForFuzzyMatch_eq (hnfkc : ActsPerLine nfkc) (text : Units) :
    normalizeForFuzzyMatch nfkc text =
      [lineFeed].intercalate ((lines text).map (normalLine nfkc)) := by
  rw [normalizeForFuzzyMatch, map_intercalate, hnfkc.lines_eq, map_map, map_map]
  rfl

theorem normalLine_free (hnfkc : ActsPerLine nfkc) {line : Units} (h : lineFeed ∉ line) :
    lineFeed ∉ normalLine nfkc line := by
  have hlines : lines line = [line] := by
    simpa [lines, splitText] using splitText_append h [] []
  have hsame := hnfkc.lines_eq line
  rw [hlines, map_singleton] at hsame
  have hfree : lineFeed ∉ nfkc line := by
    refine @lineFeed_notMem [] (nfkc line) _ not_mem_nil ?_
    rw [← lines, hsame]
    exact mem_singleton_self _
  intro hmem
  obtain ⟨unit, hunit, hplain⟩ := mem_map.1 hmem
  exact hfree (plainUnit_eq_lineFeed hplain ▸ mem_trimEndUnits hunit)

/-- The lines of a normalized text. -/
theorem lines_normalized (hnfkc : ActsPerLine nfkc) (text : Units) :
    lines (normalizeForFuzzyMatch nfkc text) = (lines text).map (normalLine nfkc) := by
  rw [normalizeForFuzzyMatch_eq hnfkc, lines_intercalate]
  · simpa [lines] using splitText_lineFeed_ne_nil [] text
  · intro line hline
    obtain ⟨original, horiginal, rfl⟩ := mem_map.1 hline
    exact normalLine_free hnfkc (lineFeed_notMem not_mem_nil horiginal)

theorem normalLine_nil (hnfkc : ActsPerLine nfkc) : normalLine nfkc [] = [] := by
  rw [normalLine, hnfkc.nil]
  rfl

/-- The normal form of a line, without and with its line feed. -/
theorem normalize_line (hnfkc : ActsPerLine nfkc) {line : Units} (h : lineFeed ∉ line) :
    normalizeForFuzzyMatch nfkc line = normalLine nfkc line ∧
      normalizeForFuzzyMatch nfkc (line ++ [lineFeed]) = normalLine nfkc line ++ [lineFeed] := by
  have hplain : lines line = [line] := by
    simpa [lines, splitText] using splitText_append h [] []
  have hclosed : lines (line ++ [lineFeed]) = [line, []] := by
    rw [lines, splitText_append h, splitText_lineFeed, if_pos rfl]
    rfl
  rw [normalizeForFuzzyMatch_eq hnfkc, normalizeForFuzzyMatch_eq hnfkc, hplain, hclosed]
  simp [normalLine_nil hnfkc, intercalate_cons_cons]

theorem closeLines_normalized (hnfkc : ActsPerLine nfkc) {ls : List Units}
    (h : ∀ line ∈ ls, lineFeed ∉ line) : closeLines (ls.map (normalLine nfkc)) =
      ((closeLines ls).map (normalizeForFuzzyMatch nfkc)).filter (· ≠ []) := by
  fun_induction closeLines ls with
  | case1 => rfl
  | case2 => simp [closeLines, normalLine_nil hnfkc]
  | case3 line hne =>
    have hline := (normalize_line hnfkc (h line (mem_singleton_self _))).1
    simp only [map_singleton, closeLines, hline]
    split_ifs with hempty
    · simp [hempty]
    · simp [hempty]
  | case4 line next rest ih =>
    obtain ⟨hfirst, hrest⟩ := forall_mem_cons.1 h
    rw [map_cons, closeLines_cons _ (by simp), ih hrest, map_cons,
      (normalize_line hnfkc hfirst).2, filter_cons_of_pos (by simp)]

/-- **The lines of a normalized text are the normalized lines, without those that are empty.** -/
theorem splitLines_normalized (hnfkc : ActsPerLine nfkc) (content : Units) :
    splitLinesWithEndings (normalizeForFuzzyMatch nfkc content) =
      ((splitLinesWithEndings content).map (normalizeForFuzzyMatch nfkc)).filter (· ≠ []) := by
  rw [splitLinesWithEndings, splitLinesWithEndings, splitLinesFrom_eq, splitLinesFrom_eq,
    ← closeLines_normalized hnfkc fun line hline => lineFeed_notMem not_mem_nil hline]
  exact congrArg closeLines (lines_normalized hnfkc content)

theorem flatten_splitLinesFrom (part text : Units) :
    (splitLinesFrom part text).flatten = part ++ text := by
  induction text generalizing part with
  | nil =>
    rw [splitLinesFrom]
    split_ifs with hpart
    · simp [hpart]
    · simp
  | cons unit text ih =>
    rw [splitLinesFrom]
    split_ifs with hfeed
    · simp [ih]
    · simp [ih]

/-- The lines make up the text. -/
theorem flatten_splitLines (content : Units) : (splitLinesWithEndings content).flatten = content :=
  flatten_splitLinesFrom [] content

/-! ## Normalizing twice -/

theorem plainUnit_plainUnit (unit : UInt16) : plainUnit (plainUnit unit) = plainUnit unit := by
  unfold plainUnit
  split_ifs <;> first | rfl | simp_all

theorem isSpaceUnit_plainUnit (unit : UInt16) :
    isSpaceUnit (plainUnit unit) = isSpaceUnit unit := by
  unfold plainUnit
  split_ifs with hquote hdouble hdash hblank
  · simp only [mem_cons, not_mem_nil, or_false] at hquote
    rcases hquote with rfl | rfl | rfl | rfl <;> rfl
  · simp only [mem_cons, not_mem_nil, or_false] at hdouble
    rcases hdouble with rfl | rfl | rfl | rfl <;> rfl
  · simp only [mem_cons, not_mem_nil, or_false] at hdash
    rcases hdash with rfl | rfl | rfl | rfl | rfl | rfl | rfl <;> rfl
  · have hspace : isSpaceUnit unit = true := by
      rcases hblank with rfl | ⟨hlow, hhigh⟩ | rfl | rfl | rfl
      · rfl
      · have hfrom : (0x2000 : UInt16) ≤ unit := UInt16.le_trans (by decide) hlow
        simp [isSpaceUnit, hfrom, hhigh]
      · rfl
      · rfl
      · rfl
    rw [hspace]
    rfl
  · rfl

theorem trimEndUnits_plain (text : Units) :
    trimEndUnits (text.map plainUnit) = (trimEndUnits text).map plainUnit := by
  have hspace : isSpaceUnit ∘ plainUnit = isSpaceUnit := funext isSpaceUnit_plainUnit
  rw [trimEndUnits, trimEndUnits, ← map_reverse, dropWhile_map, hspace,
    map_reverse]

theorem trimEndUnits_trimEndUnits (text : Units) :
    trimEndUnits (trimEndUnits text) = trimEndUnits text := by
  rw [trimEndUnits, trimEndUnits, reverse_reverse, dropWhile_idempotent]

/-- Normalizing again changes nothing. -/
theorem normalize_normalize (hnfkc : ActsPerLine nfkc) (text : Units) :
    normalizeForFuzzyMatch nfkc (normalizeForFuzzyMatch nfkc text) =
      normalizeForFuzzyMatch nfkc text := by
  have hagain : ∀ line, (trimEndUnits (normalLine nfkc line)).map plainUnit =
      normalLine nfkc line := by
    intro line
    rw [normalLine, trimEndUnits_plain, trimEndUnits_trimEndUnits, map_map]
    exact map_congr_left fun unit _ => plainUnit_plainUnit unit
  conv_lhs => rw [normalizeForFuzzyMatch, hnfkc.normal, lines_normalized hnfkc, map_intercalate,
    map_map, map_map]
  rw [normalizeForFuzzyMatch_eq hnfkc]
  exact congrArg _ (map_congr_left fun line _ => hagain line)

/-! ## Edits that match in the normalized space -/

/-- What an edit replaces in the text it is searched in. -/
def foundReplacement (nfkc : Units → Units) (base : Units) (edit : Edit) : TextReplacement :=
  ⟨(fuzzyFindText nfkc base edit.oldText).index.getD 0,
    (fuzzyFindText nfkc base edit.oldText).matchLength, edit.newText⟩

/-- The replacements of edits, sorted. -/
def foundReplacements (nfkc : Units → Units) (base : Units) (edits : List Edit) :
    List TextReplacement :=
  (edits.map fun edit => foundReplacement nfkc base edit.normalized).mergeSort startsBefore

/-- An edit needs the normalized space, and there all edits match once and disjointly. -/
structure MatchedFuzzily (nfkc : Units → Units) (content : Units) (edits : List Edit) : Prop where
  nonempty : ∀ edit ∈ edits, edit.normalized.oldText ≠ []
  fuzzy : usesFuzzyMatch nfkc content edits = true
  found : ∀ edit ∈ edits,
    ¬CountedTwice nfkc (normalizeForFuzzyMatch nfkc content) edit.normalized.oldText ∧
      ¬Missing nfkc (normalizeForFuzzyMatch nfkc content) edit.normalized.oldText
  apart : Apart (foundReplacements nfkc (normalizeForFuzzyMatch nfkc content) edits)

theorem foundReplacements_sorted (nfkc : Units → Units) (base : Units) (edits : List Edit) :
    (foundReplacements nfkc base edits).Pairwise fun a b => startsBefore a b = true :=
  pairwise_startsBefore _

theorem matchEdit_found {totalEdits k : Nat} {matched : MatchedEdit} :
    matchEdit nfkc base path totalEdits (edit, k) = .ok matched ↔
      (¬CountedTwice nfkc base edit.oldText ∧ ¬Missing nfkc base edit.oldText) ∧
      matched = ⟨foundReplacement nfkc base edit, k⟩ := by
  rw [matchEdit_eq_ok, ← fuzzyFindText_index_eq_none, and_assoc]
  refine and_congr_right fun _ => ?_
  cases hindex : (fuzzyFindText nfkc base edit.oldText).index with
  | none => simp
  | some index => simp [foundReplacement, hindex]

/-- The checks of such edits pass. -/
theorem applyEdits_fuzzy (h : MatchedFuzzily nfkc content edits) :
    applyEditsToNormalizedContent nfkc content edits path =
      (applyReplacementsPreservingUnchangedLines content (normalizeForFuzzyMatch nfkc content)
        (foundReplacements nfkc (normalizeForFuzzyMatch nfkc content) edits) >>= fun newContent =>
      if content = newContent then .error (getNoChangeError path edits.length)
      else .ok ⟨content, newContent⟩) := by
  have hsorted := matches_sorted
    (foundReplacement nfkc (normalizeForFuzzyMatch nfkc content)) edits
  have hmatched : (edits.map (·.normalized)).zipIdx.mapM (matchEdit nfkc
      (normalizeForFuzzyMatch nfkc content) path (edits.map (·.normalized)).length) =
      .ok (matchesOf (foundReplacement nfkc (normalizeForFuzzyMatch nfkc content)) edits) := by
    refine (mapM_eq_ok_iff fun x _ y => matchEdit_found).2 ⟨?_, rfl⟩
    refine (@forall_mem_zipIdx _ (fun e : Edit =>
      ¬CountedTwice nfkc (normalizeForFuzzyMatch nfkc content) e.oldText ∧
        ¬Missing nfkc (normalizeForFuzzyMatch nfkc content) e.oldText) _).2 fun e he => ?_
    obtain ⟨edit, hedit, rfl⟩ := mem_map.1 he
    exact h.found edit hedit
  have hapart := h.apart
  rw [foundReplacements, ← hsorted, ← findOverlap_eq_none_iff] at hapart
  unfold applyEditsToNormalizedContent
  simp only [findIdx?_empty_eq_none.2 h.nonempty, h.fuzzy, if_true, hmatched]
  rw [foundReplacements, ← hsorted]
  simp only [bind, Except.bind, hapart, length_map]

/-- What is found lies in the normalized text. -/
theorem foundReplacement_within (hnfkc : ActsPerLine nfkc) (hold : edit.oldText ≠ [])
    (hbase : normalizeForFuzzyMatch nfkc content ≠ [])
    (hfound : ¬Missing nfkc (normalizeForFuzzyMatch nfkc content) edit.oldText) :
    (foundReplacement nfkc (normalizeForFuzzyMatch nfkc content) edit).matchIndex <
        (normalizeForFuzzyMatch nfkc content).length ∧
      (foundReplacement nfkc (normalizeForFuzzyMatch nfkc content) edit).matchIndex +
        (foundReplacement nfkc (normalizeForFuzzyMatch nfkc content) edit).matchLength ≤
        (normalizeForFuzzyMatch nfkc content).length := by
  have hin : ∀ {pattern : Units} {i : Nat}, pattern ≠ [] →
      OccursAt (normalizeForFuzzyMatch nfkc content) pattern i →
      i < (normalizeForFuzzyMatch nfkc content).length ∧
        i + pattern.length ≤ (normalizeForFuzzyMatch nfkc content).length := by
    intro pattern i hne hoccurs
    have hle := hoccurs.add_le hne
    have := length_pos_iff.2 hne
    exact ⟨by omega, hle⟩
  rw [← fuzzyFindText_index_eq_none] at hfound
  unfold foundReplacement
  cases hexact : indexOf? edit.oldText (normalizeForFuzzyMatch nfkc content) with
  | some index =>
    rw [fuzzyFindText_of_occurs hexact]
    exact hin hold (indexOf?_eq_some hexact).1
  | none =>
    simp only [fuzzyFindText, hexact, normalize_normalize hnfkc] at hfound ⊢
    cases hfuzzy : indexOf? (normalizeForFuzzyMatch nfkc edit.oldText)
        (normalizeForFuzzyMatch nfkc content) with
    | none =>
      simp only [hfuzzy] at hfound
      exact absurd trivial hfound
    | some index =>
      simp only [Option.getD_some]
      by_cases hempty : normalizeForFuzzyMatch nfkc edit.oldText = []
      · -- the empty text is found at the start
        have hfirst := (indexOf?_eq_some hfuzzy).2 0
        have hzero : index = 0 := by
          by_contra hne
          exact hfirst (Nat.pos_of_ne_zero hne) (by simp [OccursAt, hempty])
        rw [hzero, hempty]
        exact ⟨length_pos_iff.2 hbase, Nat.zero_le _⟩
      · exact hin hempty (indexOf?_eq_some hfuzzy).1

/-! ## The other lines -/

/-- The edits succeed unless they change nothing; lines that no range touches stay as they are,
and a block of touched lines is its normal form with the ranges replaced. -/
def LeavesOtherLines (nfkc : Units → Units) (content : Units) (edits : List Edit)
    (path : String) : Prop :=
  ∃ newContent,
    Overlaid (normalizeForFuzzyMatch nfkc) [] (splitLinesWithEndings content)
      ((foundReplacements nfkc (normalizeForFuzzyMatch nfkc content) edits).map (·.range))
      newContent ∧
    applyEditsToNormalizedContent nfkc content edits path =
      if content = newContent then .error (getNoChangeError path edits.length)
      else .ok ⟨content, newContent⟩

/-- The content has lines, and none of them normalizes to nothing. -/
def LinesStay (nfkc : Units → Units) (content : Units) : Prop :=
  content ≠ [] ∧ ∀ line ∈ splitLinesWithEndings content, normalizeForFuzzyMatch nfkc line ≠ []

instance (nfkc : Units → Units) (content : Units) : Decidable (LinesStay nfkc content) :=
  inferInstanceAs (Decidable (_ ∧ _))

/-- Lines that stay are rewritten as they should be. -/
theorem preserving_overlaid (hnfkc : ActsPerLine nfkc) (h : MatchedFuzzily nfkc content edits)
    (hstay : LinesStay nfkc content) : ∃ newContent,
    applyReplacementsPreservingUnchangedLines content (normalizeForFuzzyMatch nfkc content)
      (foundReplacements nfkc (normalizeForFuzzyMatch nfkc content) edits) = .ok newContent ∧
    Overlaid (normalizeForFuzzyMatch nfkc) [] (splitLinesWithEndings content)
      ((foundReplacements nfkc (normalizeForFuzzyMatch nfkc content) edits).map (·.range))
      newContent := by
  have hlines : splitLinesWithEndings (normalizeForFuzzyMatch nfkc content) =
      (splitLinesWithEndings content).map (normalizeForFuzzyMatch nfkc) := by
    rw [splitLines_normalized hnfkc, filter_eq_self]
    intro line hline
    obtain ⟨original, horiginal, rfl⟩ := mem_map.1 hline
    exact decide_eq_true (hstay.2 original horiginal)
  have hflat : ((splitLinesWithEndings content).map (normalizeForFuzzyMatch nfkc)).flatten =
      normalizeForFuzzyMatch nfkc content := by
    rw [← hlines, flatten_splitLines]
  have hbase : normalizeForFuzzyMatch nfkc content ≠ [] := by
    intro hempty
    rw [hempty, flatten_eq_nil_iff, forall_mem_map] at hflat
    cases hfirst : splitLinesWithEndings content with
    | nil => exact hstay.1 (by rw [← flatten_splitLines content, hfirst, flatten_nil])
    | cons line rest =>
      have hmem : line ∈ splitLinesWithEndings content := by simp [hfirst]
      exact hstay.2 line hmem (hflat line hmem)
  have hwithin : ∀ r ∈ foundReplacements nfkc (normalizeForFuzzyMatch nfkc content) edits,
      r.matchIndex < (normalizeForFuzzyMatch nfkc content).length ∧
        r.matchIndex + r.matchLength ≤ (normalizeForFuzzyMatch nfkc content).length := by
    intro r hr
    obtain ⟨edit, hedit, rfl⟩ := mem_map.1 ((mergeSort_perm _ _).mem_iff.1 hr)
    exact foundReplacement_within hnfkc (h.nonempty edit hedit) hbase (h.found edit hedit).2
  have hsorted := foundReplacements_sorted nfkc (normalizeForFuzzyMatch nfkc content) edits
  have hapart := h.apart
  generalize foundReplacements nfkc (normalizeForFuzzyMatch nfkc content) edits = replacements at *
  rw [← hflat] at hwithin
  obtain ⟨groups, hgroups, hok⟩ := @groupReplacements_eq
    ((splitLinesWithEndings content).map (normalizeForFuzzyMatch nfkc)) [] [] _
    ⟨rfl, by simp, by simp⟩ (hsorted.imp fun hle => of_decide_eq_true hle) hwithin
  refine ⟨_, ?_, overlaid_groups hok (fun _ _ => Nat.zero_le _) (Nat.zero_le _) hapart⟩
  unfold applyReplacementsPreservingUnchangedLines getLineSpans
  simp only [hlines, length_spansFrom, length_map, ne_eq, not_true_eq_false, if_false, hflat,
    mergeSort_of_pairwise hsorted, hgroups]
  rfl

/-- The message of an edit without an effect is no other message. -/
theorem getNoChangeError_ne {totalEdits : Nat} {message : String}
    (h : message.toList.head? ≠ some 'N') : getNoChangeError path totalEdits ≠ message := by
  rintro rfl
  refine h ?_
  unfold getNoChangeError
  split_ifs
  · simp
  · simp

/-- Lines that do not stay make the edits fail. -/
theorem preserving_fails (hnfkc : ActsPerLine nfkc) (h : MatchedFuzzily nfkc content edits)
    (hstay : ¬LinesStay nfkc content) : ∃ message,
    applyReplacementsPreservingUnchangedLines content (normalizeForFuzzyMatch nfkc content)
      (foundReplacements nfkc (normalizeForFuzzyMatch nfkc content) edits) = .error message ∧
    message.toList.head? ≠ some 'N' := by
  by_cases hempty : content = []
  · subst hempty
    have hbase : normalizeForFuzzyMatch nfkc [] = [] :=
      ((normalize_line hnfkc not_mem_nil).1).trans (normalLine_nil hnfkc)
    have hsome : foundReplacements nfkc [] edits ≠ [] := by
      intro hnil
      have hlength := congrArg List.length hnil
      rw [foundReplacements, length_mergeSort, length_map] at hlength
      have hfuzzy := h.fuzzy
      rw [length_eq_zero_iff.1 hlength] at hfuzzy
      cases hfuzzy
    refine ⟨outsideMessage, ?_, by decide⟩
    have hsorted := foundReplacements_sorted nfkc [] edits
    rw [hbase]
    obtain ⟨first, rest, hcons⟩ := exists_cons_of_ne_nil hsome
    unfold applyReplacementsPreservingUnchangedLines
    rw [mergeSort_of_pairwise hsorted, hcons]
    rfl
  · have hlines : (splitLinesWithEndings content).length ≠
        (splitLinesWithEndings (normalizeForFuzzyMatch nfkc content)).length := by
      intro hsame
      rw [splitLines_normalized hnfkc, ← length_map (normalizeForFuzzyMatch nfkc), eq_comm,
        length_filter_eq_length_iff] at hsame
      refine hstay ⟨hempty, fun line hline => ?_⟩
      exact of_decide_eq_true (hsame _ (mem_map_of_mem hline))
    refine ⟨"Cannot preserve unchanged lines because the base content has a different line count.",
      ?_, by decide⟩
    unfold applyReplacementsPreservingUnchangedLines getLineSpans
    simp only [length_spansFrom, ne_eq, hlines, not_false_eq_true, if_true]
    rfl

/-- **Fuzzy edits leave other lines alone exactly if no line normalizes to nothing.** -/
theorem fuzzyEdits_leave_iff (hnfkc : ActsPerLine nfkc)
    (hmatched : MatchedFuzzily nfkc content edits) (path : String) :
    LeavesOtherLines nfkc content edits path ↔ LinesStay nfkc content := by
  constructor
  · rintro ⟨newContent, -, happly⟩
    by_contra hstay
    obtain ⟨message, hfails, hhead⟩ := preserving_fails hnfkc hmatched hstay
    rw [applyEdits_fuzzy hmatched, hfails] at happly
    split_ifs at happly
    · exact getNoChangeError_ne hhead (Except.error.inj happly).symm
    · cases happly
  · intro hstay
    obtain ⟨newContent, happly, hoverlaid⟩ := preserving_overlaid hnfkc hmatched hstay
    refine ⟨newContent, hoverlaid, ?_⟩
    rw [applyEdits_fuzzy hmatched, happly]
    rfl

/-! ## Plain text -/

theorem actsPerLine_id : ActsPerLine id :=
  ⟨fun _ => (map_id _).symm, rfl, fun _ => rfl⟩

/-- One edit that is found in the normalized space only. -/
theorem matchedFuzzily_single (hne : edit.normalized.oldText ≠ [])
    (hfuzzy : (fuzzyFindText nfkc content edit.normalized.oldText).usedFuzzyMatch = true)
    (hcount : ¬1 < countOccurrences nfkc (normalizeForFuzzyMatch nfkc content)
      edit.normalized.oldText)
    (hfound : (fuzzyFindText nfkc (normalizeForFuzzyMatch nfkc content)
      edit.normalized.oldText).index ≠ none) : MatchedFuzzily nfkc content [edit] := by
  refine ⟨?_, by simpa [usesFuzzyMatch] using hfuzzy, ?_, ?_⟩
  · simpa using hne
  · simpa using ⟨mt one_lt_countOccurrences.2 hcount, mt fuzzyFindText_index_eq_none.2 hfound⟩
  · simp [foundReplacements, Apart]

/-- The text `a` with a tab behind it is found in the line `a`, and the blanks behind the letters of
the other lines stay. -/
theorem fuzzyEdits_leave_iff_a :
    MatchedFuzzily id [120, 32, 10, 97, 10, 121, 32] [⟨[97, 9], [98]⟩] ∧
      LeavesOtherLines id [120, 32, 10, 97, 10, 121, 32] [⟨[97, 9], [98]⟩] "" := by
  have hmatched : MatchedFuzzily id [120, 32, 10, 97, 10, 121, 32] [⟨[97, 9], [98]⟩] :=
    matchedFuzzily_single (by decide) (by decide) (by decide) (by decide)
  exact ⟨hmatched, (fuzzyEdits_leave_iff actsPerLine_id hmatched "").2 (by decide)⟩

/-- A last line that is a blank makes the same edit fail. -/
theorem fuzzyEdit_fails_before_blank :
    ActsPerLine id ∧ MatchedFuzzily id [97, 10, 32] [⟨[97, 9], [98]⟩] ∧
      applyEditsToNormalizedContent id [97, 10, 32] [⟨[97, 9], [98]⟩] "" = .error
        "Cannot preserve unchanged lines because the base content has a different line count." ∧
      ¬LeavesOtherLines id [97, 10, 32] [⟨[97, 9], [98]⟩] "" := by
  have hfails : applyEditsToNormalizedContent id [97, 10, 32] [⟨[97, 9], [98]⟩] "" = .error
      "Cannot preserve unchanged lines because the base content has a different line count." := by
    decide +kernel
  refine ⟨actsPerLine_id,
    matchedFuzzily_single (by decide) (by decide) (by decide) (by decide), hfails, ?_⟩
  rintro ⟨newContent, -, happly⟩
  rw [hfails] at happly
  split_ifs at happly
  exact absurd (Except.error.inj happly) (by decide)

end BeauPi.Tools
