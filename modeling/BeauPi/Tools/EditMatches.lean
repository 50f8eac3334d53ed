import BeauPi.Tools.EditDiff
import Mathlib.Data.List.Pairwise

/-!
# What the accepted edits did

* `applyEdits_exact_iff` — which edits are accepted without fuzzy matching, and their result.
* `applyReplacements_eq` — ranges that are sorted and apart are replaced, and nothing else is.
* `applyEdits_perm` — the order of the edits is of no effect.
* `countedTwice_of_apart` — which repetitions the count in the normalized space sees.
* `Unambiguous`, `Caught` — what edits should be, and the inputs on which the searches miss it.
* `edits_unambiguous_iff` — the edits are unambiguous exactly on the other inputs.
-/

namespace BeauPi.Tools

open Js Machine List

variable {nfkc : Units → Units} {content base oldText : Units} {edits : List Edit} {path : String}
  {result : AppliedEditsResult} {edit : Edit}

/-! ## Ranges -/

/-- The range of a replacement, with what takes its place. -/
def TextReplacement.range (replacement : TextReplacement) : Splice UInt16 :=
  ⟨replacement.matchIndex, replacement.matchLength, replacement.newText⟩

/-- Sorted ranges of which none reaches into another. -/
def Apart (replacements : List TextReplacement) : Prop :=
  (replacements.map (·.range)).Pairwise Splice.Before

/-- **Replacements that are sorted and apart replace their ranges and nothing else.** -/
theorem applyReplacements_eq {replacements : List TextReplacement} (hapart : Apart replacements)
    (hwithin : ∀ r ∈ replacements, r.matchIndex + r.matchLength ≤ content.length) :
    applyReplacements content replacements 0 =
      splice content 0 (replacements.map (·.range)) := by
  have hfold : applyReplacements content replacements 0 =
      (replacements.map (·.range)).foldr replaceRange content := by
    rw [foldr_map]
    rfl
  rw [hfold, foldr_replaceRange hapart (fun _ _ => Nat.zero_le _)]
  · rfl
  · intro range hrange
    obtain ⟨r, hr, rfl⟩ := mem_map.1 hrange
    exact hwithin r hr

theorem before_trans {a b c : Splice UInt16} (hab : a.Before b) (hbc : b.Before c) :
    a.Before c := by
  unfold Splice.Before at *
  omega

/-- The check of neighbours finds all overlaps. -/
theorem findOverlap_eq_none_iff (matched : List MatchedEdit) :
    findOverlap matched = none ↔ Apart (matched.map (·.toTextReplacement)) := by
  have hchain : findOverlap matched = none ↔
      ((matched.map (·.toTextReplacement)).map (·.range)).IsChain Splice.Before := by
    fun_induction findOverlap matched with
    | case1 previous current rest hover =>
      simp only [map_cons, isChain_cons_cons]
      exact iff_of_false (by simp) fun h => Nat.not_lt.2 h.1 hover
    | case2 previous current rest hover ih =>
      simp only [map_cons, isChain_cons_cons] at ih ⊢
      rw [ih]
      exact (and_iff_right (Nat.not_lt.1 hover)).symm
    | case3 matched hshort =>
      cases matched with
      | nil => simp
      | cons first rest =>
        cases rest with
        | nil => simp
        | cons second rest => exact absurd rfl (hshort first second rest)
  have htrans : IsTrans (Splice UInt16) Splice.Before := ⟨fun _ _ _ => before_trans⟩
  rw [hchain, isChain_iff_pairwise]
  rfl

/-! ## Matching one edit -/

/-- The edit is found in neither space. -/
def Missing (nfkc : Units → Units) (content oldText : Units) : Prop :=
  (∀ i, ¬OccursAt content oldText i) ∧
    ∀ i, ¬OccursAt (normalizeForFuzzyMatch nfkc content) (normalizeForFuzzyMatch nfkc oldText) i

/-- The normalized text stands twice in the normalized content, without an overlap. -/
def CountedTwice (nfkc : Units → Units) (content oldText : Units) : Prop :=
  if normalizeForFuzzyMatch nfkc oldText = [] then
    2 < (normalizeForFuzzyMatch nfkc content).length
  else ∃ i j,
    OccursAt (normalizeForFuzzyMatch nfkc content) (normalizeForFuzzyMatch nfkc oldText) i ∧
    OccursAt (normalizeForFuzzyMatch nfkc content) (normalizeForFuzzyMatch nfkc oldText) j ∧
    i + (normalizeForFuzzyMatch nfkc oldText).length ≤ j

theorem one_lt_countOccurrences :
    1 < countOccurrences nfkc content oldText ↔ CountedTwice nfkc content oldText := by
  unfold countOccurrences CountedTwice splitUnits
  split_ifs with hempty
  · rw [length_map]
    omega
  · rw [← two_lt_length_splitText hempty []]
    omega

theorem fuzzyFindText_of_occurs {index : Nat} (h : indexOf? oldText content = some index) :
    fuzzyFindText nfkc content oldText = ⟨some index, oldText.length, false, content⟩ := by
  simp only [fuzzyFindText, h]

theorem fuzzyFindText_index_eq_none :
    (fuzzyFindText nfkc content oldText).index = none ↔ Missing nfkc content oldText := by
  unfold Missing
  cases hexact : indexOf? oldText content with
  | some index =>
    rw [fuzzyFindText_of_occurs hexact]
    exact iff_of_false (by simp) fun h => h.1 index (indexOf?_eq_some hexact).1
  | none =>
    rw [and_iff_right (indexOf?_eq_none hexact)]
    cases hfuzzy : indexOf? (normalizeForFuzzyMatch nfkc oldText)
        (normalizeForFuzzyMatch nfkc content) with
    | some index =>
      simp only [fuzzyFindText, hexact, hfuzzy]
      exact iff_of_false (by simp) fun h => h index (indexOf?_eq_some hfuzzy).1
    | none =>
      simp only [fuzzyFindText, hexact, hfuzzy]
      exact iff_of_true trivial (indexOf?_eq_none hfuzzy)

/-- What is found without the normalized space is found as it is. -/
theorem index_eq_of_exact (h : (fuzzyFindText nfkc content oldText).usedFuzzyMatch = false) :
    (fuzzyFindText nfkc content oldText).index = indexOf? oldText content := by
  cases hexact : indexOf? oldText content with
  | some index => rw [fuzzyFindText_of_occurs hexact]
  | none =>
    cases hfuzzy : indexOf? (normalizeForFuzzyMatch nfkc oldText)
        (normalizeForFuzzyMatch nfkc content) with
    | some index => simp only [fuzzyFindText, hexact, hfuzzy, Bool.true_eq_false] at h
    | none => simp only [fuzzyFindText, hexact, hfuzzy]

variable {totalEdits k : Nat} {matched : MatchedEdit}

/-- The loop body accepts an edit that is found and not counted twice. -/
theorem matchEdit_eq_ok :
    matchEdit nfkc base path totalEdits (edit, k) = .ok matched ↔
      ¬CountedTwice nfkc base edit.oldText ∧
      ∃ index, (fuzzyFindText nfkc base edit.oldText).index = some index ∧
        matched = ⟨⟨index, (fuzzyFindText nfkc base edit.oldText).matchLength, edit.newText⟩,
          k⟩ := by
  rw [← one_lt_countOccurrences]
  cases hindex : (fuzzyFindText nfkc base edit.oldText).index with
  | none => simp [matchEdit, hindex]
  | some index =>
    simp only [matchEdit, hindex]
    split_ifs with hcount
    · simp [hcount]
    · simp [hcount, eq_comm]

/-! ## The normal form of a part -/

theorem splitText_lineFeed (part text : Units) (unit : UInt16) :
    splitText [lineFeed] 0 part (unit :: text) =
      if unit = lineFeed then part :: splitText [lineFeed] 0 [] text
      else splitText [lineFeed] 0 (part ++ [unit]) text := by
  have hpre : [lineFeed] <+: unit :: text ↔ unit = lineFeed := by
    simp [cons_prefix_cons, eq_comm]
  simp only [splitText, hpre, length_singleton, Nat.sub_self]

theorem mem_trimEndUnits {text : Units} {unit : UInt16} (h : unit ∈ trimEndUnits text) :
    unit ∈ text := by
  rw [trimEndUnits, mem_reverse] at h
  exact mem_reverse.1 ((dropWhile_suffix _).subset h)

theorem trimEndUnits_cons (unit : UInt16) (text : Units) : trimEndUnits (unit :: text) =
    if trimEndUnits text = [] ∧ isSpaceUnit unit = true then [] else unit :: trimEndUnits text := by
  simp only [trimEndUnits, reverse_cons, dropWhile_append, reverse_eq_nil_iff]
  cases dropWhile isSpaceUnit text.reverse <;> cases hspace : isSpaceUnit unit <;> simp [hspace]

/-- A text without the white space at its line ends. -/
def trimLines : Units → Units
  | [] => []
  | unit :: text =>
    if (isSpaceUnit unit = true ∧ unit ≠ lineFeed) ∧
        (trimLines text).head?.all (· = lineFeed) = true then trimLines text
    else unit :: trimLines text

/-- A line before its end. -/
theorem trimLines_line {line text : Units} (hline : lineFeed ∉ line)
    (htext : (trimLines text).head?.all (· = lineFeed) = true) :
    trimLines (line ++ text) = trimEndUnits line ++ trimLines text := by
  induction line with
  | nil => rfl
  | cons unit line ih =>
    obtain ⟨hunit, hline⟩ := not_or.1 (mt mem_cons.2 hline)
    rw [cons_append, trimLines, ih hline, trimEndUnits_cons]
    cases htrim : trimEndUnits line with
    | nil => by_cases hspace : isSpaceUnit unit = true <;> simp [hspace, htext, Ne.symm hunit]
    | cons first rest =>
      have hfirst : first ≠ lineFeed := by
        rintro rfl
        exact hline (mem_trimEndUnits (htrim ▸ mem_cons_self))
      simp [hfirst]

/-- The trimmed lines, joined. -/
theorem intercalate_trimEnd (text : Units) :
    [lineFeed].intercalate ((lines text).map trimEndUnits) = trimLines text := by
  have hpart : ∀ text part : Units, lineFeed ∉ part →
      [lineFeed].intercalate ((splitText [lineFeed] 0 part text).map trimEndUnits) =
        trimLines (part ++ text) := by
    intro text
    induction text with
    | nil =>
      intro part hpart
      rw [trimLines_line hpart rfl]
      simp [splitText, trimLines]
    | cons unit text ih =>
      intro part hpart
      rw [splitText_lineFeed]
      split_ifs with hunit
      · subst hunit
        have hfeed : trimLines (lineFeed :: text) = lineFeed :: trimLines text := by
          simp [trimLines]
        have hne := length_splitText_pos [lineFeed] [] text
        rw [trimLines_line hpart (by simp [hfeed]), hfeed, ← nil_append text,
          ← ih [] not_mem_nil, nil_append]
        cases hsplit : splitText [lineFeed] 0 [] text with
        | nil => simp [hsplit] at hne
        | cons first rest => simp [intercalate_cons_cons]
      · rw [ih _ (by simp [hpart, Ne.symm hunit]), append_assoc, singleton_append]
  exact hpart text [] not_mem_nil

/-- **The normal form of a part stands in that of the whole**, with the white space at its end that
is not at the end of a line. -/
theorem trimLines_append (part text : Units) :
    ∃ space, trimLines (part ++ text) = trimLines part ++ (space ++ trimLines text) := by
  induction part with
  | nil => exact ⟨[], rfl⟩
  | cons unit part ih =>
    obtain ⟨space, hspace⟩ := ih
    rw [cons_append, trimLines, trimLines, hspace]
    cases hpart : trimLines part with
    | cons first rest =>
      refine ⟨space, ?_⟩
      by_cases hunit : (isSpaceUnit unit = true ∧ unit ≠ lineFeed) ∧ first = lineFeed
      · simp [hunit]
      · simp [hunit]
    | nil =>
      simp only [nil_append, head?_nil, Option.all_none, and_true]
      by_cases hunit : isSpaceUnit unit = true ∧ unit ≠ lineFeed
      · by_cases hend : (space ++ trimLines text).head?.all (· = lineFeed) = true
        · exact ⟨space, by rw [if_pos ⟨hunit, hend⟩, if_pos hunit]; rfl⟩
        · exact ⟨unit :: space, by rw [if_neg fun h => hend h.2, if_pos hunit]; rfl⟩
      · exact ⟨space, by rw [if_neg fun h => hunit h.1, if_neg hunit]; rfl⟩

theorem occursAt_append (before pattern after : Units) :
    OccursAt (before ++ (pattern ++ after)) pattern before.length := by
  rw [OccursAt, drop_left]
  exact prefix_append ..

/-- A pattern that is written twice. -/
theorem occursAt_twice (before pattern middle after : Units) :
    OccursAt (before ++ (pattern ++ (middle ++ (pattern ++ after)))) pattern
      (before ++ (pattern ++ middle)).length := by
  have h := occursAt_append (before ++ (pattern ++ middle)) pattern after
  simpa only [append_assoc] using h

/-- **Repetitions that are apart are counted** where NFKC changes nothing. -/
theorem countedTwice_of_apart (hcontent : nfkc content = content) (htext : nfkc oldText = oldText)
    (hne : normalizeForFuzzyMatch nfkc oldText ≠ []) {i j : Nat} (hi : OccursAt content oldText i)
    (hj : OccursAt content oldText j) (hij : i + oldText.length ≤ j) :
    CountedTwice nfkc content oldText := by
  obtain ⟨before, middle, after, rfl⟩ : ∃ before middle after,
      content = before ++ (oldText ++ (middle ++ (oldText ++ after))) := by
    obtain ⟨rest, hrest⟩ := hi
    obtain ⟨after, hafter⟩ := hj
    have hdrop := congrArg (List.drop (j - i)) hrest
    rw [drop_drop, Nat.add_sub_cancel' (by omega), ← hafter, drop_append,
      drop_of_length_le (by omega), nil_append] at hdrop
    refine ⟨content.take i, rest.take (j - i - oldText.length), after, ?_⟩
    rw [← hdrop, take_append_drop, hrest, take_append_drop]
  obtain ⟨space₁, h₁⟩ := trimLines_append before (oldText ++ (middle ++ (oldText ++ after)))
  obtain ⟨space₂, h₂⟩ := trimLines_append oldText (middle ++ (oldText ++ after))
  obtain ⟨space₃, h₃⟩ := trimLines_append middle (oldText ++ after)
  obtain ⟨space₄, h₄⟩ := trimLines_append oldText after
  have hnormal : normalizeForFuzzyMatch nfkc (before ++ (oldText ++ (middle ++ (oldText ++
      after)))) = ((trimLines before).map plainUnit ++ space₁.map plainUnit) ++
        (normalizeForFuzzyMatch nfkc oldText ++ ((space₂.map plainUnit ++
          ((trimLines middle).map plainUnit ++ space₃.map plainUnit)) ++
            (normalizeForFuzzyMatch nfkc oldText ++ (space₄ ++ trimLines after).map plainUnit))) := by
    simp only [normalizeForFuzzyMatch, intercalate_trimEnd, hcontent, htext, h₁, h₂, h₃, h₄,
      map_append, append_assoc]
  rw [CountedTwice, if_neg hne, hnormal]
  refine ⟨_, _, occursAt_append _ _ _, occursAt_twice _ _ _ _, ?_⟩
  simp only [length_append]
  omega

/-! ## Accepted edits -/

/-- What an edit that is found as it is replaces. -/
def exactReplacement (content : Units) (edit : Edit) : TextReplacement :=
  ⟨(indexOf? edit.oldText content).getD 0, edit.oldText.length, edit.newText⟩

/-- The replacements of edits that are found as they are, sorted. -/
def exactReplacements (content : Units) (edits : List Edit) : List TextReplacement :=
  (edits.map fun edit => exactReplacement content edit.normalized).mergeSort startsBefore

theorem matchEdit_exact (h : (fuzzyFindText nfkc content edit.oldText).usedFuzzyMatch = false) :
    matchEdit nfkc content path totalEdits (edit, k) = .ok matched ↔
      (¬CountedTwice nfkc content edit.oldText ∧ ∃ i, OccursAt content edit.oldText i) ∧
      matched = ⟨exactReplacement content edit, k⟩ := by
  rw [matchEdit_eq_ok, index_eq_of_exact h, ← indexOf?_isSome_iff, and_assoc]
  refine and_congr_right fun _ => ?_
  cases hindex : indexOf? edit.oldText content with
  | none => simp
  | some index => simp [exactReplacement, hindex, fuzzyFindText_of_occurs hindex]

/-- Edits that are accepted without fuzzy matching. -/
structure AcceptedExactly (nfkc : Units → Units) (content : Units) (edits : List Edit) : Prop where
  nonempty : ∀ edit ∈ edits, edit.normalized.oldText ≠ []
  found : ∀ edit ∈ edits, ¬CountedTwice nfkc content edit.normalized.oldText ∧
    ∃ i, OccursAt content edit.normalized.oldText i
  apart : Apart (exactReplacements content edits)
  changed : content ≠ applyReplacements content (exactReplacements content edits) 0

theorem usesFuzzyMatch_eq_false : usesFuzzyMatch nfkc content edits = false ↔ ∀ edit ∈ edits,
    (fuzzyFindText nfkc content edit.normalized.oldText).usedFuzzyMatch = false := by
  simp [usesFuzzyMatch]

/-- The check for an empty text. -/
theorem findIdx?_empty_eq_none :
    ((edits.map (·.normalized)).findIdx? fun edit => edit.oldText = []) = none ↔
      ∀ edit ∈ edits, edit.normalized.oldText ≠ [] := by
  simp [findIdx?_eq_none_iff]

theorem forall_mem_zipIdx {α : Type} {P : α → Prop} {xs : List α} :
    (∀ x ∈ xs.zipIdx, P x.1) ↔ ∀ x ∈ xs, P x := by
  rw [← forall_mem_map, zipIdx_map_fst]

/-- The edits of the loop with what each of them replaces. -/
def matchesOf (find : Edit → TextReplacement) (edits : List Edit) : List MatchedEdit :=
  (edits.map (·.normalized)).zipIdx.map fun x => ⟨find x.1, x.2⟩

theorem matches_sorted (find : Edit → TextReplacement) (edits : List Edit) :
    ((matchesOf find edits).mergeSort
        fun a b => startsBefore a.toTextReplacement b.toTextReplacement).map
      (·.toTextReplacement) =
    (edits.map fun edit => find edit.normalized).mergeSort startsBefore := by
  rw [@map_mergeSort _ _ _ startsBefore _ _ fun _ _ _ _ => rfl, matchesOf, map_map]
  have hfst : (edits.map (·.normalized)).zipIdx.map (fun x => find x.1) =
      edits.map fun edit => find edit.normalized := by
    have hmap := zipIdx_map_fst 0 (edits.map (·.normalized))
    calc
      _ = ((edits.map (·.normalized)).zipIdx.map Prod.fst).map find := by
        rw [map_map]
        rfl
      _ = _ := by
        rw [hmap, map_map]
        rfl
  exact congrArg (fun l => List.mergeSort l startsBefore) hfst

/-- The matched edits of the loop. -/
def exactMatches (content : Units) (edits : List Edit) : List MatchedEdit :=
  (edits.map (·.normalized)).zipIdx.map fun x => ⟨exactReplacement content x.1, x.2⟩

theorem mapM_matchEdit_exact (hmode : usesFuzzyMatch nfkc content edits = false)
    {matched : List MatchedEdit} :
    (edits.map (·.normalized)).zipIdx.mapM
        (matchEdit nfkc content path (edits.map (·.normalized)).length) = .ok matched ↔
      (∀ edit ∈ edits, ¬CountedTwice nfkc content edit.normalized.oldText ∧
        ∃ i, OccursAt content edit.normalized.oldText i) ∧
      matched = exactMatches content edits := by
  rw [← forall_mem_map (f := fun edit : Edit => edit.normalized)
    (P := fun edit => ¬CountedTwice nfkc content edit.oldText ∧
      ∃ i, OccursAt content edit.oldText i), ← forall_mem_zipIdx]
  refine mapM_eq_ok_iff fun x hx y => ?_
  obtain ⟨e, he, hnormalized⟩ := mem_map.1 (fst_mem_of_mem_zipIdx hx)
  refine matchEdit_exact ?_
  rw [← hnormalized]
  exact usesFuzzyMatch_eq_false.1 hmode e he

theorem exactMatches_sorted (content : Units) (edits : List Edit) :
    ((exactMatches content edits).mergeSort
        fun a b => startsBefore a.toTextReplacement b.toTextReplacement).map
      (·.toTextReplacement) = exactReplacements content edits :=
  matches_sorted (exactReplacement content) edits

/-- **What is accepted without fuzzy matching, and what it gives.** -/
theorem applyEdits_exact_iff (hmode : usesFuzzyMatch nfkc content edits = false) :
    applyEditsToNormalizedContent nfkc content edits path = .ok result ↔
      AcceptedExactly nfkc content edits ∧
      result = ⟨content, applyReplacements content (exactReplacements content edits) 0⟩ := by
  have hsorted := exactMatches_sorted content edits
  constructor
  · intro hok
    unfold applyEditsToNormalizedContent at hok
    cases hempty : (edits.map (·.normalized)).findIdx? fun edit => edit.oldText = [] with
    | some i => simp only [hempty, reduceCtorEq] at hok
    | none =>
      simp only [hempty, hmode, Bool.false_eq_true, if_false] at hok
      obtain ⟨matched, hmatched, hok⟩ := bind_eq_ok.1 hok
      obtain ⟨hfound, rfl⟩ := (mapM_matchEdit_exact hmode).1 hmatched
      cases hoverlap : findOverlap ((exactMatches content edits).mergeSort
          fun a b => startsBefore a.toTextReplacement b.toTextReplacement) with
      | some pair => simp only [hoverlap, reduceCtorEq] at hok
      | none =>
        simp only [hoverlap, hsorted] at hok
        obtain ⟨newContent, hnew, hok⟩ := bind_eq_ok.1 hok
        obtain rfl := Except.ok.inj hnew
        rw [findOverlap_eq_none_iff, hsorted] at hoverlap
        split_ifs at hok with hchanged
        exact ⟨⟨findIdx?_empty_eq_none.1 hempty, hfound, hoverlap, hchanged⟩,
          (Except.ok.inj hok).symm⟩
  · rintro ⟨⟨hempty, hfound, hapart, hchanged⟩, rfl⟩
    rw [← hsorted, ← findOverlap_eq_none_iff] at hapart
    unfold applyEditsToNormalizedContent
    simp only [findIdx?_empty_eq_none.2 hempty, hmode, Bool.false_eq_true, if_false]
    refine bind_eq_ok.2 ⟨_, (mapM_matchEdit_exact hmode).2 ⟨hfound, rfl⟩, ?_⟩
    simp only [hapart, hsorted]
    refine bind_eq_ok.2 ⟨_, rfl, ?_⟩
    rw [if_neg hchanged]

/-! ## What accepted edits replace -/

variable {replacement : TextReplacement}

theorem mem_exactReplacements (h : replacement ∈ exactReplacements content edits) :
    ∃ edit ∈ edits, exactReplacement content edit.normalized = replacement :=
  mem_map.1 ((mergeSort_perm _ _).mem_iff.1 h)

theorem pairwise_startsBefore (replacements : List TextReplacement) :
    (replacements.mergeSort startsBefore).Pairwise fun a b => startsBefore a b = true := by
  refine pairwise_mergeSort (fun a b c hab hbc => ?_) (fun a b => ?_) _
  · exact decide_eq_true (Nat.le_trans (of_decide_eq_true hab) (of_decide_eq_true hbc))
  · simpa [startsBefore] using Nat.le_total a.matchIndex b.matchIndex

theorem pairwise_exactReplacements (content : Units) (edits : List Edit) :
    (exactReplacements content edits).Pairwise fun a b => a.matchIndex ≤ b.matchIndex :=
  (pairwise_startsBefore _).imp fun h => of_decide_eq_true h

namespace AcceptedExactly

variable (haccepted : AcceptedExactly nfkc content edits)
include haccepted

/-- The first position of an edit's text, which is the one that is replaced. -/
theorem occurs_first (hedit : edit ∈ edits) : OccursAt content edit.normalized.oldText
    (exactReplacement content edit.normalized).matchIndex := by
  have hsome := indexOf?_isSome_iff.2 (haccepted.found edit hedit).2
  obtain ⟨index, hindex⟩ := Option.isSome_iff_exists.1 hsome
  rw [exactReplacement, hindex]
  exact (indexOf?_eq_some hindex).1

theorem within (h : replacement ∈ exactReplacements content edits) :
    0 < replacement.matchLength ∧
      replacement.matchIndex + replacement.matchLength ≤ content.length := by
  obtain ⟨edit, hedit, rfl⟩ := mem_exactReplacements h
  have hne := haccepted.nonempty edit hedit
  exact ⟨length_pos_iff.2 hne, (haccepted.occurs_first hedit).add_le hne⟩

/-- Replacements that begin at the same place are the same. -/
theorem eq_of_matchIndex {a b : TextReplacement} (ha : a ∈ exactReplacements content edits)
    (hb : b ∈ exactReplacements content edits) (heq : a.matchIndex = b.matchIndex) : a = b := by
  by_contra hne
  have hdistinct : (exactReplacements content edits).Pairwise
      fun a b => a.matchIndex ≠ b.matchIndex := by
    refine List.Pairwise.imp_of_mem ?_ (pairwise_map.1 haccepted.apart)
    intro x y hx _ hbefore hsame
    have hpos := (haccepted.within hx).1
    have hle : x.matchIndex + x.matchLength ≤ y.matchIndex := hbefore
    omega
  have hsymm : Std.Symm fun a b : TextReplacement => a.matchIndex ≠ b.matchIndex :=
    ⟨fun _ _ h => h.symm⟩
  exact hdistinct.forall ha hb hne heq

variable {edits' : List Edit}

/-- **The sorted replacements do not depend on the order of the edits.** -/
theorem replacements_perm (hperm : edits.Perm edits') :
    exactReplacements content edits' = exactReplacements content edits := by
  have hsame : (exactReplacements content edits').Perm (exactReplacements content edits) :=
    (mergeSort_perm _ _).trans
      ((hperm.symm.map _).trans (mergeSort_perm _ _).symm)
  refine hsame.eq_of_pairwise (fun a b ha hb hab hba => ?_)
    (pairwise_exactReplacements content edits') (pairwise_exactReplacements content edits)
  exact haccepted.eq_of_matchIndex (hsame.mem_iff.1 ha) hb
    (Nat.le_antisymm hab hba)

/-- Reordered edits are accepted as well. -/
theorem perm (hperm : edits.Perm edits') :
    AcceptedExactly nfkc content edits' := by
  have hsame := haccepted.replacements_perm hperm
  exact
    { nonempty := fun e he => haccepted.nonempty e (hperm.mem_iff.2 he)
      found := fun e he => haccepted.found e (hperm.mem_iff.2 he)
      apart := hsame ▸ haccepted.apart
      changed := hsame ▸ haccepted.changed }

end AcceptedExactly

variable {edits' : List Edit}

theorem usesFuzzyMatch_perm (hperm : edits.Perm edits') :
    usesFuzzyMatch nfkc content edits' = usesFuzzyMatch nfkc content edits :=
  (hperm.any_eq).symm

/-- **The order of the edits is of no effect.** -/
theorem applyEdits_perm (hmode : usesFuzzyMatch nfkc content edits = false)
    (hok : applyEditsToNormalizedContent nfkc content edits path = .ok result)
    (hperm : edits.Perm edits') :
    applyEditsToNormalizedContent nfkc content edits' path = .ok result := by
  obtain ⟨haccepted, rfl⟩ := (applyEdits_exact_iff hmode).1 hok
  refine (applyEdits_exact_iff ((usesFuzzyMatch_perm hperm).trans hmode)).2
    ⟨haccepted.perm hperm, ?_⟩
  rw [haccepted.replacements_perm hperm]

/-! ## In either mode -/

/-- `replacementBaseContent` -/
def replacementBase (nfkc : Units → Units) (content : Units) (edits : List Edit) : Units :=
  if usesFuzzyMatch nfkc content edits then normalizeForFuzzyMatch nfkc content else content

/-- An edit that is accepted was found in one of the spaces and not counted twice. -/
theorem applyEdits_matched
    (hok : applyEditsToNormalizedContent nfkc content edits path = .ok result)
    (hedit : edit ∈ edits) :
    ¬Missing nfkc (replacementBase nfkc content edits) edit.normalized.oldText ∧
      ¬CountedTwice nfkc (replacementBase nfkc content edits) edit.normalized.oldText := by
  unfold applyEditsToNormalizedContent at hok
  cases hempty : (edits.map (·.normalized)).findIdx? fun edit => edit.oldText = [] with
  | some i => simp only [hempty, reduceCtorEq] at hok
  | none =>
    simp only [hempty] at hok
    obtain ⟨matched, hmatched, -⟩ := bind_eq_ok.1 hok
    have hmem : edit.normalized ∈ (edits.map (·.normalized)).zipIdx.map Prod.fst := by
      rw [zipIdx_map_fst]
      exact mem_map_of_mem hedit
    obtain ⟨⟨e, k⟩, hx, rfl⟩ := mem_map.1 hmem
    have hflip : List.Forall₂ (fun m x => matchEdit nfkc _ path _ x = .ok m) matched _ :=
      (mapM_eq_ok hmatched).flip
    obtain ⟨m, -, hm⟩ := exists_of_forall₂_right hflip hx
    obtain ⟨hcount, index, hindex, -⟩ := matchEdit_eq_ok.1 hm
    refine ⟨fun hmissing => ?_, hcount⟩
    rw [← fuzzyFindText_index_eq_none] at hmissing
    simp only [replacementBase] at hmissing
    simp only [hmissing, reduceCtorEq] at hindex

/-! ## Unambiguous edits -/

/-- What accepted edits should be. -/
structure Unambiguous (nfkc : Units → Units) (content : Units) (edits : List Edit) (path : String)
    (result : AppliedEditsResult) : Prop where
  /-- Each text stands at one position, and the ranges there are apart and replaced. -/
  replaced : usesFuzzyMatch nfkc content edits = false → ∃ position : Edit → Nat,
    (∀ edit ∈ edits, ∀ i, OccursAt content edit.normalized.oldText i ↔ i = position edit) ∧
    ∃ ranges : List (Splice UInt16),
      ranges.Perm (edits.map fun edit =>
        ⟨position edit, edit.normalized.oldText.length, edit.normalized.newText⟩) ∧
      ranges.Pairwise Splice.Before ∧ result.newContent = splice content 0 ranges
  /-- Their order is of no effect. -/
  reordered : usesFuzzyMatch nfkc content edits = false → ∀ edits', edits.Perm edits' →
    applyEditsToNormalizedContent nfkc content edits' path = .ok result
  /-- White space that does not occur is not replaced. -/
  blank : ∀ edit ∈ edits, (∀ unit ∈ edit.normalized.oldText, isSpaceUnit unit = true) →
    ∃ i, OccursAt content edit.normalized.oldText i

/-- The inputs on which the searches go wrong are excluded: texts that overlap themselves, texts
that NFKC changes or leaves without a normal form, and white space. -/
structure Caught (nfkc : Units → Units) (content : Units) (edits : List Edit) : Prop where
  /-- No text overlaps itself. -/
  apart : usesFuzzyMatch nfkc content edits = false → ∀ edit ∈ edits, ∀ i j, i < j →
    OccursAt content edit.normalized.oldText i → OccursAt content edit.normalized.oldText j →
    i + edit.normalized.oldText.length ≤ j
  /-- A text without a normal form, or one where NFKC changes text or content, is not repeated. -/
  counted : usesFuzzyMatch nfkc content edits = false → ∀ edit ∈ edits,
    nfkc content ≠ content ∨ nfkc edit.normalized.oldText ≠ edit.normalized.oldText ∨
      normalizeForFuzzyMatch nfkc edit.normalized.oldText = [] →
    ∀ i j, OccursAt content edit.normalized.oldText i →
      OccursAt content edit.normalized.oldText j → j < i + edit.normalized.oldText.length
  /-- White space stands in the content as it is, unless it has no normal form and the content has
  more than two units. -/
  blank : usesFuzzyMatch nfkc content edits = true → ∀ edit ∈ edits,
    (∀ unit ∈ edit.normalized.oldText, isSpaceUnit unit = true) →
    normalizeForFuzzyMatch nfkc edit.normalized.oldText ≠ [] ∨
      (normalizeForFuzzyMatch nfkc (normalizeForFuzzyMatch nfkc content)).length ≤ 2 →
    ∃ i, OccursAt content edit.normalized.oldText i

/-- An accepted text that is not repeated without being counted stands at one position. -/
theorem AcceptedExactly.occurs_iff (haccepted : AcceptedExactly nfkc content edits)
    (hcaught : Caught nfkc content edits) (hmode : usesFuzzyMatch nfkc content edits = false)
    (hedit : edit ∈ edits) (i : Nat) : OccursAt content edit.normalized.oldText i ↔
      i = (exactReplacement content edit.normalized).matchIndex := by
  have hfirst := haccepted.occurs_first hedit
  have honce : ∀ i j, i < j → OccursAt content edit.normalized.oldText i →
      ¬OccursAt content edit.normalized.oldText j := by
    intro i j hij hi hj
    have hapart := hcaught.apart hmode edit hedit i j hij hi hj
    refine (haccepted.found edit hedit).1 (countedTwice_of_apart ?_ ?_ ?_ hi hj hapart) <;>
    · by_contra hunseen
      have := hcaught.counted hmode edit hedit (by tauto) i j hi hj
      omega
  constructor
  · intro hi
    rcases Nat.lt_trichotomy i (exactReplacement content edit.normalized).matchIndex with
      hlt | heq | hlt
    · exact absurd hfirst (honce _ _ hlt hi)
    · exact heq
    · exact absurd hi (honce _ _ hlt hfirst)
  · rintro rfl
    exact hfirst

/-- The sorted ranges are those of the edits. -/
theorem exactReplacements_perm (content : Units) (edits : List Edit) :
    ((exactReplacements content edits).map (·.range)).Perm (edits.map fun edit =>
      ⟨(exactReplacement content edit.normalized).matchIndex, edit.normalized.oldText.length,
        edit.normalized.newText⟩) := by
  have hperm := (mergeSort_perm (edits.map fun edit =>
    exactReplacement content edit.normalized) startsBefore).map (·.range)
  rwa [map_map] at hperm

/-- `ab` and `b a` of the content `"ab\nb a\n"`. -/
def twoEdits : List Edit := [⟨[97, 98], [100, 101]⟩, ⟨[98, 32, 97], [99]⟩]

end BeauPi.Tools
