import BeauPi.Tools.Truncate

/-!
# The limits of a truncation

* `Longest` — the most lines that the limits leave.
* `HeadHonest`, `TailHonest` — what the two truncations should return, and say about it.
* `Greedy` — what their loops end with.
* `truncation_honest_iff` — the two labels that are wrong, and that everything else is right.
-/

namespace BeauPi.Tools

open Utf8 List
open Option (some.inj)

/-! ## What the truncations should do -/

/-- Of `n` lines, `k` are the most that the limits leave, when `cost k` is what `k` lines take. -/
structure Longest (cost : Nat → Nat) (maxLines maxBytes n k : Nat) : Prop where
  le : k ≤ n
  lines : k ≤ maxLines
  bytes : cost k ≤ maxBytes
  most : ∀ m ≤ n, m ≤ maxLines → cost m ≤ maxBytes → m ≤ k

/-- The labels of a result are true. -/
structure Labelled (content : List Char) (maxLines maxBytes : Nat) (result : TruncationResult Char) :
    Prop where
  truncated : result.truncated = false ↔ result.content = content
  lines : result.truncatedBy = some .lines → maxLines < (splitLinesForCounting content).length
  bytes : result.truncatedBy = some .bytes → maxBytes < byteLength content

/-- A text within the limits is returned, and else the most lines from its start; the labels are
true. -/
structure HeadHonest (content : List Char) (maxLines maxBytes : Nat) (result : TruncationResult Char) :
    Prop where
  whole : (splitLinesForCounting content).length ≤ maxLines → byteLength content ≤ maxBytes →
    result.content = content
  part : ¬((splitLinesForCounting content).length ≤ maxLines ∧ byteLength content ≤ maxBytes) →
    ∃ k, Longest (fun m => byteLength (joinLines ((splitLinesForCounting content).take m)))
        maxLines maxBytes (splitLinesForCounting content).length k ∧
      result.content = joinLines ((splitLinesForCounting content).take k)
  labelled : Labelled content maxLines maxBytes result

/-- The last `m` lines. -/
def lastLines (m : Nat) (lines : List (List Char)) : List (List Char) :=
  lines.drop (lines.length - m)

/-- A text within the limits is returned, and else the most lines from its end, or the longest end
of the last line where that one is too long; the labels are true. -/
structure TailHonest (content : List Char) (maxLines maxBytes : Nat) (result : TruncationResult Char) :
    Prop where
  whole : (splitLinesForCounting content).length ≤ maxLines → byteLength content ≤ maxBytes →
    result.content = content
  part : ¬((splitLinesForCounting content).length ≤ maxLines ∧ byteLength content ≤ maxBytes) →
    ∀ last, (splitLinesForCounting content).getLast? = some last → byteLength last ≤ maxBytes →
    ∃ k, Longest (fun m => byteLength (joinLines (lastLines m (splitLinesForCounting content))))
        maxLines maxBytes (splitLinesForCounting content).length k ∧
      result.content = joinLines (lastLines k (splitLinesForCounting content))
  partialLine : ∀ last, (splitLinesForCounting content).getLast? = some last →
    maxBytes < byteLength last → result.content <:+ last ∧ byteLength result.content ≤ maxBytes ∧
      ∀ part, part <:+ last → byteLength part ≤ maxBytes → part <:+ result.content
  labelled : Labelled content maxLines maxBytes result

variable {maxLines maxBytes n k : Nat} {content line : List Char} {lines more : List (List Char)}
  {result : TruncationResult Char}

/-! ## What lines take -/

/-- A line behind others. -/
theorem byteLength_joinLines_concat (lines : List (List Char)) (line : List Char) :
    byteLength (joinLines (lines ++ [line])) =
      byteLength (joinLines lines) + (byteLength line + if lines.length > 0 then 1 else 0) := by
  induction lines with
  | nil => simp [joinLines]
  | cons first lines ih =>
    rw [cons_append, byteLength_joinLines_cons, byteLength_joinLines_cons, ih]
    cases lines with
    | nil => simp; omega
    | cons => simp; omega

theorem byteLength_joinLines_le_append (lines more : List (List Char)) :
    byteLength (joinLines lines) ≤ byteLength (joinLines (lines ++ more)) := by
  induction more using List.reverseRecOn with
  | nil => simp
  | append_singleton more line ih =>
    rw [← append_assoc, byteLength_joinLines_concat]
    omega

/-- Some lines take less than all, if there are any. -/
theorem byteLength_joinLines_lt (hlines : lines ≠ []) (hmore : more ≠ []) :
    byteLength (joinLines lines) < byteLength (joinLines (lines ++ more)) ∧
      byteLength (joinLines lines) < byteLength (joinLines (more ++ lines)) := by
  have hpos := List.length_pos_iff.2 hlines
  constructor
  · obtain ⟨line, more, rfl⟩ := exists_cons_of_ne_nil hmore
    have hle := byteLength_joinLines_le_append (lines ++ [line]) more
    rw [byteLength_joinLines_concat, if_pos hpos, append_assoc, singleton_append] at hle
    omega
  · obtain ⟨more, line, rfl⟩ := (eq_nil_or_concat' more).resolve_left hmore
    have hle := byteLength_joinLines_le more (line :: lines)
    rw [byteLength_joinLines_cons, if_pos hpos] at hle
    rw [append_assoc, singleton_append]
    omega

/-! ## The loops -/

/-- What a loop ends with that adds lines one by one: `left` are the lines it does not add. -/
structure Greedy (add : List Char → List (List Char) → List (List Char)) (maxLines maxBytes : Nat)
    (collected : Collected Char) (left : List (List Char)) : Prop where
  count : collected.outputBytesCount = byteLength (joinLines collected.outputLinesArr)
  lines_le : collected.outputLinesArr.length ≤ maxLines
  bytes_le : byteLength (joinLines collected.outputLinesArr) ≤ maxBytes
  lines : collected.truncatedBy = .lines →
    left = [] ∨ collected.outputLinesArr.length = maxLines
  bytes : collected.truncatedBy = .bytes → collected.outputLinesArr.length < maxLines ∧
    ∃ next later, left = next :: later ∧
      maxBytes < byteLength (joinLines (add next collected.outputLinesArr))

/-- The loop of `truncateHead`. -/
theorem collectHead_greedy {arr : List (List Char)} (hlines : arr.length ≤ maxLines)
    (hbytes : byteLength (joinLines arr) ≤ maxBytes) (rest : List (List Char)) :
    ∃ taken left, rest = taken ++ left ∧
      (collectHead byteLength maxLines maxBytes rest arr (byteLength (joinLines arr))).outputLinesArr =
        arr ++ taken ∧
      Greedy (fun line lines => lines ++ [line]) maxLines maxBytes
        (collectHead byteLength maxLines maxBytes rest arr (byteLength (joinLines arr))) left := by
  induction rest generalizing arr with
  | nil =>
    refine ⟨[], [], rfl, (append_nil _).symm, rfl, hlines, hbytes, fun _ => .inl rfl, ?_⟩
    intro h
    cases h
  | cons line rest ih =>
    unfold collectHead
    dsimp only
    rw [← byteLength_joinLines_concat]
    split_ifs with hroom hlong
    · refine ⟨[], line :: rest, rfl, (append_nil _).symm, rfl, hlines, hbytes, ?_, ?_⟩
      · intro h
        cases h
      · exact fun _ => ⟨hroom, line, rest, rfl, hlong⟩
    · obtain ⟨taken, left, rfl, harr, hgreedy⟩ :=
        @ih (arr ++ [line]) (by rw [length_append]; exact hroom) (not_lt.1 hlong)
      exact ⟨line :: taken, left, rfl, by rw [harr]; simp, hgreedy⟩
    · refine ⟨[], line :: rest, rfl, (append_nil _).symm, rfl, hlines, hbytes, ?_, ?_⟩
      · exact fun _ => .inr (Nat.le_antisymm hlines (not_lt.1 hroom))
      · intro h
        cases h

theorem collectHead_lines (maxLines maxBytes : Nat) (lines : List (List Char)) :
    ∃ left, lines = (collectHead byteLength maxLines maxBytes lines [] 0).outputLinesArr ++ left ∧
      Greedy (fun line lines => lines ++ [line]) maxLines maxBytes
        (collectHead byteLength maxLines maxBytes lines [] 0) left := by
  have hnil : byteLength (joinLines []) = 0 := rfl
  obtain ⟨taken, left, hlines, harr, hgreedy⟩ := @collectHead_greedy maxLines maxBytes []
    (Nat.zero_le _) (Nat.zero_le _) lines
  rw [hnil] at harr hgreedy
  exact ⟨left, by rw [harr]; exact hlines, hgreedy⟩

/-- The loop of `truncateTail`, when it has a line or the next one fits. -/
theorem collectTail_greedy {arr : List (List Char)} (hlines : arr.length ≤ maxLines)
    (hbytes : byteLength (joinLines arr) ≤ maxBytes) (rest : List (List Char))
    (hfits : arr = [] → ∀ line ∈ rest.head?, byteLength line ≤ maxBytes) :
    ∃ taken left, rest = taken ++ left ∧
      (collectTail maxLines maxBytes rest arr (byteLength (joinLines arr))).outputLinesArr =
        taken.reverse ++ arr ∧
      Greedy List.cons maxLines maxBytes
        (collectTail maxLines maxBytes rest arr (byteLength (joinLines arr))) left := by
  induction rest generalizing arr with
  | nil =>
    refine ⟨[], [], rfl, rfl, rfl, hlines, hbytes, fun _ => .inl rfl, ?_⟩
    intro h
    cases h
  | cons line rest ih =>
    rw [collectTail_cons]
    split_ifs with hroom hlong hempty
    · subst hempty
      rw [joinLines_singleton] at hlong
      exact absurd (hfits rfl line rfl) (not_le.2 hlong)
    · refine ⟨[], line :: rest, rfl, rfl, rfl, hlines, hbytes, ?_, ?_⟩
      · intro h
        cases h
      · exact fun _ => ⟨hroom, line, rest, rfl, hlong⟩
    · obtain ⟨taken, left, rfl, harr, hgreedy⟩ :=
        @ih (line :: arr) hroom (not_lt.1 hlong) (by simp)
      exact ⟨line :: taken, left, rfl, by rw [harr]; simp, hgreedy⟩
    · refine ⟨[], line :: rest, rfl, rfl, rfl, hlines, hbytes, ?_, ?_⟩
      · exact fun _ => .inr (Nat.le_antisymm hlines (not_lt.1 hroom))
      · intro h
        cases h

theorem collectTail_lines_greedy {last : List Char}
    (hlast : lines.getLast? = some last) (hfits : byteLength last ≤ maxBytes) :
    ∃ left, lines = left.reverse ++
        (collectTail maxLines maxBytes lines.reverse [] 0).outputLinesArr ∧
      Greedy List.cons maxLines maxBytes (collectTail maxLines maxBytes lines.reverse [] 0)
        left := by
  have hnil : byteLength (joinLines []) = 0 := rfl
  have hhead : ([] : List (List Char)) = [] → ∀ line ∈ lines.reverse.head?,
      byteLength line ≤ maxBytes := by
    intro _ line hline
    rw [head?_reverse, hlast] at hline
    obtain rfl := some.inj hline
    exact hfits
  obtain ⟨taken, left, hlines, harr, hgreedy⟩ := @collectTail_greedy maxLines maxBytes []
    (Nat.zero_le _) (Nat.zero_le _) lines.reverse hhead
  rw [hnil] at harr hgreedy
  refine ⟨left, ?_, hgreedy⟩
  rw [harr, append_nil, ← reverse_append, ← hlines, reverse_reverse]

/-! ## The most lines -/

variable {collected : Collected Char} {left : List (List Char)}

theorem Greedy.longest_head
    (h : Greedy (fun line lines => lines ++ [line]) maxLines maxBytes collected left)
    (hlines : lines = collected.outputLinesArr ++ left) :
    Longest (fun m => byteLength (joinLines (lines.take m))) maxLines maxBytes lines.length
      collected.outputLinesArr.length := by
  subst hlines
  refine ⟨by simp, h.lines_le, by simpa using h.bytes_le, fun m hm hmax hcost => ?_⟩
  by_contra hmore
  rw [length_append] at hm
  cases hlabel : collected.truncatedBy with
  | lines =>
    rcases h.lines hlabel with rfl | hfull
    · simp at hm
      omega
    · omega
  | bytes =>
    obtain ⟨-, next, later, rfl, hlong⟩ := h.bytes hlabel
    obtain ⟨j, rfl⟩ := Nat.exists_eq_add_of_lt (not_le.1 hmore)
    have htake : (collected.outputLinesArr ++ next :: later).take
        (collected.outputLinesArr.length + j + 1) =
        (collected.outputLinesArr ++ [next]) ++ later.take j := by
      rw [Nat.add_assoc, take_length_add_append, take_succ_cons, append_assoc]
      rfl
    have hle := byteLength_joinLines_le_append (collected.outputLinesArr ++ [next]) (later.take j)
    rw [htake] at hcost
    omega

theorem Greedy.longest_tail (h : Greedy List.cons maxLines maxBytes collected left)
    (hlines : lines = left.reverse ++ collected.outputLinesArr) :
    Longest (fun m => byteLength (joinLines (lastLines m lines))) maxLines maxBytes lines.length
      collected.outputLinesArr.length ∧
    lastLines collected.outputLinesArr.length lines = collected.outputLinesArr := by
  subst hlines
  have hlast : lastLines collected.outputLinesArr.length
      (left.reverse ++ collected.outputLinesArr) = collected.outputLinesArr := by
    rw [lastLines, length_append, Nat.add_sub_cancel, drop_left]
  refine ⟨⟨by simp, h.lines_le, by simpa only [hlast] using h.bytes_le, fun m hm hmax hcost => ?_⟩,
    hlast⟩
  by_contra hmore
  rw [length_append] at hm
  cases hlabel : collected.truncatedBy with
  | lines =>
    rcases h.lines hlabel with rfl | hfull
    · simp at hm
      omega
    · omega
  | bytes =>
    obtain ⟨-, next, later, rfl, hlong⟩ := h.bytes hlabel
    have hdrop : lastLines m ((next :: later).reverse ++ collected.outputLinesArr) =
        later.reverse.drop (later.length + 1 + collected.outputLinesArr.length - m) ++
          next :: collected.outputLinesArr := by
      rw [lastLines, reverse_cons, append_assoc, singleton_append,
        drop_append_of_le_length]
      · simp [Nat.add_assoc, Nat.add_comm 1]
      · simp
        omega
    have hle := byteLength_joinLines_le
      (later.reverse.drop (later.length + 1 + collected.outputLinesArr.length - m))
      (next :: collected.outputLinesArr)
    simp only [hdrop] at hcost
    omega

/-! ## The labels -/

/-- The text is within the limits. -/
abbrev Fits (maxLines maxBytes : Nat) (content : List Char) : Prop :=
  (splitLinesForCounting content).length ≤ maxLines ∧ byteLength content ≤ maxBytes

/-- The lines of a truncated text are not the text. -/
theorem joinLines_ne {kept : List (List Char)} (hbeyond : ¬Fits maxLines maxBytes content)
    (hlines : splitLinesForCounting content = kept ++ more ∨
      splitLinesForCounting content = more ++ kept)
    (hmax : kept.length ≤ maxLines) (hbytes : byteLength (joinLines kept) ≤ maxBytes) :
    joinLines kept ≠ content := by
  intro heq
  have hjoin := joinLines_le_byteLength content
  by_cases hmore : more = []
  · subst hmore
    rw [append_nil, nil_append, or_self] at hlines
    rw [Fits, hlines, ← heq] at hbeyond
    exact hbeyond ⟨hmax, hbytes⟩
  · have hkept : kept ≠ [] := by
      rintro rfl
      have hnil : content = [] := heq.symm
      subst hnil
      simp [splitLinesForCounting, splitLinesAt, hmore] at hlines
    obtain ⟨hleft, hright⟩ := byteLength_joinLines_lt hkept hmore
    rw [← heq] at hjoin
    rcases hlines with hlines | hlines
    · rw [heq, hlines, ← heq] at hjoin
      omega
    · rw [heq, hlines, ← heq] at hjoin
      omega

/-- The byte limit is exceeded by the newline at the end alone. -/
def OnlyNewlineBeyond (content : List Char) (maxLines maxBytes : Nat) : Prop :=
  (splitLinesForCounting content).length ≤ maxLines ∧ content.getLast? = some '\n' ∧
    byteLength content = maxBytes + 1

theorem OnlyNewlineBeyond.join (h : OnlyNewlineBeyond content maxLines maxBytes) :
    byteLength (joinLines (splitLinesForCounting content)) = maxBytes := by
  have hsum := congrArg byteLength (eq_joinLines content)
  have hone : byteLength ['\n'] = 1 := by decide
  rw [byteLength_append, if_pos h.2.1, h.2.2, hone] at hsum
  omega

/-- A text beyond the limits whose lines fit is beyond them by its last newline. -/
theorem onlyNewlineBeyond_of_join
    (hbeyond : ¬Fits maxLines maxBytes content)
    (hmax : (splitLinesForCounting content).length ≤ maxLines)
    (hjoin : byteLength (joinLines (splitLinesForCounting content)) ≤ maxBytes) :
    OnlyNewlineBeyond content maxLines maxBytes := by
  have hlong : maxBytes < byteLength content := not_le.1 fun hle => hbeyond ⟨hmax, hle⟩
  have hsum := congrArg byteLength (eq_joinLines content)
  rw [byteLength_append] at hsum
  split_ifs at hsum with hlast
  · have hone : byteLength ['\n'] = 1 := by decide
    exact ⟨hmax, hlast, by omega⟩
  · simp at hsum
    omega

/-- The label that both functions give to what their loops end with. -/
def finalLabel (maxLines maxBytes : Nat) (collected : Collected Char) : TruncatedBy :=
  if collected.outputLinesArr.length ≥ maxLines ∧ collected.outputBytesCount ≤ maxBytes then .lines
  else collected.truncatedBy

/-- The labels of a truncated text are true unless only its last newline is beyond the limit. -/
theorem Greedy.labelled_iff {add : List Char → List (List Char) → List (List Char)}
    (h : Greedy add maxLines maxBytes collected left)
    (hbeyond : ¬Fits maxLines maxBytes content)
    (hlength : (splitLinesForCounting content).length = collected.outputLinesArr.length + left.length)
    (hall : left = [] → collected.outputLinesArr = splitLinesForCounting content)
    (hadd : ∀ next later, left = next :: later → byteLength (joinLines (add next
      collected.outputLinesArr)) ≤ byteLength (joinLines (splitLinesForCounting content)))
    (hne : joinLines collected.outputLinesArr ≠ content)
    (hcontent : result.content = joinLines collected.outputLinesArr)
    (htruncated : result.truncated = true)
    (hlabel : result.truncatedBy = some (finalLabel maxLines maxBytes collected)) :
    Labelled content maxLines maxBytes result ↔ ¬OnlyNewlineBeyond content maxLines maxBytes := by
  have hjoin := joinLines_le_byteLength content
  constructor
  · intro hlabelled honly
    have hlines : collected.truncatedBy = .lines := by
      cases hby : collected.truncatedBy with
      | lines => rfl
      | bytes =>
        obtain ⟨-, next, later, hleft, hlong⟩ := h.bytes hby
        have hle := hadd next later hleft
        rw [honly.join] at hle
        omega
    have hfinal : finalLabel maxLines maxBytes collected = .lines := by
      rw [finalLabel, hlines, ite_self]
    have := hlabelled.lines (by rw [hlabel, hfinal])
    have := honly.1
    omega
  · intro hnot
    refine ⟨?_, fun hlines => ?_, fun hbytes => ?_⟩
    · rw [htruncated, hcontent]
      exact iff_of_false (by simp) hne
    · by_contra hmax
      have hleft : left = [] := by
        rw [← length_eq_zero_iff]
        by_contra hpos
        rw [hlabel, finalLabel] at hlines
        split_ifs at hlines with hfull
        · omega
        · rcases h.lines (some.inj hlines) with hnil | hfull'
          · exact hpos (by rw [hnil]; rfl)
          · omega
      refine hnot (onlyNewlineBeyond_of_join hbeyond (not_lt.1 hmax) ?_)
      rw [← hall hleft]
      exact h.bytes_le
    · rw [hlabel, finalLabel] at hbytes
      split_ifs at hbytes with hfull
      · cases hbytes
      · obtain ⟨-, next, later, hleft, hlong⟩ := h.bytes (some.inj hbytes)
        have hle := hadd next later hleft
        omega

/-! ## The head -/

/-- The lines of a text beyond the limits are there. -/
theorem splitLines_ne_nil (hbeyond : ¬Fits maxLines maxBytes content) :
    splitLinesForCounting content ≠ [] := by
  intro hnil
  have hcontent := splitLinesForCounting_eq_nil.1 hnil
  subst hcontent
  exact hbeyond ⟨by simp [hnil], by simp⟩

/-- **`truncateHead` is honest unless only the last newline is beyond the limit.** -/
theorem truncateHead_honest_iff :
    HeadHonest content maxLines maxBytes (truncateHead content maxLines maxBytes) ↔
      ¬OnlyNewlineBeyond content maxLines maxBytes := by
  by_cases hbeyond : Fits maxLines maxBytes content
  · have hresult : (truncateHead content maxLines maxBytes).content = content ∧
        (truncateHead content maxLines maxBytes).truncated = false ∧
        (truncateHead content maxLines maxBytes).truncatedBy = none := by
      unfold truncateHead truncateHeadOf
      dsimp only
      rw [if_pos hbeyond]
      exact ⟨rfl, rfl, rfl⟩
    obtain ⟨hcontent, htruncated, hlabel⟩ := hresult
    refine iff_of_true ⟨fun _ _ => hcontent, fun h => absurd hbeyond h, ?_⟩ ?_
    · exact ⟨iff_of_true htruncated hcontent, by simp [hlabel], by simp [hlabel]⟩
    · rintro ⟨-, -, hbytes⟩
      omega
  · obtain ⟨first, rest, hsplit⟩ := exists_cons_of_ne_nil (splitLines_ne_nil hbeyond)
    have hjoin := joinLines_le_byteLength content
    by_cases hfirst : byteLength first > maxBytes
    · -- not even the first line fits
      have hle : ∀ m, byteLength first ≤
          byteLength (joinLines ((first :: rest).take (m + 1))) := by
        intro m
        have := byteLength_joinLines_le_append [first] (rest.take m)
        rwa [joinLines_singleton] at this
      have hall := hle rest.length
      rw [take_of_length_le (by simp), ← hsplit] at hall
      have hresult : (truncateHead content maxLines maxBytes).content = [] ∧
          (truncateHead content maxLines maxBytes).truncated = true ∧
          (truncateHead content maxLines maxBytes).truncatedBy = some .bytes := by
        unfold truncateHead truncateHeadOf
        dsimp only
        rw [if_neg hbeyond, hsplit, headD_cons, if_pos hfirst]
        exact ⟨rfl, rfl, rfl⟩
      obtain ⟨hcontent, htruncated, hlabel⟩ := hresult
      refine iff_of_true ⟨fun h h' => absurd ⟨h, h'⟩ hbeyond, fun _ => ⟨0, ?_, ?_⟩, ?_⟩ ?_
      · refine ⟨Nat.zero_le _, Nat.zero_le _, by simp [joinLines], fun m hm hmax hcost => ?_⟩
        by_contra hpos
        obtain ⟨m, rfl⟩ := Nat.exists_eq_add_of_lt (not_le.1 hpos)
        have := hle (0 + m)
        rw [hsplit] at hcost
        omega
      · rw [hcontent]
        rfl
      · refine ⟨iff_of_false (by simp [htruncated]) fun heq => ?_, by simp [hlabel], fun _ => by omega⟩
        rw [hcontent] at heq
        rw [← heq] at hsplit
        cases hsplit
      · intro honly
        have := honly.join
        omega
    · obtain ⟨left, hlines, hgreedy⟩ :=
        collectHead_lines maxLines maxBytes (splitLinesForCounting content)
      have hresult : (truncateHead content maxLines maxBytes).content = joinLines
            (collectHead byteLength maxLines maxBytes (splitLinesForCounting content) [] 0).outputLinesArr ∧
          (truncateHead content maxLines maxBytes).truncated = true ∧
          (truncateHead content maxLines maxBytes).truncatedBy = some (finalLabel maxLines maxBytes
            (collectHead byteLength maxLines maxBytes (splitLinesForCounting content) [] 0)) := by
        unfold truncateHead truncateHeadOf
        dsimp only
        rw [if_neg hbeyond, if_neg (by rw [hsplit]; exact hfirst)]
        exact ⟨rfl, rfl, rfl⟩
      obtain ⟨hcontent, htruncated, hlabel⟩ := hresult
      generalize collectHead byteLength maxLines maxBytes (splitLinesForCounting content) [] 0 = collected at *
      have hne := joinLines_ne hbeyond (.inl hlines) hgreedy.lines_le hgreedy.bytes_le
      have hadd : ∀ next later, left = next :: later →
          byteLength (joinLines (collected.outputLinesArr ++ [next])) ≤
            byteLength (joinLines (splitLinesForCounting content)) := by
        rintro next later rfl
        have hle := byteLength_joinLines_le_append (collected.outputLinesArr ++ [next]) later
        rwa [append_assoc, singleton_append, ← hlines] at hle
      have hlength := congrArg List.length hlines
      rw [length_append] at hlength
      have hall : left = [] → collected.outputLinesArr = splitLinesForCounting content := by
        rintro rfl
        rw [hlines, append_nil]
      rw [← hgreedy.labelled_iff hbeyond hlength hall hadd hne hcontent htruncated hlabel]
      refine ⟨fun h => h.labelled, fun h => ⟨fun h h' => absurd ⟨h, h'⟩ hbeyond, fun _ => ?_, h⟩⟩
      refine ⟨_, hgreedy.longest_head hlines, ?_⟩
      rw [hcontent]
      conv_rhs => rw [hlines, take_left]

/-! ## The tail -/

/-- The end of a line that is cut is the longest that fits. -/
theorem tailWithin_longest {part : List Char} (hpart : part <:+ line)
    (hbytes : byteLength part ≤ maxBytes) : part <:+ tailWithin maxBytes line := by
  induction line with
  | nil => exact hpart
  | cons c cs ih =>
    rw [tailWithin]
    split_ifs with hfits
    · exact hpart
    · rcases List.suffix_cons_iff.1 hpart with rfl | hrest
      · exact absurd hbytes hfits
      · exact ih hrest

/-- Only the last newline is beyond the limit, or the only line is cut where one line is allowed:
then the label names the lines. -/
def TailMislabelled (content : List Char) (maxLines maxBytes : Nat) : Prop :=
  OnlyNewlineBeyond content maxLines maxBytes ∨
    maxLines = 1 ∧ ∃ line, splitLinesForCounting content = [line] ∧ maxBytes < byteLength line

/-- **`truncateTail` is honest unless only the last newline is beyond the limit, or one line is
allowed and there is only one, which is too long.** -/
theorem truncateTail_honest_iff (hmax : 1 ≤ maxLines) :
    TailHonest content maxLines maxBytes (truncateTail content maxLines maxBytes) ↔
      ¬TailMislabelled content maxLines maxBytes := by
  by_cases hbeyond : Fits maxLines maxBytes content
  · have hresult : (truncateTail content maxLines maxBytes).content = content ∧
        (truncateTail content maxLines maxBytes).truncated = false ∧
        (truncateTail content maxLines maxBytes).truncatedBy = none := by
      unfold truncateTail truncateTailOf
      dsimp only
      rw [if_pos hbeyond]
      exact ⟨rfl, rfl, rfl⟩
    obtain ⟨hcontent, htruncated, hlabel⟩ := hresult
    have hlast : ∀ last, (splitLinesForCounting content).getLast? = some last →
        byteLength last ≤ maxBytes := by
      intro last hlast
      obtain ⟨before, hsplit⟩ := List.getLast?_eq_some_iff.1 hlast
      have hle := byteLength_joinLines_le before [last]
      rw [joinLines_singleton, ← hsplit] at hle
      have hjoin := joinLines_le_byteLength content
      omega
    refine iff_of_true ⟨fun _ _ => hcontent, fun h => absurd hbeyond h,
      fun last h h' => absurd (hlast last h) (not_le.2 h'), ?_⟩ ?_
    · exact ⟨iff_of_true htruncated hcontent, by simp [hlabel], by simp [hlabel]⟩
    · rintro (⟨-, -, hbytes⟩ | ⟨-, line, hsplit, hlong⟩)
      · omega
      · exact absurd (hlast line (by rw [hsplit]; rfl)) (not_le.2 hlong)
  · have hjoin := joinLines_le_byteLength content
    obtain ⟨before, last, hsplit⟩ :=
      (eq_nil_or_concat' _).resolve_left (splitLines_ne_nil hbeyond)
    have hgetLast : (splitLinesForCounting content).getLast? = some last := by
      rw [hsplit, getLast?_concat]
    have hresult : (truncateTail content maxLines maxBytes).content = joinLines (collectTail
          maxLines maxBytes (splitLinesForCounting content).reverse [] 0).outputLinesArr ∧
        (truncateTail content maxLines maxBytes).truncated = true ∧
        (truncateTail content maxLines maxBytes).truncatedBy = some (finalLabel maxLines maxBytes
          (collectTail maxLines maxBytes (splitLinesForCounting content).reverse [] 0)) := by
      unfold truncateTail truncateTailOf
      dsimp only
      rw [if_neg hbeyond]
      exact ⟨rfl, rfl, rfl⟩
    obtain ⟨hcontent, htruncated, hlabel⟩ := hresult
    by_cases hlong : maxBytes < byteLength last
    · -- the last line is cut
      have hcut : collectTail maxLines maxBytes (splitLinesForCounting content).reverse [] 0 =
          ⟨[tailWithin maxBytes last], byteLength (tailWithin maxBytes last), .bytes, true⟩ := by
        rw [hsplit, reverse_concat]
        exact collectTail_partial hmax hlong before.reverse
      rw [hcut] at hcontent hlabel
      rw [joinLines_singleton] at hcontent
      have hwithin := byteLength_tailWithin_le maxBytes last
      have hlastJoin := byteLength_joinLines_le before [last]
      rw [joinLines_singleton, ← hsplit] at hlastJoin
      have hfinal : (truncateTail content maxLines maxBytes).truncatedBy = some .lines ↔
          maxLines = 1 := by
        rw [hlabel, finalLabel]
        split_ifs with hone
        · have hle : maxLines ≤ 1 := hone.1
          exact iff_of_true rfl (by omega)
        · refine iff_of_false (by simp) fun heq => hone ⟨?_, hwithin⟩
          rw [heq]
          exact Nat.le_refl 1
      constructor
      · rintro hhonest (honly | ⟨hone, line, hline, -⟩)
        · have := honly.join
          omega
        · have := hhonest.labelled.lines (hfinal.2 hone)
          rw [hline, length_singleton] at this
          omega
      · intro hnot
        refine ⟨fun h h' => absurd ⟨h, h'⟩ hbeyond, fun _ last' hlast' hle => ?_,
          fun last' hlast' _ => ?_, ?_⟩
        · obtain rfl := some.inj (hgetLast.symm.trans hlast')
          omega
        · obtain rfl := some.inj (hgetLast.symm.trans hlast')
          rw [hcontent]
          exact ⟨tailWithin_suffix maxBytes last, hwithin, fun part => tailWithin_longest⟩
        · refine ⟨iff_of_false (by simp [htruncated]) fun heq => ?_, fun hlines => ?_,
            fun _ => by omega⟩
          · rw [hcontent] at heq
            rw [heq] at hwithin
            omega
          · have hone := hfinal.1 hlines
            by_contra hfew
            have hbefore : before = [] := by
              rw [hsplit, length_append, length_singleton] at hfew
              exact List.length_eq_zero_iff.1 (by omega)
            subst hbefore
            exact hnot (.inr ⟨hone, last, hsplit, hlong⟩)
    · obtain ⟨left, hlines, hgreedy⟩ := collectTail_lines_greedy hgetLast (not_lt.1 hlong)
      generalize collectTail maxLines maxBytes (splitLinesForCounting content).reverse [] 0 =
        collected at *
      have hne := joinLines_ne hbeyond (.inr hlines) hgreedy.lines_le hgreedy.bytes_le
      have hadd : ∀ next later, left = next :: later →
          byteLength (joinLines (next :: collected.outputLinesArr)) ≤
            byteLength (joinLines (splitLinesForCounting content)) := by
        rintro next later rfl
        have hle := byteLength_joinLines_le later.reverse (next :: collected.outputLinesArr)
        rwa [← singleton_append, ← append_assoc, ← reverse_cons, ← hlines] at hle
      have hlength : (splitLinesForCounting content).length =
          collected.outputLinesArr.length + left.length := by
        have hsum := congrArg List.length hlines
        rw [length_append, length_reverse] at hsum
        omega
      have hall : left = [] → collected.outputLinesArr = splitLinesForCounting content := by
        rintro rfl
        rw [hlines, reverse_nil, nil_append]
      have hmis : TailMislabelled content maxLines maxBytes ↔
          OnlyNewlineBeyond content maxLines maxBytes := by
        refine or_iff_left ?_
        rintro ⟨-, line, hline, hlong'⟩
        rw [hline] at hgetLast
        obtain rfl := some.inj hgetLast
        exact hlong hlong'
      rw [hmis, ← hgreedy.labelled_iff hbeyond hlength hall hadd hne hcontent htruncated hlabel]
      refine ⟨fun h => h.labelled, fun h => ⟨fun h h' => absurd ⟨h, h'⟩ hbeyond, fun _ _ _ _ => ?_,
        fun last' hlast' hlong' => ?_, h⟩⟩
      · obtain ⟨hlongest, hlastLines⟩ := hgreedy.longest_tail hlines
        exact ⟨_, hlongest, by rw [hcontent, hlastLines]⟩
      · obtain rfl := some.inj (hgetLast.symm.trans hlast')
        exact absurd hlong' hlong

/-- **Both truncations keep the most that fits and label it truly, except that lines are named
where only the last newline is beyond the byte limit, or where the only line is cut and one line is
allowed.** A content is a list of code points: it holds no unpaired surrogate. -/
theorem truncation_honest_iff (content : List Char) (maxBytes : Nat) (hmax : 1 ≤ maxLines) :
    (HeadHonest content maxLines maxBytes (truncateHead content maxLines maxBytes) ↔
      ¬OnlyNewlineBeyond content maxLines maxBytes) ∧
    (TailHonest content maxLines maxBytes (truncateTail content maxLines maxBytes) ↔
      ¬TailMislabelled content maxLines maxBytes) :=
  ⟨truncateHead_honest_iff, truncateTail_honest_iff hmax⟩

/-- Of three lines, two lines and five bytes are allowed. -/
theorem truncation_honest_iff_threeLines :
    HeadHonest ['a', 'b', '\n', 'c', '\n', 'd'] 2 5
        (truncateHead ['a', 'b', '\n', 'c', '\n', 'd'] 2 5) ∧
      TailHonest ['a', 'b', '\n', 'c', '\n', 'd'] 2 5
        (truncateTail ['a', 'b', '\n', 'c', '\n', 'd'] 2 5) := by
  obtain ⟨hhead, htail⟩ :=
    truncation_honest_iff ['a', 'b', '\n', 'c', '\n', 'd'] 5 (by decide : 1 ≤ 2)
  have hnewline : ¬OnlyNewlineBeyond ['a', 'b', '\n', 'c', '\n', 'd'] 2 5 := fun h =>
    absurd h.1 (by decide)
  exact ⟨hhead.2 hnewline, htail.2 fun h => h.elim hnewline fun h => absurd h.1 (by decide)⟩

/-- Of `"a\n"` one byte is allowed and ten lines: the label names the lines. -/
theorem newline_labelled_lines :
    (truncateHead ['a', '\n'] 10 1).truncatedBy = some .lines ∧
    ¬HeadHonest ['a', '\n'] 10 1 (truncateHead ['a', '\n'] 10 1) ∧
    ¬TailHonest ['a', '\n'] 10 1 (truncateTail ['a', '\n'] 10 1) := by
  have hlines : (splitLinesForCounting ['a', '\n']).length = 1 := by decide
  refine ⟨by decide, fun h => ?_, fun h => ?_⟩
  · have := h.labelled.lines (by decide)
    omega
  · have := h.labelled.lines (by decide)
    omega

/-! ## Truncating again -/

theorem newline_notMem_lines (hline : line ∈ splitLinesForCounting content) : '\n' ∉ line := by
  obtain ⟨lines, tail, rfl, hlines, htail⟩ := Execution.exists_lines content
  rw [splitLinesForCounting_unlines hlines htail] at hline
  rcases List.mem_append.1 hline with hline | hline
  · exact hlines line hline
  · split_ifs at hline
    · cases hline
    · exact List.mem_singleton.1 hline ▸ htail

theorem fits_joinLines (hlines : ∀ line ∈ lines, '\n' ∉ line) (hmax : lines.length ≤ maxLines)
    (hbytes : byteLength (joinLines lines) ≤ maxBytes) : Fits maxLines maxBytes (joinLines lines) := by
  refine ⟨le_trans ?_ hmax, hbytes⟩
  by_cases hnil : lines = []
  · simp [hnil, joinLines, splitLinesForCounting, splitLinesAt]
  · rw [splitLinesForCounting, splitLinesAt, joinLines, splitOn_intercalate '\n' hlines hnil]
    dsimp only
    split_ifs <;> simp

theorem truncateHead_fits (content : List Char) (maxLines maxBytes : Nat) :
    Fits maxLines maxBytes (truncateHead content maxLines maxBytes).content := by
  unfold truncateHead truncateHeadOf
  dsimp only
  by_cases hwithin : Fits maxLines maxBytes content
  · rw [if_pos hwithin]
    exact hwithin
  · rw [if_neg hwithin]
    split_ifs
    · simp [Fits, splitLinesForCounting, splitLinesAt]
    all_goals
      obtain ⟨left, hsplit, hgreedy⟩ :=
        collectHead_lines maxLines maxBytes (splitLinesForCounting content)
      refine fits_joinLines (fun line hline => ?_) hgreedy.lines_le hgreedy.bytes_le
      exact newline_notMem_lines (hsplit.symm ▸ mem_append_left left hline)

theorem truncateTail_fits (content : List Char) (maxLines maxBytes : Nat) :
    Fits maxLines maxBytes (truncateTail content maxLines maxBytes).content := by
  unfold truncateTail truncateTailOf
  dsimp only
  by_cases hwithin : Fits maxLines maxBytes content
  · rw [if_pos hwithin]
    exact hwithin
  · rw [if_neg hwithin]
    show Fits maxLines maxBytes (joinLines
      (collectTail maxLines maxBytes (splitLinesForCounting content).reverse [] 0).outputLinesArr)
    obtain ⟨before, last, hsplit⟩ :=
      (eq_nil_or_concat' _).resolve_left (splitLines_ne_nil hwithin)
    have hlast : '\n' ∉ last := newline_notMem_lines (hsplit ▸ mem_concat_self)
    by_cases hlong : maxBytes < byteLength last
    · by_cases hmax : 1 ≤ maxLines
      · rw [hsplit, reverse_concat, collectTail_partial hmax hlong]
        refine fits_joinLines ?_ hmax ?_
        · intro line hline hmem
          rw [List.mem_singleton.1 hline] at hmem
          exact hlast ((tailWithin_suffix maxBytes last).subset hmem)
        · rw [joinLines_singleton]
          exact byteLength_tailWithin_le maxBytes last
      · obtain rfl : maxLines = 0 := by omega
        rw [hsplit, reverse_concat]
        simp [collectTailOf, joinLines, Fits, splitLinesForCounting, splitLinesAt]
    · obtain ⟨left, hlines, hgreedy⟩ :=
        collectTail_lines_greedy (hsplit ▸ getLast?_concat) (not_lt.1 hlong)
      refine fits_joinLines (fun line hline => ?_) hgreedy.lines_le hgreedy.bytes_le
      exact newline_notMem_lines (hlines.symm ▸ mem_append_right left.reverse hline)

/-- **What is truncated is within the limits, and truncating it again changes nothing.** -/
theorem truncate_again (content : List Char) (maxLines maxBytes : Nat) :
    (Fits maxLines maxBytes (truncateHead content maxLines maxBytes).content ∧
        (truncateHead (truncateHead content maxLines maxBytes).content maxLines maxBytes).content =
          (truncateHead content maxLines maxBytes).content) ∧
      Fits maxLines maxBytes (truncateTail content maxLines maxBytes).content ∧
        (truncateTail (truncateTail content maxLines maxBytes).content maxLines maxBytes).content =
          (truncateTail content maxLines maxBytes).content := by
  have hhead := truncateHead_fits content maxLines maxBytes
  have htail := truncateTail_fits content maxLines maxBytes
  refine ⟨⟨hhead, ?_⟩, htail, ?_⟩
  · rw [truncateHead.eq_1 (truncateHead _ _ _).content, truncateHeadOf, if_pos hhead]
    rfl
  · exact (truncateTail_of_within htail).1

end BeauPi.Tools
