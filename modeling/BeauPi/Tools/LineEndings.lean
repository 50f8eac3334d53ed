import BeauPi.Tools.EditMatches

/-!
# Line endings of an edited file

The edit tool takes the byte order mark off, writes every line end as a line feed, applies the
edits, and writes all line ends as the first of the file was.

* `detectLineEnding`, `restoreLineEndings`, `stripBom` — the steps around the edits.
* `execute` — the text that is written.
* `terminators` — the line ends of a text, each as it is.
* `execute_changesOnlyLine_iff` — the rest of the file is kept exactly if its line ends are alike.
-/

namespace BeauPi.Tools

open Js Machine List

/-! ## The file around the edits -/

/-- `"\r\n" | "\n"` -/
inductive LineEnding
  | lf
  | crlf
  deriving DecidableEq, Repr

/-- `detectLineEnding` -/
def detectLineEnding (content : Units) : LineEnding :=
  match indexOf? [13, 10] content, indexOf? [10] content with
  | _, none => .lf
  | none, _ => .lf
  | some crlfIdx, some lfIdx => if crlfIdx < lfIdx then .crlf else .lf

/-- `restoreLineEndings` -/
def restoreLineEndings (text : Units) : LineEnding → Units
  | .crlf => text.flatMap fun unit => if unit = lineFeed then [13, 10] else [unit]
  | .lf => text

/-- `stripBom` -/
def stripBom (content : Units) : Units × Units :=
  if content.head? = some 0xfeff then ([0xfeff], content.drop 1) else ([], content)

/-- What `execute` writes to a file that holds `rawContent`. -/
def execute (nfkc : Units → Units) (rawContent : Units) (edits : List Edit) (path : String) :
    Except String Units := do
  let content := (stripBom rawContent).2
  let originalEnding := detectLineEnding content
  let normalizedContent := normalizeToLF content
  let result ← applyEditsToNormalizedContent nfkc normalizedContent edits path
  return (stripBom rawContent).1 ++ restoreLineEndings result.newContent originalEnding

/-! ## Line ends as they are -/

/-- A line end. -/
inductive Terminator
  | lf
  | crlf
  | cr
  deriving DecidableEq, Repr

/-- The line ends of a text. -/
def terminators : Units → List Terminator
  | 13 :: 10 :: rest => .crlf :: terminators rest
  | 13 :: rest => .cr :: terminators rest
  | 10 :: rest => .lf :: terminators rest
  | _ :: rest => terminators rest
  | [] => []

/-- The line end that is written for an ending. -/
def LineEnding.terminator : LineEnding → Terminator
  | .lf => .lf
  | .crlf => .crlf

/-- All line ends of the text are line feeds, or all are pairs. -/
def UniformEndings (text : Units) : Prop :=
  (∀ t ∈ terminators text, t = .lf) ∨ ∀ t ∈ terminators text, t = .crlf

variable {nfkc : Units → Units} {raw written content text a b : Units} {edit : Edit}
  {path : String} {ending : LineEnding}

/-! ## Writing line ends back -/

theorem restoreLineEndings_append (a b : Units) (ending : LineEnding) :
    restoreLineEndings (a ++ b) ending = restoreLineEndings a ending ++
      restoreLineEndings b ending := by
  cases ending with
  | lf => rfl
  | crlf => exact flatMap_append

theorem restoreLineEndings_cons_of_ne {unit : UInt16} (h : unit ≠ 10) :
    restoreLineEndings (unit :: text) ending = unit :: restoreLineEndings text ending := by
  cases ending with
  | lf => rfl
  | crlf =>
    have hunit : (if unit = lineFeed then [13, 10] else [unit]) = [unit] := if_neg h
    exact congrArg (· ++ _) hunit

theorem restoreLineEndings_of_not_mem (h : (10 : UInt16) ∉ text) :
    restoreLineEndings text ending = text := by
  induction text with
  | nil => cases ending <;> rfl
  | cons unit text ih =>
    have hunit : unit ≠ 10 := fun heq => h (heq ▸ mem_cons_self)
    rw [restoreLineEndings_cons_of_ne hunit, ih fun hm => h (mem_cons_of_mem _ hm)]

/-! ## Normal line ends -/

/-- A text without carriage returns is normal. -/
theorem normalizeToLF_of_not_mem (h : (13 : UInt16) ∉ text) : normalizeToLF text = text := by
  fun_induction normalizeToLF text with
  | case1 | case2 => exact absurd mem_cons_self h
  | case3 unit rest hne hne' ih => rw [ih fun hm => h (mem_cons_of_mem _ hm)]
  | case4 => rfl

theorem not_mem_normalizeToLF (text : Units) : (13 : UInt16) ∉ normalizeToLF text := by
  fun_induction normalizeToLF text with
  | case1 rest ih => simpa using ih
  | case2 rest hne ih => simpa using ih
  | case3 unit rest hne hne' ih =>
    have hunit : unit ≠ 13 := by
      rintro rfl
      exact hne' rfl
    simpa using ⟨hunit.symm, ih⟩
  | case4 => exact not_mem_nil

theorem normalizeToLF_cr (h : b.head? ≠ some 10) :
    normalizeToLF (13 :: b) = 10 :: normalizeToLF b := by
  refine normalizeToLF.eq_2 b fun rest heq => h ?_
  rw [heq]
  rfl

theorem normalizeToLF_cons {unit : UInt16} (h : unit ≠ 13) :
    normalizeToLF (unit :: b) = unit :: normalizeToLF b :=
  normalizeToLF.eq_3 unit b (fun _ heq => absurd heq h) h

/-- A text is normalized in parts that do not cut a pair. -/
theorem normalizeToLF_append (h : b.head? ≠ some 10 ∨ a.getLast? ≠ some 13) :
    normalizeToLF (a ++ b) = normalizeToLF a ++ normalizeToLF b := by
  fun_induction normalizeToLF a with
  | case1 rest ih =>
    have hrest : b.head? ≠ some 10 ∨ rest.getLast? ≠ some 13 := by
      cases rest with
      | nil => simp
      | cons unit rest => simpa using h
    simp [normalizeToLF, ih hrest]
  | case2 rest hne ih =>
    rw [cons_append, cons_append]
    cases rest with
    | nil => exact normalizeToLF_cr (by simpa using h)
    | cons unit rest =>
      have hunit : unit ≠ 10 := by
        rintro rfl
        exact hne rest rfl
      rw [normalizeToLF_cr (by simpa using hunit), ih (by simpa using h)]
  | case3 unit rest hne hne' ih =>
    have hunit : unit ≠ 13 := by
      rintro rfl
      exact hne' rfl
    have hrest : b.head? ≠ some 10 ∨ rest.getLast? ≠ some 13 := by
      cases rest with
      | nil => simp
      | cons unit rest => simpa using h
    rw [cons_append, normalizeToLF_cons hunit, ih hrest]
    rfl
  | case4 => rfl

/-! ## Writing back what was read -/

theorem restoreLineEndings_cons_lf :
    restoreLineEndings (10 :: text) ending =
      (match ending with
        | .lf => [10]
        | .crlf => [13, 10]) ++ restoreLineEndings text ending := by
  cases ending <;> rfl

/-- A text is written back as it was exactly if all its line ends are of the ending. -/
theorem restore_normalize_eq_iff (text : Units) (ending : LineEnding) :
    restoreLineEndings (normalizeToLF text) ending = text ↔
      ∀ t ∈ terminators text, t = ending.terminator := by
  fun_induction terminators text with
  | case1 rest ih =>
    rw [normalizeToLF, restoreLineEndings_cons_lf, forall_mem_cons, ← ih]
    cases ending <;> simp [LineEnding.terminator]
  | case2 rest hne ih =>
    rw [normalizeToLF.eq_2 rest hne, restoreLineEndings_cons_lf, forall_mem_cons]
    have hcr : Terminator.cr ≠ ending.terminator := by cases ending <;> decide
    refine iff_of_false (fun heq => ?_) fun h => hcr h.1
    cases ending with
    | lf => exact absurd (List.cons.inj heq).1 (by decide)
    | crlf => exact hne _ (List.cons.inj heq).2.symm
  | case3 rest ih =>
    rw [normalizeToLF_cons (by decide), restoreLineEndings_cons_lf, forall_mem_cons, ← ih]
    cases ending <;> simp [LineEnding.terminator]
  | case4 unit rest hne hne' hne'' ih =>
    have hcr : unit ≠ 13 := by
      rintro rfl
      exact hne' rfl
    have hlf : unit ≠ 10 := by
      rintro rfl
      exact hne'' rfl
    rw [normalizeToLF_cons hcr, restoreLineEndings_cons_of_ne hlf, cons_inj_right, ih]
  | case5 => cases ending <;> simp [normalizeToLF, restoreLineEndings]

theorem length_restore_normalize_lf (text : Units) :
    (restoreLineEndings (normalizeToLF text) .lf).length ≤ text.length := by
  show (normalizeToLF text).length ≤ text.length
  fun_induction normalizeToLF text <;> simp only [length_cons, length_nil] <;> omega

theorem length_restore_normalize_crlf (text : Units) :
    text.length ≤ (restoreLineEndings (normalizeToLF text) .crlf).length := by
  fun_induction normalizeToLF text with
  | case1 rest ih => rw [restoreLineEndings_cons_lf]; simpa using ih
  | case2 rest hne ih => rw [restoreLineEndings_cons_lf]; simp; omega
  | case3 unit rest hne hne' ih =>
    by_cases hlf : unit = 10
    · subst hlf
      rw [restoreLineEndings_cons_lf]
      simp
      omega
    · rw [restoreLineEndings_cons_of_ne hlf]
      simpa using ih
  | case4 => exact Nat.zero_le _

/-! ## The ending that is detected -/

/-- A unit that starts no line end does not matter. -/
theorem detectLineEnding_cons {unit : UInt16} (hlf : unit ≠ 10)
    (hcr : unit = 13 → text.head? ≠ some 10) :
    detectLineEnding (unit :: text) = detectLineEnding text := by
  have hpair : indexOf? [13, 10] (unit :: text) = (indexOf? [13, 10] text).map (· + 1) := by
    rw [indexOf?, if_neg]
    intro hfront
    obtain ⟨hfirst, hrest⟩ := cons_prefix_cons.1 hfront
    refine hcr hfirst.symm ?_
    cases text with
    | nil => exact absurd hrest (by decide)
    | cons second text => rw [← (cons_prefix_cons.1 hrest).1, head?_cons]
  have hfeed : indexOf? [10] (unit :: text) = (indexOf? [10] text).map (· + 1) := by
    rw [indexOf?, if_neg]
    exact fun hfront => hlf (cons_prefix_cons.1 hfront).1.symm
  unfold detectLineEnding
  rw [hpair, hfeed]
  cases indexOf? [10] text with
  | none => cases indexOf? [13, 10] text <;> rfl
  | some j => cases indexOf? [13, 10] text <;> simp

/-- The first line end that holds a line feed decides. -/
theorem detectLineEnding_eq (text : Units) : detectLineEnding text =
    if (terminators text).find? (· ≠ .cr) = some .crlf then .crlf else .lf := by
  fun_induction terminators text with
  | case1 rest ih =>
    have hpair : indexOf? [13, 10] (13 :: 10 :: rest) = some 0 := by
      rw [indexOf?, if_pos]
      exact ⟨rest, rfl⟩
    have hfeed : indexOf? [10] (13 :: 10 :: rest) = some 1 := by
      rw [indexOf?, if_neg (by simp), indexOf?, if_pos ⟨rest, rfl⟩]
      rfl
    simp [detectLineEnding, hpair, hfeed]
  | case2 rest hne ih =>
    have hhead : rest.head? ≠ some 10 := by
      cases rest with
      | nil => decide
      | cons unit rest =>
        intro heq
        obtain rfl := Option.some.inj heq
        exact hne rest rfl
    rw [detectLineEnding_cons (by decide) fun _ => hhead, ih]
    rfl
  | case3 rest ih =>
    have hfeed : indexOf? [10] (10 :: rest) = some 0 := by
      rw [indexOf?, if_pos ⟨rest, rfl⟩]
    unfold detectLineEnding
    rw [hfeed]
    cases indexOf? [13, 10] (10 :: rest) <;> simp
  | case4 unit rest hne hne' hne'' ih =>
    have hcr : unit ≠ 13 := by
      rintro rfl
      exact hne' rfl
    have hlf : unit ≠ 10 := by
      rintro rfl
      exact hne'' rfl
    rw [detectLineEnding_cons hlf fun heq => absurd heq hcr, ih]
  | case5 => rfl

/-- A text whose line ends are alike is written back as it was, and no other is. -/
theorem restore_detected_iff (text : Units) :
    restoreLineEndings (normalizeToLF text) (detectLineEnding text) = text ↔
      UniformEndings text := by
  rw [restore_normalize_eq_iff, UniformEndings, detectLineEnding_eq]
  constructor
  · intro h
    split_ifs at h
    · exact .inr h
    · exact .inl h
  · rintro (h | h)
    · rw [if_neg]
      · exact h
      · intro hfind
        exact absurd (h _ (mem_of_find?_eq_some hfind)) (by decide)
    · split_ifs with hfind
      · exact h
      · cases hterms : terminators text with
        | nil => simp
        | cons t rest =>
          rw [hterms] at h hfind
          obtain rfl := h t mem_cons_self
          exact absurd rfl hfind

/-! ## Changes inside a line -/

/-- The place of a text in a line of the content: what is before the line, what is before and
after the text in the line, and what is after the line. -/
structure InLine (content oldText head before after tail : Units) : Prop where
  content_eq : content = head ++ (before ++ oldText ++ after) ++ tail
  line : ∀ unit ∈ before ++ oldText ++ after, unit ≠ 13 ∧ unit ≠ 10
  starts : head = [] ∨ head.getLast? = some 10 ∨ head.getLast? = some 13
  ends : tail = [] ∨ tail.head? = some 10 ∨ tail.head? = some 13
  first : indexOf? oldText (normalizeToLF content) =
    some ((normalizeToLF head).length + before.length)

/-- The written file is the file with the text of the edit replaced in its line; the line ends of
the new text are free. -/
def ChangesOnlyLine (edit : Edit) (raw written : Units) : Prop :=
  ∃ head before after tail inserted,
    InLine (stripBom raw).2 edit.oldText head before after tail ∧
    written = (stripBom raw).1 ++ (head ++ (before ++ inserted ++ after) ++ tail) ∧
    normalizeToLF inserted = normalizeToLF edit.newText

namespace InLine

variable {oldText head before after tail : Units}

/-- The three parts of the content are normalized apart. -/
theorem normalize_eq (h : InLine content oldText head before after tail) (hne : oldText ≠ []) :
    normalizeToLF content =
      normalizeToLF head ++ (before ++ oldText ++ after) ++ normalizeToLF tail := by
  have hline : before ++ oldText ++ after ≠ [] := by simp [hne]
  have hplain : normalizeToLF (before ++ oldText ++ after) = before ++ oldText ++ after :=
    normalizeToLF_of_not_mem fun hm => (h.line 13 hm).1 rfl
  rw [h.content_eq, normalizeToLF_append (.inr ?_), normalizeToLF_append (.inl ?_), hplain]
  · intro hhead
    exact (h.line 10 (mem_of_head? hhead)).2 rfl
  · rw [getLast?_append_of_ne_nil _ hline]
    intro hlast
    exact (h.line 13 (mem_of_getLast? hlast)).1 rfl

/-- The content with its line ends written in one way. -/
theorem restore_eq (h : InLine content oldText head before after tail) (hne : oldText ≠ [])
    (ending : LineEnding) : restoreLineEndings (normalizeToLF content) ending =
      restoreLineEndings (normalizeToLF head) ending ++ (before ++ oldText ++ after) ++
        restoreLineEndings (normalizeToLF tail) ending := by
  rw [h.normalize_eq hne, restoreLineEndings_append, restoreLineEndings_append,
    @restoreLineEndings_of_not_mem (before ++ oldText ++ after) ending
      fun hm => (h.line 10 hm).2 rfl]

end InLine

/-- The first line of a text, and what is after it. -/
theorem split_firstLine (text : Units) : ∃ after tail, text = after ++ tail ∧
    (10 : UInt16) ∉ after ∧ (tail = [] ∨ tail.head? = some 10) := by
  induction text with
  | nil => exact ⟨[], [], rfl, not_mem_nil, .inl rfl⟩
  | cons unit text ih =>
    by_cases hunit : unit = 10
    · exact ⟨[], unit :: text, rfl, not_mem_nil, .inr (congrArg some hunit)⟩
    · obtain ⟨after, tail, rfl, hafter, htail⟩ := ih
      refine ⟨unit :: after, tail, rfl, ?_, htail⟩
      rintro (_ | ⟨_, hm⟩)
      · exact hunit rfl
      · exact hafter hm

/-- The last line of a text, and what is before it. -/
theorem split_lastLine (text : Units) : ∃ head before, text = head ++ before ∧
    (10 : UInt16) ∉ before ∧ (head = [] ∨ head.getLast? = some 10) := by
  obtain ⟨after, tail, heq, hafter, htail⟩ := split_firstLine text.reverse
  refine ⟨tail.reverse, after.reverse, ?_, by simpa using hafter, by simpa using htail⟩
  rw [← reverse_append, ← heq, reverse_reverse]

/-- The line ends of a text without carriage returns are line feeds. -/
theorem normalize_restore (h : (13 : UInt16) ∉ text) :
    normalizeToLF (restoreLineEndings text ending) = text := by
  induction text with
  | nil => cases ending <;> rfl
  | cons unit text ih =>
    have hrest := ih fun hm => h (mem_cons_of_mem _ hm)
    have hcr : unit ≠ 13 := fun heq => h (heq ▸ mem_cons_self)
    by_cases hlf : unit = 10
    · subst hlf
      rw [restoreLineEndings_cons_lf]
      cases ending <;> simpa [normalizeToLF] using hrest
    · rw [restoreLineEndings_cons_of_ne hlf, normalizeToLF_cons hcr, hrest]

/-- In a text whose line ends are written alike, what occurs in the normalized text and is in no
line end has a place in a line. -/
theorem exists_inLine {oldText : Units} {i : Nat} (hne : oldText ≠ [])
    (hline : ∀ unit ∈ oldText, unit ≠ 13 ∧ unit ≠ 10)
    (hfirst : indexOf? oldText (normalizeToLF content) = some i)
    (hcontent : restoreLineEndings (normalizeToLF content) ending = content) :
    ∃ head before after tail, InLine content oldText head before after tail := by
  obtain ⟨rest, hrest⟩ := (indexOf?_eq_some hfirst).1
  have hsplit : normalizeToLF content = (normalizeToLF content).take i ++ (oldText ++ rest) := by
    rw [hrest, take_append_drop]
  obtain ⟨head, before, hbefore, hplainBefore, hhead⟩ :=
    split_lastLine ((normalizeToLF content).take i)
  obtain ⟨after, tail, rfl, hplainAfter, htail⟩ := split_firstLine rest
  have hnormal := not_mem_normalizeToLF content
  have hfit := OccursAt.add_le hne (indexOf?_eq_some hfirst).1
  have hi : head.length + before.length = i := by
    rw [← length_append, ← hbefore, length_take]
    omega
  rw [hbefore] at hsplit
  have hparts : normalizeToLF content = head ++ (before ++ oldText ++ after) ++ tail := by
    rw [hsplit]
    simp
  rw [hparts] at hnormal
  simp only [mem_append, not_or] at hnormal
  obtain ⟨⟨hcrHead, ⟨hcrBefore, hcrOld⟩, hcrAfter⟩, hcrTail⟩ := hnormal
  have hplain : (10 : UInt16) ∉ before ++ oldText ++ after := by
    simp only [mem_append, not_or]
    exact ⟨⟨hplainBefore, fun hm => (hline 10 hm).2 rfl⟩, hplainAfter⟩
  refine ⟨restoreLineEndings head ending, before, after, restoreLineEndings tail ending, ?_, ?_,
    ?_, ?_, ?_⟩
  · rw [← hcontent, hparts, restoreLineEndings_append, restoreLineEndings_append,
      restoreLineEndings_of_not_mem hplain]
  · intro unit hm
    refine ⟨?_, ?_⟩
    · rintro rfl
      simp [hcrBefore, hcrOld, hcrAfter] at hm
    · rintro rfl
      exact hplain hm
  · refine hhead.imp (fun heq => ?_) fun hlast => .inl ?_
    · rw [heq]
      cases ending <;> rfl
    · obtain ⟨pre, rfl⟩ := getLast?_eq_some_iff.1 hlast
      rw [restoreLineEndings_append, restoreLineEndings_cons_lf]
      cases ending <;> simp [restoreLineEndings]
  · refine htail.imp (fun heq => ?_) fun hhead => ?_
    · rw [heq]
      cases ending <;> rfl
    · obtain ⟨rest, rfl⟩ := head?_eq_some_iff.1 hhead
      rw [restoreLineEndings_cons_lf]
      cases ending <;> simp
  · rw [normalize_restore hcrHead, hi, hfirst]

/-! ## What the tool writes -/

/-- Where the three parts together are written back as they were, each of the outer two is: an
ending makes no part longer and another shorter. -/
theorem parts_kept {head before inserted after tail : Units}
    (heq : restoreLineEndings (normalizeToLF head) ending ++
        (before ++ restoreLineEndings (normalizeToLF inserted) ending ++ after) ++
        restoreLineEndings (normalizeToLF tail) ending =
      head ++ (before ++ inserted ++ after) ++ tail) :
    restoreLineEndings (normalizeToLF head) ending = head ∧
      restoreLineEndings (normalizeToLF tail) ending = tail := by
  have hlength := congrArg List.length heq
  simp only [length_append] at hlength
  have hsame : (restoreLineEndings (normalizeToLF head) ending).length = head.length ∧
      (restoreLineEndings (normalizeToLF tail) ending).length = tail.length := by
    cases ending with
    | lf =>
      have hhead := length_restore_normalize_lf head
      have hinserted := length_restore_normalize_lf inserted
      have htail := length_restore_normalize_lf tail
      omega
    | crlf =>
      have hhead := length_restore_normalize_crlf head
      have hinserted := length_restore_normalize_crlf inserted
      have htail := length_restore_normalize_crlf tail
      omega
  obtain ⟨hfront, htail⟩ := append_inj' heq hsame.2
  exact ⟨(append_inj hfront hsame.1).1, htail⟩

/-- An edit that is found as it is: what is accepted of it is one replacement. -/
theorem applyEdits_single {result : AppliedEditsResult} {i : Nat}
    (hline : ∀ unit ∈ edit.oldText, unit ≠ 13 ∧ unit ≠ 10)
    (hfirst : indexOf? edit.oldText content = some i)
    (hok : applyEditsToNormalizedContent nfkc content [edit] path = .ok result) :
    edit.oldText ≠ [] ∧ result.newContent = content.take i ++ normalizeToLF edit.newText ++
      content.drop (i + edit.oldText.length) := by
  have hold : normalizeToLF edit.oldText = edit.oldText :=
    normalizeToLF_of_not_mem fun hm => (hline 13 hm).1 rfl
  have hmode : usesFuzzyMatch nfkc content [edit] = false := by
    rw [usesFuzzyMatch_eq_false]
    intro e he
    obtain rfl := mem_singleton.1 he
    rw [Edit.normalized, hold, fuzzyFindText_of_occurs hfirst]
  obtain ⟨haccepted, rfl⟩ := (applyEdits_exact_iff hmode).1 hok
  refine ⟨?_, ?_⟩
  · rw [← hold]
    exact haccepted.nonempty edit mem_cons_self
  · simp [exactReplacements, exactReplacement, Edit.normalized, hold, hfirst, applyReplacements]

/-- What an edit that is found as it is writes. -/
theorem execute_single {i : Nat} (hline : ∀ unit ∈ edit.oldText, unit ≠ 13 ∧ unit ≠ 10)
    (hfirst : indexOf? edit.oldText (normalizeToLF (stripBom raw).2) = some i)
    (hok : execute nfkc raw [edit] path = .ok written) :
    edit.oldText ≠ [] ∧ written = (stripBom raw).1 ++ restoreLineEndings
      ((normalizeToLF (stripBom raw).2).take i ++ normalizeToLF edit.newText ++
        (normalizeToLF (stripBom raw).2).drop (i + edit.oldText.length))
      (detectLineEnding (stripBom raw).2) := by
  obtain ⟨result, hresult, hwritten⟩ := bind_eq_ok.1 hok
  obtain rfl := Except.ok.inj hwritten
  obtain ⟨hne, hnew⟩ := applyEdits_single hline hfirst hresult
  exact ⟨hne, by rw [hnew]⟩

/-- The same by the parts of the content. -/
theorem execute_inLine {head before after tail : Units}
    (hplace : InLine (stripBom raw).2 edit.oldText head before after tail)
    (hok : execute nfkc raw [edit] path = .ok written) :
    edit.oldText ≠ [] ∧ written = (stripBom raw).1 ++
      (restoreLineEndings (normalizeToLF head) (detectLineEnding (stripBom raw).2) ++
        (before ++
          restoreLineEndings (normalizeToLF edit.newText) (detectLineEnding (stripBom raw).2) ++
          after) ++
        restoreLineEndings (normalizeToLF tail) (detectLineEnding (stripBom raw).2)) := by
  obtain ⟨hne, hwritten⟩ :=
    execute_single (fun unit hm => hplace.line unit (by simp [hm])) hplace.first hok
  refine ⟨hne, ?_⟩
  have hsplit : normalizeToLF (stripBom raw).2 = (normalizeToLF head ++ before) ++
      (edit.oldText ++ (after ++ normalizeToLF tail)) := by
    rw [hplace.normalize_eq hne]
    simp
  have htake : (normalizeToLF (stripBom raw).2).take
      ((normalizeToLF head).length + before.length) = normalizeToLF head ++ before := by
    rw [hsplit, ← length_append, take_left]
  have hdrop : (normalizeToLF (stripBom raw).2).drop
      ((normalizeToLF head).length + before.length + edit.oldText.length) =
        after ++ normalizeToLF tail := by
    rw [hsplit, ← length_append, ← drop_drop, drop_left, drop_left]
  have hbefore : restoreLineEndings before (detectLineEnding (stripBom raw).2) = before :=
    restoreLineEndings_of_not_mem fun hm => (hplace.line 10 (by simp [hm])).2 rfl
  have hafter : restoreLineEndings after (detectLineEnding (stripBom raw).2) = after :=
    restoreLineEndings_of_not_mem fun hm => (hplace.line 10 (by simp [hm])).2 rfl
  rw [hwritten, htake, hdrop]
  simp only [restoreLineEndings_append, hbefore, hafter, append_assoc]

/-- A file that is kept outside the line is written back as it was. -/
theorem ChangesOnlyLine.restored (h : ChangesOnlyLine edit raw written)
    (hok : execute nfkc raw [edit] path = .ok written) :
    restoreLineEndings (normalizeToLF (stripBom raw).2) (detectLineEnding (stripBom raw).2) =
      (stripBom raw).2 := by
  obtain ⟨head, before, after, tail, inserted, hplace, hwritten, hinserted⟩ := h
  obtain ⟨hne, heq⟩ := execute_inLine hplace hok
  rw [heq, ← hinserted] at hwritten
  obtain ⟨hhead, htail⟩ := parts_kept (append_cancel_left hwritten)
  rw [hplace.restore_eq hne, hhead, htail]
  exact hplace.content_eq.symm

/-- **The edit tool keeps a file outside the line of an exact edit exactly if all its line ends
are line feeds or all are pairs.** -/
theorem execute_changesOnlyLine_iff
    (hline : ∀ unit ∈ edit.oldText, unit ≠ 13 ∧ unit ≠ 10)
    (hexact : (indexOf? edit.oldText (normalizeToLF (stripBom raw).2)).isSome = true)
    (hok : execute nfkc raw [edit] path = .ok written) :
    ChangesOnlyLine edit raw written ↔ UniformEndings (stripBom raw).2 := by
  rw [← restore_detected_iff]
  constructor
  · exact fun h => h.restored hok
  · intro huniform
    obtain ⟨i, hfirst⟩ := Option.isSome_iff_exists.1 hexact
    obtain ⟨head, before, after, tail, hplace⟩ :=
      exists_inLine (execute_single hline hfirst hok).1 hline hfirst huniform
    obtain ⟨hne, heq⟩ := execute_inLine hplace hok
    have hold : restoreLineEndings (normalizeToLF edit.oldText)
        (detectLineEnding (stripBom raw).2) = edit.oldText := by
      rw [normalizeToLF_of_not_mem fun hm => (hline 13 hm).1 rfl,
        restoreLineEndings_of_not_mem fun hm => (hline 10 hm).2 rfl]
    have hkept : restoreLineEndings (normalizeToLF head) (detectLineEnding (stripBom raw).2) =
          head ∧
        restoreLineEndings (normalizeToLF tail) (detectLineEnding (stripBom raw).2) = tail := by
      refine @parts_kept _ head before edit.oldText after tail ?_
      rw [hold, ← hplace.restore_eq hne, huniform]
      exact hplace.content_eq
    rw [hkept.1, hkept.2] at heq
    refine ⟨head, before, after, tail, _, hplace, heq, ?_⟩
    exact normalize_restore (not_mem_normalizeToLF edit.newText)

/-- In `"a\r\nb\r\nd"` the second line is changed and both pairs are kept. -/
theorem execute_changesOnlyLine_iff_pair :
    ChangesOnlyLine ⟨[98], [99]⟩ [97, 13, 10, 98, 13, 10, 100] [97, 13, 10, 99, 13, 10, 100] :=
  (@execute_changesOnlyLine_iff id _ _ _ "a" (by simp) (by decide) (by decide +kernel)).2
    (.inr (by decide))

/-- In `"a\r\nb\nc"` a change of the last line makes the line feed a pair. -/
theorem execute_rewrites_lineFeed :
    execute id [97, 13, 10, 98, 10, 99] [⟨[99], [100]⟩] "a" =
        .ok [97, 13, 10, 98, 13, 10, 100] ∧
      ¬ChangesOnlyLine ⟨[99], [100]⟩ [97, 13, 10, 98, 10, 99] [97, 13, 10, 98, 13, 10, 100] := by
  have hok : execute id [97, 13, 10, 98, 10, 99] [⟨[99], [100]⟩] "a" =
      .ok [97, 13, 10, 98, 13, 10, 100] := by decide +kernel
  exact ⟨hok, fun h => absurd (h.restored hok) (by decide)⟩

end BeauPi.Tools
