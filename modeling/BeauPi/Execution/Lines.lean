import BeauPi.Execution.Journal
import Mathlib.Data.List.Induction

/-!
# Reading a journal line by line

A file is a list of terminated lines and a tail.  The terminated lines are read strictly, the
tail leniently.

* `exists_lines` — every content has this form.
* `parseJournalFile_eq` — **what `parseJournalFile` reads from it**.
* `parseEventLine_obj`, `readLines_length` — what the lines hold, and how many events they are.
-/

namespace BeauPi.Execution

open Machine List

/-! ## Terminated lines -/

/-- The text of terminated lines. -/
def unlines (lines : List (List Char)) : List Char := lines.flatMap (· ++ ['\n'])

theorem linesText_eq (events : List Json) : linesText events = unlines (events.map Json.text) := by
  simp [linesText, unlines, flatMap_map]

theorem unlines_append (a b : List (List Char)) : unlines (a ++ b) = unlines a ++ unlines b :=
  flatMap_append

theorem unlines_cons (line : List Char) (lines : List (List Char)) :
    unlines (line :: lines) = line ++ '\n' :: unlines lines := by
  simp [unlines]

/-- Every text consists of terminated lines and a tail. -/
theorem exists_lines (content : List Char) :
    ∃ lines tail, content = unlines lines ++ tail ∧ (∀ line ∈ lines, '\n' ∉ line) ∧
      '\n' ∉ tail := by
  induction content with
  | nil => exact ⟨[], [], rfl, by simp, by simp⟩
  | cons c content ih =>
    obtain ⟨lines, tail, rfl, hlines, htail⟩ := ih
    by_cases hc : c = '\n'
    · subst hc
      exact ⟨[] :: lines, tail, by simp [unlines_cons], by simpa using hlines, htail⟩
    · cases lines with
      | nil =>
        refine ⟨[], c :: tail, rfl, by simp, ?_⟩
        simpa [Ne.symm hc] using htail
      | cons line lines =>
        refine ⟨(c :: line) :: lines, tail, by simp [unlines_cons], ?_, htail⟩
        intro line' hline'
        rcases mem_cons.1 hline' with rfl | hline'
        · simpa [Ne.symm hc] using hlines line mem_cons_self
        · exact hlines line' (mem_cons_of_mem _ hline')

variable {lines : List (List Char)} {tail : List Char}

theorem splitOn_unlines (hlines : ∀ line ∈ lines, '\n' ∉ line) (htail : '\n' ∉ tail) :
    (unlines lines ++ tail).splitOn '\n' = lines ++ [tail] := by
  induction lines with
  | nil => exact splitOn_eq_singleton htail
  | cons line lines ih =>
    rw [unlines_cons, append_assoc, cons_append,
      splitOn_append_cons_self_of_not_mem (hlines line mem_cons_self),
      ih fun line' hline' => hlines line' (mem_cons_of_mem _ hline')]
    rfl

theorem getLast?_unlines (htail : '\n' ∉ tail) (h : (unlines lines ++ tail).getLast? = some '\n') :
    tail = [] := by
  cases tail using List.reverseRecOn with
  | nil => rfl
  | append_singleton tail c =>
    rw [← append_assoc, getLast?_concat] at h
    cases h
    simp at htail

/-! ## Reading the lines and the tail -/

/-- The events of terminated lines. -/
def readLines (filePath : String) : List (List Char) → Except JournalError (List Json)
  | [] => .ok []
  | line :: rest =>
    if isBlank line then readLines filePath rest
    else do
      let event ← parseEventLine line filePath
      let events ← readLines filePath rest
      .ok (event :: events)

/-- The tail: a line without its newline. -/
def readTail (filePath : String) (tail : List Char) : Loaded :=
  if isBlank tail then ⟨[], false⟩
  else
    match parseEventLine tail filePath with
    | .ok event => ⟨[event], false⟩
    | .error _ => ⟨[], true⟩

variable {filePath : String}

theorem isBlank_nil : isBlank [] = true := rfl

theorem parseLines_append (terminated : Bool) (lines : List (List Char)) {rest : List (List Char)}
    (hrest : rest ≠ []) :
    parseLines filePath terminated (lines ++ rest) = (do
      let events ← readLines filePath lines
      let loaded ← parseLines filePath terminated rest
      .ok ⟨events ++ loaded.events, loaded.truncatedTail⟩) := by
  induction lines with
  | nil =>
    simp only [nil_append, readLines, bind, Except.bind]
    cases parseLines filePath terminated rest <;> rfl
  | cons line lines ih =>
    have hempty : (lines ++ rest).isEmpty = false := by simp [hrest]
    rw [cons_append, parseLines, readLines, hempty]
    by_cases hblank : isBlank line = true
    · rw [if_pos hblank, if_pos hblank]
      exact ih
    · rw [if_neg hblank, if_neg hblank, Bool.false_and, if_neg Bool.false_ne_true, ih]
      cases parseEventLine line filePath with
      | error e => rfl
      | ok event =>
        simp only [bind, Except.bind]
        cases readLines filePath lines with
        | error e => rfl
        | ok events =>
          cases parseLines filePath terminated rest <;> rfl

theorem parseLines_tail {terminated : Bool} (h : terminated = true → tail = []) :
    parseLines filePath terminated [tail] = .ok (readTail filePath tail) := by
  rw [parseLines, readTail]
  by_cases hblank : isBlank tail = true
  · rw [if_pos hblank, if_pos hblank]
    rfl
  · rw [if_neg hblank, if_neg hblank]
    have hterminated : terminated = false := by
      cases terminated with
      | false => rfl
      | true =>
        rw [h rfl] at hblank
        exact absurd isBlank_nil hblank
    rw [hterminated]
    cases parseEventLine tail filePath <;> rfl

/-- **Reading a file**: the terminated lines must all be events, the tail may be cut short. -/
theorem parseJournalFile_eq (hlines : ∀ line ∈ lines, '\n' ∉ line) (htail : '\n' ∉ tail) :
    parseJournalFile (unlines lines ++ tail) filePath = (do
      let events ← readLines filePath lines
      .ok ⟨events ++ (readTail filePath tail).events, (readTail filePath tail).truncatedTail⟩) := by
  rw [parseJournalFile, splitOn_unlines hlines htail, parseLines_append _ _ (by simp),
    parseLines_tail]
  · rfl
  · intro hterminated
    exact getLast?_unlines htail (of_decide_eq_true hterminated)

theorem readLines_append (a b : List (List Char)) :
    readLines filePath (a ++ b) = (do
      let events ← readLines filePath a
      let more ← readLines filePath b
      .ok (events ++ more)) := by
  induction a with
  | nil =>
    simp only [nil_append, readLines, bind, Except.bind]
    cases readLines filePath b <;> rfl
  | cons line a ih =>
    rw [cons_append, readLines, readLines]
    by_cases hblank : isBlank line = true
    · rw [if_pos hblank, if_pos hblank]
      exact ih
    · rw [if_neg hblank, if_neg hblank, ih]
      cases parseEventLine line filePath with
      | error e => rfl
      | ok event =>
        simp only [bind, Except.bind]
        cases readLines filePath a with
        | error e => rfl
        | ok events => cases readLines filePath b <;> rfl

variable {events : List Json}

/-- The number of events is the number of lines that are not blank. -/
theorem readLines_length (h : readLines filePath lines = .ok events) :
    events.length = (lines.filter fun line => !isBlank line).length := by
  induction lines generalizing events with
  | nil =>
    cases h
    rfl
  | cons line lines ih =>
    rw [readLines] at h
    by_cases hblank : isBlank line = true
    · rw [if_pos hblank] at h
      simpa [hblank] using ih h
    · rw [if_neg hblank] at h
      cases hevent : parseEventLine line filePath with
      | error e => simp [hevent, bind, Except.bind] at h
      | ok event =>
        cases hrest : readLines filePath lines with
        | error e => simp [hevent, hrest, bind, Except.bind] at h
        | ok more =>
          simp only [hevent, hrest, bind, Except.bind, Except.ok.injEq] at h
          subst h
          simp [hblank, ih hrest]

/-! ## Events -/

variable {line : List Char}

theorem isBlank_of_mem {c : Char} (hmem : c ∈ line) (hc : Js.isSpace c = false) :
    isBlank line = false := by
  cases hblank : isBlank line with
  | false => rfl
  | true =>
    simp only [isBlank, Js.trimChars, List.isEmpty_iff, reverse_eq_nil_iff,
      dropWhile_eq_nil_iff, mem_reverse] at hblank
    -- what `trim` leaves at the front starts with a character that is no space
    have hdrop : line.dropWhile Js.isSpace = [] := by
      cases hcons : line.dropWhile Js.isSpace with
      | nil => rfl
      | cons d rest =>
        have hd := hblank d (by rw [hcons]; exact mem_cons_self)
        have hhead := head?_dropWhile_not Js.isSpace line
        rw [hcons] at hhead
        simp [hd] at hhead
    rw [dropWhile_eq_nil_iff] at hdrop
    rw [hdrop c hmem] at hc
    cases hc

theorem isBlank_append_object (tail : List Char) (fields : List (String × Json)) :
    isBlank (tail ++ (Json.obj fields).text) = false :=
  isBlank_of_mem (c := '\x7b') (by simp [Json.text]) (by decide)

variable {event : Json}

/-- A line that is an event holds an object. -/
theorem parseEventLine_obj (h : parseEventLine line filePath = .ok event) :
    Json.parse (String.ofList line) = some event ∧ ∃ fields, event = .obj fields := by
  unfold parseEventLine at h
  cases hparse : Json.parse (String.ofList line) with
  | none => simp [hparse] at h
  | some parsed =>
    simp only [hparse] at h
    split_ifs at h with hobject hseq hid htime
    cases h
    refine ⟨rfl, ?_⟩
    cases event with
    | obj fields => exact ⟨fields, rfl⟩
    | arr items => simp [Json.get?, isPositiveInteger] at hseq
    | null | bool | num | str => simp [isObject] at hobject

theorem parseEventLine_error_code {e : JournalError} (h : parseEventLine line filePath = .error e) :
    e.code = .invalidJournal := by
  unfold parseEventLine at h
  cases hparse : Json.parse (String.ofList line) with
  | none =>
    simp only [hparse] at h
    cases h
    rfl
  | some parsed =>
    simp only [hparse] at h
    split_ifs at h
    all_goals
      cases h
      rfl

/-- Every line that is not blank is an event. -/
theorem parseEventLine_of_readLines (h : readLines filePath lines = .ok events)
    (hline : line ∈ lines) (hblank : isBlank line = false) :
    ∃ event, parseEventLine line filePath = .ok event := by
  obtain ⟨before, after, rfl⟩ := append_of_mem hline
  rw [readLines_append, readLines, if_neg (by simp [hblank])] at h
  cases hevent : parseEventLine line filePath with
  | ok event => exact ⟨event, rfl⟩
  | error e =>
    cases hbefore : readLines filePath before with
    | error e => simp [hbefore, bind, Except.bind] at h
    | ok old => simp [hbefore, hevent, bind, Except.bind] at h

/-- An event line with the text of another event after it is no event line. -/
theorem parseEventLine_run_together (h : parseEventLine line filePath = .ok event)
    (fields : List (String × Json)) :
    ∃ e, parseEventLine (line ++ (Json.obj fields).text) filePath = .error e := by
  obtain ⟨hparse, own, rfl⟩ := parseEventLine_obj h
  have hspace : Json.skipSpace (Json.obj fields).text ≠ [] := by
    rw [Json.text, Json.skipSpace_of_startsPlain (Json.startsPlain_cons (by decide) _)]
    simp
  have hnone := Json.parse_object_append rfl hparse hspace
  exact ⟨_, by rw [parseEventLine, hnone]⟩

theorem mem_readLines (h : readLines filePath lines = .ok events) (hevent : event ∈ events) :
    ∃ line, parseEventLine line filePath = .ok event := by
  induction lines generalizing events with
  | nil =>
    cases h
    cases hevent
  | cons line lines ih =>
    rw [readLines] at h
    by_cases hblank : isBlank line = true
    · rw [if_pos hblank] at h
      exact ih h hevent
    · rw [if_neg hblank] at h
      cases hline : parseEventLine line filePath with
      | error e => simp [hline, bind, Except.bind] at h
      | ok first =>
        cases hrest : readLines filePath lines with
        | error e => simp [hline, hrest, bind, Except.bind] at h
        | ok more =>
          simp only [hline, hrest, bind, Except.bind, Except.ok.injEq] at h
          subst h
          rcases mem_cons.1 hevent with rfl | hevent
          · exact ⟨line, hline⟩
          · exact ih hrest hevent

end BeauPi.Execution
