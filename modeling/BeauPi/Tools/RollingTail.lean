import BeauPi.Tools.OutputAccumulator

/-!
# The snapshot of an output and the truncation of the whole

* `window` — what a rolling tail forgets and holds.
* `SnapshotMatches` — the snapshot is what `truncateTail` makes of the whole output.
* `LastCutFits` — the last cut of the tail falls on the start of a line, or what follows its line
  is still to be truncated.
* `Tracks` — the accumulator follows the output.
* `snapshotMatches_iff` — **the two are the same for every output**.
-/

namespace BeauPi.Tools

open Execution Utf8 OutputAccumulator List

variable {maxLines maxBytes : Nat} {o : OutputAccumulator} {output text before held : List Char}

/-! ## Vocabulary -/

/-- A rolling tail takes in a piece: once it has more than four times the bytes, it forgets all but
the longest end of twice the bytes. -/
def roll (maxBytes : Nat) (w : List Char × List Char) (piece : List Char) :
    List Char × List Char :=
  let held := w.2 ++ piece
  if byteLength held > 4 * maxBytes then
    let kept := tailWithin (2 * maxBytes) held
    (w.1 ++ held.take (held.length - kept.length), kept)
  else (w.1, held)

/-- What a rolling tail has forgotten and what it holds after the pieces. -/
def window (maxBytes : Nat) (pieces : List (List Char)) : List Char × List Char :=
  pieces.foldl (roll maxBytes) ([], [])

/-- The snapshot has the content, the flags and the counts that `truncateTail` gives for the whole
output, and when it is truncated the temporary file holds the chunks. -/
structure SnapshotMatches (maxLines maxBytes : Nat) (chunks : List (List UInt8))
    (o : OutputAccumulator) : Prop where
  content : (o.snapshot false).2.content =
    (truncateTail (decodeText chunks.flatten) maxLines maxBytes).content
  truncated : (o.snapshot false).2.truncated =
    (truncateTail (decodeText chunks.flatten) maxLines maxBytes).truncated
  totalLines : (o.snapshot false).2.totalLines =
    (truncateTail (decodeText chunks.flatten) maxLines maxBytes).totalLines
  totalBytes : (o.snapshot false).2.totalBytes =
    (truncateTail (decodeText chunks.flatten) maxLines maxBytes).totalBytes
  lastLinePartial : (o.snapshot false).2.lastLinePartial =
    (truncateTail (decodeText chunks.flatten) maxLines maxBytes).lastLinePartial
  tempFile : (o.snapshot false).2.truncated = true → o.tempFile = some chunks.flatten

/-- Behind the line that the last cut of the tail falls into there is something, and it does not
end with a newline or is beyond one of the limits. -/
def RestFits (maxLines maxBytes : Nat) (rest : List Char) : Prop :=
  rest ≠ [] ∧ (rest.getLast? ≠ some '\n' ∨ maxBytes < byteLength rest ∨
    maxLines < (splitLinesForCounting rest).length)

instance (maxLines maxBytes : Nat) (rest : List Char) :
    Decidable (RestFits maxLines maxBytes rest) :=
  inferInstanceAs (Decidable (_ ∧ _))

/-- The rolling tail was never cut, or the last cut falls on the start of a line, or no newline
follows it, or what follows the first newline behind it fits. -/
def LastCutFits (maxLines maxBytes : Nat) (chunks : List (List UInt8)) : Prop :=
  let (before, held) := window maxBytes (TextDecoder.new.pieces chunks)
  before = [] ∨ before.getLast? = some '\n' ∨ '\n' ∉ held ∨
    RestFits maxLines maxBytes (afterFirstNewline held)

instance (maxLines maxBytes : Nat) (chunks : List (List UInt8)) :
    Decidable (LastCutFits maxLines maxBytes chunks) :=
  inferInstanceAs (Decidable (_ ∨ _))

/-! ## The rolling tail -/

variable {w : List Char × List Char}

theorem roll_short {piece : List Char} (h : byteLength (w.2 ++ piece) ≤ 4 * maxBytes) :
    roll maxBytes w piece = (w.1, w.2 ++ piece) := by
  unfold roll
  dsimp only
  rw [if_neg (by omega)]

/-- A tail that is cut keeps an end of more than the bytes that are shown. -/
theorem roll_long (hmax : 4 ≤ maxBytes) {piece : List Char}
    (h : 4 * maxBytes < byteLength (w.2 ++ piece)) :
    ∃ cut kept, w.2 ++ piece = cut ++ kept ∧ cut ≠ [] ∧
      kept = tailWithin (2 * maxBytes) (w.2 ++ piece) ∧ roll maxBytes w piece = (w.1 ++ cut, kept) ∧
      maxBytes < byteLength kept ∧ byteLength kept ≤ 4 * maxBytes := by
  unfold roll
  dsimp only
  rw [if_pos h]
  generalize w.2 ++ piece = text at h
  obtain ⟨cut, hcut⟩ := tailWithin_suffix (2 * maxBytes) text
  have hlimit := byteLength_tailWithin_le (2 * maxBytes) text
  have hlow := lt_byteLength_tailWithin (show 2 * maxBytes < byteLength text by omega)
  generalize hkept : tailWithin (2 * maxBytes) text = kept at hcut hlimit hlow
  subst hcut
  refine ⟨cut, kept, rfl, ?_, rfl, ?_, by omega, by omega⟩
  · rintro rfl
    rw [nil_append] at h
    omega
  · rw [length_append, Nat.add_sub_cancel, take_left]

/-! ## The accumulator follows the output -/

/-- The accumulator has seen `output`, of which `w` tells what is forgotten and what is held. -/
structure Tracks (maxLines maxBytes : Nat) (o : OutputAccumulator) (output : List Char)
    (w : List Char × List Char) : Prop where
  maxLines_eq : o.maxLines = maxLines
  maxBytes_eq : o.maxBytes = maxBytes
  rolling : o.maxRollingBytes = 2 * maxBytes
  split : output = w.1 ++ w.2
  tailText : o.tailText = w.2
  tailBytes : o.tailBytes = byteLength w.2
  short : byteLength w.2 ≤ 4 * maxBytes
  long : w.1 ≠ [] → maxBytes < byteLength w.2
  boundary : o.tailStartsAtLineBoundary = decide (w.1 = [] ∨ w.1.getLast? = some '\n')
  decoded : o.totalDecodedBytes = byteLength output
  completed : o.completedLines = output.count '\n'
  openLine : o.hasOpenLine = decide (output ≠ [] ∧ output.getLast? ≠ some '\n')
  lines : o.totalLines = o.completedLines + if o.hasOpenLine then 1 else 0

theorem tracks_new (hmax : 4 ≤ maxBytes) (maxLines : Nat) :
    Tracks maxLines maxBytes (new maxLines maxBytes) [] ([], []) where
  maxLines_eq := rfl
  maxBytes_eq := rfl
  rolling := by show max (maxBytes * 2) 1 = 2 * maxBytes; omega
  split := rfl
  tailText := rfl
  tailBytes := rfl
  short := Nat.zero_le _
  long := fun h => absurd rfl h
  boundary := rfl
  decoded := rfl
  completed := rfl
  openLine := rfl
  lines := rfl

/-- **The tail of the accumulator rolls.** -/
theorem extendTail_spec (hmax : 4 ≤ maxBytes) (h : Tracks maxLines maxBytes o output w)
    (text : List Char) :
    (o.extendTail text).tailText = (roll maxBytes w text).2 ∧
    (o.extendTail text).tailBytes = byteLength (roll maxBytes w text).2 ∧
    (o.extendTail text).tailStartsAtLineBoundary =
      decide ((roll maxBytes w text).1 = [] ∨ (roll maxBytes w text).1.getLast? = some '\n') ∧
    (roll maxBytes w text).1 ++ (roll maxBytes w text).2 = output ++ text ∧
    byteLength (roll maxBytes w text).2 ≤ 4 * maxBytes ∧
    ((roll maxBytes w text).1 ≠ [] → maxBytes < byteLength (roll maxBytes w text).2) := by
  have hbytes : o.tailBytes + byteLength text = byteLength (w.2 ++ text) := by
    rw [h.tailBytes, byteLength_append]
  by_cases hlong : 4 * maxBytes < byteLength (w.2 ++ text)
  · obtain ⟨cut, kept, heq, hcut, hkept, hroll, hlow, hhigh⟩ := roll_long hmax hlong
    have htail : o.tailText ++ text = cut ++ kept := by rw [h.tailText, heq]
    have hkept' : tailWithin (2 * maxBytes) (cut ++ kept) = kept := by rw [← heq, ← hkept]
    have hstart := skipContinuation_eq hkept'
    have hdecode := decode_skipContinuation (2 * maxBytes) (cut ++ kept)
    rw [hstart, hkept'] at hdecode
    have hpos := byteLength_pos hcut
    have hlast : (encode (cut ++ kept))[byteLength cut - 1]? = (encode cut).getLast? := by
      rw [encode_append, getElem?_append_left (by unfold byteLength at *; omega),
        getLast?_eq_getElem?]
      rfl
    have hsum := byteLength_append cut kept
    rw [heq] at hlong
    have hlength : (encode (cut ++ kept)).length = byteLength (cut ++ kept) := rfl
    have hnewline : w.1 ++ cut = [] ∨ (w.1 ++ cut).getLast? = some '\n' ↔
        cut.getLast? = some '\n' := by
      rw [getLast?_append_of_ne_nil _ hcut]
      simp [hcut]
    rw [hroll]
    unfold extendTail
    dsimp only
    rw [if_pos (by rw [hbytes, h.rolling]; rw [heq]; omega)]
    unfold trimTail
    simp only [htail, h.rolling, hlength]
    rw [if_neg (by omega), hstart, hdecode, if_neg (by omega), hlast]
    refine ⟨rfl, rfl, ?_, ?_, hhigh, fun _ => hlow⟩
    · exact decide_eq_decide.2 ((getLast?_encode_newline cut).trans hnewline.symm)
    · rw [h.split, append_assoc, append_assoc, ← heq]
  · rw [roll_short (by omega)]
    have hshort : ¬o.tailBytes + byteLength text > o.maxRollingBytes * 2 := by
      rw [hbytes, h.rolling]
      omega
    unfold extendTail
    dsimp only
    rw [if_neg hshort]
    refine ⟨by rw [h.tailText], hbytes, h.boundary, ?_, by omega, fun hne => ?_⟩
    · rw [h.split, append_assoc]
    · have := h.long hne
      rw [byteLength_append]
      omega

/-- The text behind the last newline is empty exactly when the text ends with one. -/
theorem isEmpty_afterLastNewline {text : List Char} (h : text ≠ []) :
    (afterLastNewline text).isEmpty = decide (text.getLast? = some '\n') := by
  cases text using List.reverseRecOn with
  | nil => exact absurd rfl h
  | append_singleton text c =>
    rw [afterLastNewline, reverse_concat, getLast?_concat]
    by_cases hc : c = '\n'
    · simp [hc]
    · rw [takeWhile_cons_of_pos (by simpa using hc)]
      simp [hc]

/-- **What the lines are counted to.** -/
theorem countLines_spec {text : List Char} (hnil : text ≠ [])
    (hcompleted : o.completedLines = output.count '\n') :
    (o.countLines text).completedLines = (output ++ text).count '\n' ∧
    (o.countLines text).hasOpenLine =
      decide (output ++ text ≠ [] ∧ (output ++ text).getLast? ≠ some '\n') ∧
    (o.countLines text).totalLines =
      (o.countLines text).completedLines + if (o.countLines text).hasOpenLine then 1 else 0 := by
  have hlast : (output ++ text).getLast? = text.getLast? := getLast?_append_of_ne_nil _ hnil
  have hne : output ++ text ≠ [] := by simp [hnil]
  refine ⟨?_, ?_, rfl⟩
  · rw [count_append, ← hcompleted]
    unfold countLines
    dsimp only
    split_ifs with hzero
    · rw [hzero]
      rfl
    · rfl
  · rw [hlast]
    unfold countLines
    dsimp only
    split_ifs with hzero
    · have hnot : text.getLast? ≠ some '\n' := fun h =>
        count_eq_zero.1 hzero (mem_of_getLast? h)
      simp [hne, hnot]
    · show (!(afterLastNewline text).isEmpty) = _
      rw [isEmpty_afterLastNewline hnil, ← decide_not]
      exact decide_eq_decide.2 ⟨fun h => ⟨hne, h⟩, fun h => h.2⟩

/-- **Decoded text is followed.** -/
theorem Tracks.appendDecodedText (h : Tracks maxLines maxBytes o output w) (hmax : 4 ≤ maxBytes)
    (text : List Char) :
    Tracks maxLines maxBytes (o.appendDecodedText text) (output ++ text)
      (roll maxBytes w text) := by
  unfold OutputAccumulator.appendDecodedText
  split_ifs with hnil
  · subst hnil
    have hroll : roll maxBytes w [] = w := by
      rw [roll_short (by simpa using h.short), append_nil]
    rwa [hroll, append_nil]
  · obtain ⟨htail, hbytes, hboundary, hsplit, hshort, hlong⟩ := extendTail_spec hmax h text
    have hkept : ∀ o : OutputAccumulator, (o.extendTail text).maxLines = o.maxLines ∧
        (o.extendTail text).maxBytes = o.maxBytes ∧
        (o.extendTail text).maxRollingBytes = o.maxRollingBytes ∧
        (o.extendTail text).completedLines = o.completedLines ∧
        (o.extendTail text).totalDecodedBytes = o.totalDecodedBytes + byteLength text := by
      intro o
      unfold extendTail trimTail
      dsimp only
      split_ifs <;> exact ⟨rfl, rfl, rfl, rfl, rfl⟩
    have hcounted : ∀ o : OutputAccumulator, (o.countLines text).maxLines = o.maxLines ∧
        (o.countLines text).maxBytes = o.maxBytes ∧
        (o.countLines text).maxRollingBytes = o.maxRollingBytes ∧
        (o.countLines text).tailText = o.tailText ∧ (o.countLines text).tailBytes = o.tailBytes ∧
        (o.countLines text).tailStartsAtLineBoundary = o.tailStartsAtLineBoundary ∧
        (o.countLines text).totalDecodedBytes = o.totalDecodedBytes := by
      intro o
      unfold countLines
      dsimp only
      split_ifs <;> exact ⟨rfl, rfl, rfl, rfl, rfl, rfl, rfl⟩
    obtain ⟨k₁, k₂, k₃, k₄, k₅⟩ := hkept o
    obtain ⟨c₁, c₂, c₃, c₄, c₅, c₆, c₇⟩ := hcounted (o.extendTail text)
    obtain ⟨hcompleted, hopen, hlines⟩ := countLines_spec hnil (k₄.trans h.completed)
    exact {
      maxLines_eq := c₁.trans (k₁.trans h.maxLines_eq)
      maxBytes_eq := c₂.trans (k₂.trans h.maxBytes_eq)
      rolling := c₃.trans (k₃.trans h.rolling)
      split := hsplit.symm
      tailText := c₄.trans htail
      tailBytes := c₅.trans hbytes
      short := hshort
      long := hlong
      boundary := c₆.trans hboundary
      decoded := by rw [c₇, k₅, h.decoded, byteLength_append]
      completed := hcompleted
      openLine := hopen
      lines := hlines }

/-! ## The temporary file -/

/-- The chunks so far are in the temporary file, or kept for it. -/
structure Saves (o : OutputAccumulator) (bytes : List UInt8) : Prop where
  saved : ∀ f, o.tempFile = some f → f = bytes ∧ o.tempFileOpen = true
  kept : o.tempFile = none → o.rawChunks.flatten = bytes ∧ o.tempFileOpen = false

theorem saves_new (maxLines maxBytes : Nat) : Saves (new maxLines maxBytes) [] :=
  ⟨fun f h => (by cases h), fun _ => ⟨rfl, rfl⟩⟩

variable {bytes : List UInt8}

theorem Saves.of_files {o' : OutputAccumulator} (h : Saves o bytes)
    (hfile : o'.tempFile = o.tempFile) (hopen : o'.tempFileOpen = o.tempFileOpen)
    (hraw : o'.rawChunks = o.rawChunks) : Saves o' bytes where
  saved := by
    rw [hfile, hopen]
    exact h.saved
  kept := by
    rw [hfile, hopen, hraw]
    exact h.kept

/-- Text does not change the files. -/
theorem appendDecodedText_files (o : OutputAccumulator) (text : List Char) :
    (o.appendDecodedText text).tempFile = o.tempFile ∧
    (o.appendDecodedText text).tempFileOpen = o.tempFileOpen ∧
    (o.appendDecodedText text).rawChunks = o.rawChunks ∧
    (o.appendDecodedText text).finished = o.finished ∧
    (o.appendDecodedText text).decoder = o.decoder := by
  unfold OutputAccumulator.appendDecodedText extendTail trimTail countLines
  dsimp only
  split_ifs <;> exact ⟨rfl, rfl, rfl, rfl, rfl⟩

theorem Saves.ensureTempFile (h : Saves o bytes) :
    Saves o.ensureTempFile bytes ∧ o.ensureTempFile.tempFile = some bytes := by
  unfold OutputAccumulator.ensureTempFile
  cases hfile : o.tempFile with
  | none =>
    have hkept := (h.kept hfile).1
    rw [if_neg (by simp)]
    refine ⟨⟨fun f hf => ?_, fun hf => (by cases hf)⟩, congrArg some hkept⟩
    obtain rfl := Option.some.inj hf
    exact ⟨hkept, rfl⟩
  | some f =>
    rw [if_pos (by simp)]
    exact ⟨h, by rw [hfile, (h.saved f hfile).1]⟩

/-- What follows of an output does not see the files. -/
theorem Tracks.of_files {o' : OutputAccumulator} (h : Tracks maxLines maxBytes o output w)
    (hsame : o' = { o with
      decoder := o'.decoder, rawChunks := o'.rawChunks, totalRawBytes := o'.totalRawBytes
      finished := o'.finished, tempFile := o'.tempFile, tempFileOpen := o'.tempFileOpen }) :
    Tracks maxLines maxBytes o' output w := by
  rw [hsame]
  exact ⟨h.maxLines_eq, h.maxBytes_eq, h.rolling, h.split, h.tailText, h.tailBytes, h.short, h.long,
    h.boundary, h.decoded, h.completed, h.openLine, h.lines⟩

/-- **A chunk is followed and saved.** -/
theorem append_spec (h : Tracks maxLines maxBytes o output w) (hsaves : Saves o bytes)
    (hmax : 4 ≤ maxBytes) (hfinished : o.finished = false) (data : List UInt8) :
    ∃ o', o.append data = .ok o' ∧
      Tracks maxLines maxBytes o' (output ++ (o.decoder.decodeStream data).2)
        (roll maxBytes w (o.decoder.decodeStream data).2) ∧
      Saves o' (bytes ++ data) ∧ o'.finished = false ∧
      o'.decoder = (o.decoder.decodeStream data).1 := by
  unfold append
  rw [if_neg (by rw [hfinished]; exact Bool.false_ne_true)]
  dsimp only
  generalize (o.decoder.decodeStream data).1 = decoder
  generalize (o.decoder.decodeStream data).2 = text
  generalize hread : ({ o with
    totalRawBytes := o.totalRawBytes + data.length, decoder := decoder } : OutputAccumulator) = read
  have htracks : Tracks maxLines maxBytes (read.appendDecodedText text) (output ++ text)
      (roll maxBytes w text) := by
    refine Tracks.appendDecodedText (h.of_files ?_) hmax text
    subst hread
    rfl
  obtain ⟨hfile, hopen, hraw, hdone, hdecoder⟩ := appendDecodedText_files read text
  have hread' : read.tempFile = o.tempFile ∧ read.tempFileOpen = o.tempFileOpen ∧
      read.rawChunks = o.rawChunks ∧ read.finished = false ∧ read.decoder = decoder := by
    subst hread
    exact ⟨rfl, rfl, rfl, hfinished, rfl⟩
  obtain ⟨r₁, r₂, r₃, r₄, r₅⟩ := hread'
  generalize hnext : read.appendDecodedText text = next at *
  have hsaved : Saves next bytes :=
    hsaves.of_files (hfile.trans r₁) (hopen.trans r₂) (hraw.trans r₃)
  refine ⟨_, rfl, ?_, ?_, ?_, ?_⟩
  · refine htracks.of_files ?_
    unfold OutputAccumulator.ensureTempFile writeTempFile
    split_ifs <;> rfl
  · split_ifs with huse hdata
    · obtain ⟨hensured, hfileEnsured⟩ := hsaved.ensureTempFile
      have hopenEnsured := (hensured.saved _ hfileEnsured).2
      unfold writeTempFile
      rw [if_pos hopenEnsured]
      refine ⟨fun f hf => ?_, fun hf => ?_⟩
      · simp only [hfileEnsured, Option.map_some, Option.some.injEq] at hf
        exact ⟨hf.symm, hopenEnsured⟩
      · simp [hfileEnsured] at hf
    · refine ⟨fun f hf => ?_, fun hf => ?_⟩
      · have := (hsaved.saved f hf).2
        simp [this] at huse
      · have := hsaved.kept hf
        exact ⟨by simp [this.1], this.2⟩
    · obtain rfl : data = [] := length_eq_zero_iff.1 (by omega)
      rwa [append_nil]
  · unfold OutputAccumulator.ensureTempFile writeTempFile
    split_ifs <;> exact hdone.trans r₄
  · unfold OutputAccumulator.ensureTempFile writeTempFile
    split_ifs <;> exact hdecoder.trans r₅

/-- **The end of the output is followed**, and when it is too long the temporary file holds it. -/
theorem finish_spec (h : Tracks maxLines maxBytes o output w) (hsaves : Saves o bytes)
    (hmax : 4 ≤ maxBytes) (hfinished : o.finished = false) :
    Tracks maxLines maxBytes o.finish (output ++ o.decoder.flush)
      (roll maxBytes w o.decoder.flush) ∧
    (maxBytes < o.finish.totalDecodedBytes ∨ maxLines < o.finish.totalLines →
      o.finish.tempFile = some bytes) := by
  unfold finish
  rw [if_neg (by rw [hfinished]; exact Bool.false_ne_true)]
  dsimp only
  generalize o.decoder.flush = text
  generalize hread : ({ o with finished := true, decoder := .new } : OutputAccumulator) = read
  have htracks : Tracks maxLines maxBytes (read.appendDecodedText text) (output ++ text)
      (roll maxBytes w text) := by
    refine Tracks.appendDecodedText (h.of_files ?_) hmax text
    subst hread
    rfl
  obtain ⟨hfile, hopen, hraw, -, -⟩ := appendDecodedText_files read text
  have hsaved : Saves (read.appendDecodedText text) bytes := by
    refine hsaves.of_files (hfile.trans ?_) (hopen.trans ?_) (hraw.trans ?_) <;> subst hread <;> rfl
  constructor
  · refine htracks.of_files ?_
    unfold OutputAccumulator.ensureTempFile
    split_ifs <;> rfl
  · intro hlong
    split_ifs at hlong ⊢ with huse
    · exact hsaved.ensureTempFile.2
    · simp only [shouldUseTempFile, htracks.maxBytes_eq, htracks.maxLines_eq, Bool.or_eq_true,
        decide_eq_true_eq] at huse
      omega

/-- **A whole output is followed.** -/
theorem accumulate_spec (maxLines : Nat) (hmax : 4 ≤ maxBytes) (chunks : List (List UInt8)) :
    ∃ o, accumulate maxLines maxBytes chunks = .ok o ∧
      Tracks maxLines maxBytes o (decodeText chunks.flatten)
        (window maxBytes (TextDecoder.new.pieces chunks)) ∧
      (maxBytes < o.totalDecodedBytes ∨ maxLines < o.totalLines →
        o.tempFile = some chunks.flatten) := by
  -- the chunks one after the other, from any state
  have hrun : ∀ (chunks : List (List UInt8)) (o : OutputAccumulator) (output : List Char)
      (w : List Char × List Char) (bytes : List UInt8), Tracks maxLines maxBytes o output w →
      Saves o bytes → o.finished = false →
      ∃ o', (chunks.foldlM append o).map finish = .ok o' ∧
        Tracks maxLines maxBytes o' (output ++ (o.decoder.pieces chunks).flatten)
          ((o.decoder.pieces chunks).foldl (roll maxBytes) w) ∧
        (maxBytes < o'.totalDecodedBytes ∨ maxLines < o'.totalLines →
          o'.tempFile = some (bytes ++ chunks.flatten)) := by
    intro chunks
    induction chunks with
    | nil =>
      intro o output w bytes h hsaves hfinished
      obtain ⟨htracks, hfile⟩ := finish_spec h hsaves hmax hfinished
      refine ⟨o.finish, rfl, ?_, ?_⟩
      · simpa [TextDecoder.pieces] using htracks
      · simpa using hfile
    | cons data chunks ih =>
      intro o output w bytes h hsaves hfinished
      obtain ⟨next, happend, htracks, hsaved, hdone, hdecoder⟩ :=
        append_spec h hsaves hmax hfinished data
      obtain ⟨o', hrest, hfollows, hfile⟩ := ih next _ _ _ htracks hsaved hdone
      refine ⟨o', ?_, ?_, ?_⟩
      · rw [foldlM_cons, happend]
        exact hrest
      · rw [hdecoder] at hfollows
        rw [TextDecoder.pieces, flatten_cons, ← append_assoc, foldl_cons]
        exact hfollows
      · rwa [flatten_cons, ← append_assoc]
  obtain ⟨o, hok, htracks, hfile⟩ := hrun chunks (new maxLines maxBytes) [] ([], []) []
    (tracks_new hmax maxLines) (saves_new maxLines maxBytes) rfl
  refine ⟨o, hok, ?_, hfile⟩
  rw [nil_append, show (new maxLines maxBytes).decoder = TextDecoder.new from rfl,
    flatten_pieces] at htracks
  exact htracks

/-! ## Counts -/

/-- A text has as many lines as it has newlines, and one more if it does not end with one. -/
theorem length_splitLinesForCounting (text : List Char) :
    (splitLinesForCounting text).length =
      text.count '\n' + if text ≠ [] ∧ text.getLast? ≠ some '\n' then 1 else 0 := by
  obtain ⟨lines, tail, rfl, hlines, htail⟩ := exists_lines text
  have hcount : ∀ lines : List (List Char), (∀ line ∈ lines, '\n' ∉ line) →
      (unlines lines).count '\n' = lines.length := by
    intro lines hlines
    induction lines with
    | nil => rfl
    | cons line lines ih =>
      rw [unlines_cons, count_append, count_cons_self,
        count_eq_zero.2 (hlines line mem_cons_self),
        ih fun l hl => hlines l (mem_cons_of_mem _ hl), length_cons]
      omega
  rw [splitLinesForCounting_unlines hlines htail, count_append, hcount lines hlines,
    count_eq_zero.2 htail, length_append]
  by_cases hempty : tail = []
  · subst hempty
    cases lines using List.reverseRecOn with
    | nil => rfl
    | append_singleton lines line => simp [unlines]
  · have hlast : (unlines lines ++ tail).getLast? ≠ some '\n' := fun h =>
      hempty (getLast?_unlines htail h)
    rw [if_neg hempty, if_pos ⟨by simp [hempty], hlast⟩]
    rfl

/-- The counts of the accumulator are those of the output. -/
theorem Tracks.totalLines_eq (h : Tracks maxLines maxBytes o output w) :
    o.totalLines = (splitLinesForCounting output).length := by
  rw [h.lines, h.completed, h.openLine, length_splitLinesForCounting]
  simp only [decide_eq_true_eq]

theorem truncateTail_counts (text : List Char) (maxLines maxBytes : Nat) :
    (truncateTail text maxLines maxBytes).totalLines = (splitLinesForCounting text).length ∧
    (truncateTail text maxLines maxBytes).totalBytes = byteLength text ∧
    (truncateTail text maxLines maxBytes).truncated =
      (decide ((splitLinesForCounting text).length > maxLines) ||
        decide (byteLength text > maxBytes)) := by
  unfold truncateTail truncateTailOf
  dsimp only
  by_cases h : (splitLinesForCounting text).length ≤ maxLines ∧ byteLength text ≤ maxBytes
  · rw [if_pos h]
    refine ⟨rfl, rfl, ?_⟩
    simp [TruncationResult.whole, not_lt.2 h.1, not_lt.2 h.2]
  · rw [if_neg h]
    refine ⟨rfl, rfl, ?_⟩
    rw [not_and_or, not_le, not_le] at h
    rcases h with h | h <;> simp [Collected.result, h]

/-! ## The snapshot -/

/-- What the snapshot takes from the truncation of its text. -/
theorem snapshot_content (o : OutputAccumulator) :
    (o.snapshot false).2.content =
      (truncateTail o.getSnapshotText o.maxLines o.maxBytes).content ∧
    (o.snapshot false).2.lastLinePartial =
      (truncateTail o.getSnapshotText o.maxLines o.maxBytes).lastLinePartial :=
  ⟨rfl, rfl⟩

/-- A text that ends with a newline consists of terminated lines. -/
theorem exists_unlines (h : text.getLast? = some '\n') :
    ∃ lines line, text = unlines (lines ++ [line]) ∧ ∀ l ∈ lines ++ [line], '\n' ∉ l := by
  obtain ⟨lines, tail, rfl, hlines, htail⟩ := exists_lines text
  obtain rfl := getLast?_unlines htail h
  cases lines using List.reverseRecOn with
  | nil => simp [unlines] at h
  | append_singleton lines line => exact ⟨lines, line, append_nil _, hlines⟩

/-- A text with a newline is a line, the newline and the rest. -/
theorem exists_firstLine (h : '\n' ∈ text) :
    ∃ line, text = line ++ '\n' :: afterFirstNewline text ∧ '\n' ∉ line := by
  refine ⟨text.takeWhile (· != '\n'), ?_, fun hmem => by simpa using mem_takeWhile_imp hmem⟩
  conv_lhs => rw [← takeWhile_append_dropWhile (p := (· != '\n')) (l := text)]
  congr 1
  cases hdrop : text.dropWhile (· != '\n') with
  | nil =>
    have := dropWhile_eq_nil_iff.1 hdrop '\n' h
    simp at this
  | cons c rest =>
    have hc := head_dropWhile_not (· != '\n') (l := text) (by simp [hdrop])
    simp only [hdrop, head_cons] at hc
    rw [afterFirstNewline, hdrop]
    simpa using hc

/-- **A tail that starts a line is as good as the output.** -/
theorem content_of_boundary (hlast : before.getLast? = some '\n')
    (hlong : maxBytes < byteLength held) (maxLines : Nat) :
    (truncateTail held maxLines maxBytes).content =
        (truncateTail (before ++ held) maxLines maxBytes).content ∧
      (truncateTail held maxLines maxBytes).lastLinePartial =
        (truncateTail (before ++ held) maxLines maxBytes).lastLinePartial := by
  obtain ⟨lines, line, rfl, hlines⟩ := exists_unlines hlast
  have hnil : held ≠ [] := by
    rintro rfl
    simp at hlong
  have hnext : maxBytes < byteLength (joinLines (line :: splitLinesForCounting held)) := by
    have hjoin := byteLength_le_joinLines held
    rw [joinLines_cons _ (mt splitLinesForCounting_eq_nil.1 hnil), byteLength_append,
      byteLength_newline]
    omega
  obtain ⟨hcontent, hpartial⟩ := truncateTail_of_beyond (.inr hlong)
  obtain ⟨hcontent', hpartial'⟩ := truncateTail_end maxLines
    (by rw [byteLength_append]; omega) hlines hnil hnext
  exact ⟨hcontent.trans hcontent'.symm, hpartial.trans hpartial'.symm⟩

/-- **A tail that starts within its only line is as good as the output.** -/
theorem content_of_line (hmax : 1 ≤ maxLines) (hline : '\n' ∉ held)
    (hlong : maxBytes < byteLength held) (before : List Char) :
    (truncateTail held maxLines maxBytes).content =
        (truncateTail (before ++ held) maxLines maxBytes).content ∧
      (truncateTail held maxLines maxBytes).lastLinePartial =
        (truncateTail (before ++ held) maxLines maxBytes).lastLinePartial := by
  obtain ⟨lines, start, rfl, hlines, hstart⟩ := exists_lines before
  have hnil : held ≠ [] := by
    rintro rfl
    simp at hlong
  have hwhole : '\n' ∉ start ++ held := by simp [hstart, hline]
  have hsplit : splitLinesForCounting (unlines lines ++ start ++ held) =
      lines ++ [start ++ held] := by
    rw [append_assoc, splitLinesForCounting_append hlines,
      splitLinesForCounting_line (by simp [hnil]) hwhole]
  obtain ⟨hcontent, hpartial⟩ := truncateTail_longLine hmax
    (show splitLinesForCounting held = [] ++ [held] from splitLinesForCounting_line hnil hline)
    hlong
  have hwholeLong : maxBytes < byteLength (start ++ held) := by
    rw [byteLength_append]
    omega
  obtain ⟨hcontent', hpartial'⟩ := truncateTail_longLine hmax hsplit hwholeLong
  rw [tailWithin_append start hlong] at hcontent'
  exact ⟨hcontent.trans hcontent'.symm, hpartial.trans hpartial'.symm⟩

/-- **A tail that starts within a line and goes on behind it is as good as the output exactly when
what follows the line fits.** -/
theorem content_of_midLine (hmax : 1 ≤ maxLines) (hnil : before ≠ [])
    (hmid : before.getLast? ≠ some '\n') (hnewline : '\n' ∈ held)
    (hlong : maxBytes < byteLength held) :
    ((truncateTail (afterFirstNewline held) maxLines maxBytes).content =
        (truncateTail (before ++ held) maxLines maxBytes).content ∧
      (truncateTail (afterFirstNewline held) maxLines maxBytes).lastLinePartial =
        (truncateTail (before ++ held) maxLines maxBytes).lastLinePartial) ↔
      RestFits maxLines maxBytes (afterFirstNewline held) := by
  obtain ⟨lines, start, rfl, hlines, hstart⟩ := exists_lines before
  obtain ⟨first, hheld, hfirst⟩ := exists_firstLine hnewline
  generalize afterFirstNewline held = rest at hheld
  subst hheld
  have hstartNil : start ≠ [] := by
    rintro rfl
    cases lines using List.reverseRecOn with
    | nil => exact hnil rfl
    | append_singleton lines line => exact hmid (by simp [unlines])
  -- the line that the tail starts in
  have hall : ∀ line ∈ lines ++ [start ++ first], '\n' ∉ line := by
    intro line hline
    rcases mem_append.1 hline with h | h
    · exact hlines line h
    · rw [mem_singleton.1 h]
      simp [hstart, hfirst]
  have houtput : unlines lines ++ start ++ (first ++ '\n' :: rest) =
      unlines (lines ++ [start ++ first]) ++ rest := by simp [unlines]
  have hlength : byteLength first + 1 + byteLength rest = byteLength (first ++ '\n' :: rest) := by
    rw [byteLength_append, byteLength_newline]
    omega
  have hpos := byteLength_pos hstartNil
  have hstartLength := byteLength_append start first
  rw [houtput]
  by_cases hrest : rest = []
  · -- nothing is left, but the line is too long
    subst hrest
    have hsplit : splitLinesForCounting (unlines (lines ++ [start ++ first]) ++ []) =
        lines ++ [start ++ first] := by
      rw [splitLinesForCounting_append hall, splitLinesForCounting, splitLinesAt, if_pos rfl,
        append_nil]
    have hlineLong : maxBytes < byteLength (start ++ first) := by
      rw [byteLength_nil] at hlength
      omega
    have hpartial := (truncateTail_longLine hmax hsplit hlineLong).2
    have hempty : (truncateTail [] maxLines maxBytes).lastLinePartial = false :=
      (truncateTail_of_within ⟨Nat.zero_le _, Nat.zero_le _⟩).2
    constructor
    · rintro ⟨-, h⟩
      rw [hempty, hpartial] at h
      cases h
    · exact fun h => absurd rfl h.1
  · have hjoin := byteLength_le_joinLines rest
    have hnext : maxBytes <
        byteLength (joinLines ((start ++ first) :: splitLinesForCounting rest)) := by
      rw [joinLines_cons _ (mt splitLinesForCounting_eq_nil.1 hrest), byteLength_append,
        byteLength_newline]
      omega
    have hbeyond : maxBytes < byteLength (unlines (lines ++ [start ++ first]) ++ rest) := by
      rw [← houtput, byteLength_append]
      omega
    obtain ⟨hcontent, hpartial⟩ := truncateTail_end maxLines hbeyond hall hrest hnext
    rw [hcontent, hpartial]
    by_cases hwithin : (splitLinesForCounting rest).length ≤ maxLines ∧ byteLength rest ≤ maxBytes
    · obtain ⟨hrestContent, hrestPartial⟩ := truncateTail_of_within hwithin
      obtain ⟨hcollected, hwhole⟩ := collectTail_lines hwithin.1
        ((joinLines_le_byteLength rest).trans hwithin.2)
      rw [hrestContent, hrestPartial, hcollected, hwhole]
      have hends : rest = joinLines (splitLinesForCounting rest) ↔ rest.getLast? ≠ some '\n' := by
        have heq := eq_joinLines rest
        by_cases hlast : rest.getLast? = some '\n'
        · rw [if_pos hlast] at heq
          refine ⟨fun h => ?_, fun h => absurd hlast h⟩
          have := congrArg List.length (h.symm.trans heq)
          simp at this
        · rw [if_neg hlast, append_nil] at heq
          exact ⟨fun _ => hlast, fun _ => heq⟩
      rw [hends]
      constructor
      · exact fun h => ⟨hrest, .inl h.1⟩
      · rintro ⟨-, h⟩
        refine ⟨h.resolve_right ?_, rfl⟩
        omega
    · have hbeyondRest : maxLines < (splitLinesForCounting rest).length ∨
          maxBytes < byteLength rest := by omega
      obtain ⟨hrestContent, hrestPartial⟩ := truncateTail_of_beyond hbeyondRest
      exact ⟨fun _ => ⟨hrest, .inr hbeyondRest.symm⟩, fun _ => ⟨hrestContent, hrestPartial⟩⟩

/-- **The snapshot of a whole output is what `truncateTail` makes of it exactly when the last cut
of the rolling tail fits.** -/
theorem snapshotMatches_iff (hlines : 1 ≤ maxLines) (hbytes : 4 ≤ maxBytes)
    (chunks : List (List UInt8)) :
    ∃ o, accumulate maxLines maxBytes chunks = .ok o ∧
      (SnapshotMatches maxLines maxBytes chunks o ↔ LastCutFits maxLines maxBytes chunks) := by
  obtain ⟨o, hok, htracks, hfile⟩ := accumulate_spec maxLines hbytes chunks
  refine ⟨o, hok, ?_⟩
  unfold LastCutFits
  generalize window maxBytes (TextDecoder.new.pieces chunks) = w at htracks
  obtain ⟨before, held⟩ := w
  generalize houtput : decodeText chunks.flatten = output at htracks
  obtain rfl : output = before ++ held := htracks.split
  obtain ⟨hcountLines, hcountBytes, hcountTruncated⟩ :=
    truncateTail_counts (before ++ held) maxLines maxBytes
  -- the counts and the file are right in any case, so the content decides
  have hmatches : SnapshotMatches maxLines maxBytes chunks o ↔
      (truncateTail o.getSnapshotText maxLines maxBytes).content =
          (truncateTail (before ++ held) maxLines maxBytes).content ∧
        (truncateTail o.getSnapshotText maxLines maxBytes).lastLinePartial =
          (truncateTail (before ++ held) maxLines maxBytes).lastLinePartial := by
    have hsnapshot := snapshot_content o
    rw [htracks.maxLines_eq, htracks.maxBytes_eq] at hsnapshot
    constructor
    · intro h
      rw [← hsnapshot.1, ← hsnapshot.2, ← houtput]
      exact ⟨h.content, h.lastLinePartial⟩
    · rintro ⟨hcontent, hpartial⟩
      have htruncated : (o.snapshot false).2.truncated =
          (decide ((splitLinesForCounting (before ++ held)).length > maxLines) ||
            decide (byteLength (before ++ held) > maxBytes)) := by
        show (decide (o.totalLines > o.maxLines) || decide (o.totalDecodedBytes > o.maxBytes)) = _
        rw [htracks.totalLines_eq, htracks.decoded, htracks.maxLines_eq, htracks.maxBytes_eq]
      refine ⟨?_, ?_, ?_, ?_, ?_, fun h => hfile ?_⟩
      · rw [hsnapshot.1, houtput, hcontent]
      · rw [htruncated, houtput, hcountTruncated]
      · rw [houtput, hcountLines]
        exact htracks.totalLines_eq
      · rw [houtput, hcountBytes]
        exact htracks.decoded
      · rw [hsnapshot.2, houtput, hpartial]
      · rw [htruncated, Bool.or_eq_true, decide_eq_true_eq, decide_eq_true_eq] at h
        rw [htracks.totalLines_eq, htracks.decoded]
        omega
  rw [hmatches]
  unfold getSnapshotText
  rw [htracks.tailText, htracks.boundary]
  dsimp only
  by_cases hnil : before = []
  · -- nothing was forgotten
    subst hnil
    simp
  by_cases hlast : before.getLast? = some '\n'
  · rw [if_pos (decide_eq_true (.inr hlast))]
    exact ⟨fun _ => .inr (.inl hlast),
      fun _ => content_of_boundary hlast (htracks.long hnil) maxLines⟩
  · rw [if_neg (by simp [hnil, hlast])]
    by_cases hnewline : '\n' ∈ held
    · rw [if_pos hnewline, content_of_midLine hlines hnil hlast hnewline (htracks.long hnil)]
      simp [hnil, hlast, hnewline]
    · rw [if_neg hnewline]
      exact ⟨fun _ => .inr (.inr (.inl hnewline)),
        fun _ => content_of_line hlines hnewline (htracks.long hnil) before⟩

/-! ## One long line -/

/-- Thirty letters and a newline: too long to be kept for limits of a line and four bytes. -/
def longLine : List UInt8 := List.replicate 30 0x61 ++ [0x0A]

/-- An output that ends within a long line is cut as it should be. -/
theorem snapshotMatches_iff_open :
    ∃ o, accumulate 1 4 [longLine, longLine.dropLast] = .ok o ∧
      (SnapshotMatches 1 4 [longLine, longLine.dropLast] o ↔
        LastCutFits 1 4 [longLine, longLine.dropLast]) ∧
      LastCutFits 1 4 [longLine, longLine.dropLast] := by
  obtain ⟨o, hok, hiff⟩ :=
    snapshotMatches_iff le_rfl le_rfl [longLine, longLine.dropLast]
  exact ⟨o, hok, hiff, by decide⟩

/-- The snapshot of a single long line with a newline behind it is empty. -/
theorem long_line_is_lost :
    ¬∀ (maxLines maxBytes : Nat) (chunks : List (List UInt8)), 1 ≤ maxLines → 4 ≤ maxBytes →
      ∃ o, accumulate maxLines maxBytes chunks = .ok o ∧
        SnapshotMatches maxLines maxBytes chunks o := by
  intro h
  obtain ⟨o, hok, hmatches⟩ := h 1 4 [longLine] le_rfl le_rfl
  have hpartial : (accumulate 1 4 [longLine]).toOption.map
      (fun o => (o.snapshot false).2.lastLinePartial) = some false := by decide
  have hwhole : (truncateTail (decodeText [longLine].flatten) 1 4).lastLinePartial = true := by
    decide
  have := hmatches.lastLinePartial
  rw [hok] at hpartial
  rw [hwhole] at this
  exact absurd (this.symm.trans (Option.some.inj hpartial)) (by decide)

end BeauPi.Tools
