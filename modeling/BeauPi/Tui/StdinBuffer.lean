import BeauPi.Js.Text
import BeauPi.Machine.Runs
import BeauPi.Machine.Splits
import BeauPi.Machine.Substrings
import Mathlib.Data.List.Chain
import BeauPi.Tui.KillYank

/-!
# Keyboard input

* `StdinBuffer` — the buffer that puts chunks of input together to key sequences and pastes.
* `Emission` — what it reports, and the characters that it suppresses.
* `Clean` — no sequence is cut off by a paste.
* `run_keepsInput` — without a sequence that is cut off, no input is lost or reordered.
-/

namespace BeauPi.Tui

open Js Machine List
open Option (some.inj)

/-! ## Sequences -/

namespace Key

def escape : UInt16 := 27
def bell : UInt16 := 7
def colon : UInt16 := 58
def semicolon : UInt16 := 59
def less : UInt16 := 60
def upperM : UInt16 := 77
def bracket : UInt16 := 91
def backslash : UInt16 := 92
def lowerM : UInt16 := 109
def lowerU : UInt16 := 117

end Key

open Key

/-- `BRACKETED_PASTE_START` -/
def pasteStart : Units := [escape, bracket, 50, 48, 48, 126]

/-- `BRACKETED_PASTE_END` -/
def pasteEnd : Units := [escape, bracket, 50, 48, 49, 126]

/-- The answers of `isCompleteSequence`. -/
inductive SequenceStatus
  | complete
  | incomplete
  | notEscape
  deriving DecidableEq, Repr

/-- `complete` or `incomplete` -/
def SequenceStatus.of (complete : Bool) : SequenceStatus :=
  if complete then .complete else .incomplete

/-- `/^\d+$/` -/
def isNumber (text : Units) : Bool := text ≠ [] && text.all fun unit => 48 ≤ unit && unit ≤ 57

/-- `/^<\d+;\d+;\d+[Mm]$/`, which the check by parts repeats. -/
def isMouseReport (payload : Units) : Bool :=
  payload.head? = some less && (payload.getLast? = some upperM || payload.getLast? = some lowerM) &&
    (((payload.drop 1).dropLast.splitOn semicolon).length = 3 &&
      ((payload.drop 1).dropLast.splitOn semicolon).all isNumber)

/-- `isCompleteCsiSequence`, of what follows `ESC [`. -/
def isCompleteCsiSequence (payload : Units) : SequenceStatus :=
  match payload.getLast? with
  | none => .incomplete
  | some lastChar =>
    if 0x40 ≤ lastChar ∧ lastChar ≤ 0x7e then
      if payload.head? = some less then .of (isMouseReport payload) else .complete
    else .incomplete

/-- `ESC \` -/
def stringTerminator : Units := [escape, backslash]

/-- `isCompleteSequence`; a device control string and an application command end alike. -/
def isCompleteSequence (data : Units) : SequenceStatus :=
  if data.head? ≠ some escape then .notEscape
  else
    match data.drop 1 with
    | [] => .incomplete
    | kind :: rest =>
      if kind = bracket then
        if rest.head? = some upperM then .of (6 ≤ data.length) else isCompleteCsiSequence rest
      else if kind = 93 then .of (stringTerminator.isSuffixOf data || data.getLast? = some bell)
      else if kind = 80 ∨ kind = 95 then .of (stringTerminator.isSuffixOf data)
      else if kind = 79 then .of (rest ≠ [])
      else .complete

/-- What begins a sequence behind an escape. -/
def introducers : List UInt16 := [bracket, 93, 79, 80, 95]

/-- The sequence at the front of a text that is not empty, if it is complete. -/
def nextSequence (remaining : Units) : Option Units :=
  if remaining.head? = some escape then
    ((List.range' 1 remaining.length).find? fun seqEnd =>
      isCompleteSequence (remaining.take seqEnd) ≠ .incomplete).map fun seqEnd =>
        if remaining.take seqEnd = [escape, escape] ∧
            (remaining.drop seqEnd).head?.any (· ∈ introducers) then [escape]
        else remaining.take seqEnd
  else some (remaining.take 1)

theorem nextSequence_spec {remaining sequence : Units} (hne : remaining ≠ [])
    (h : nextSequence remaining = some sequence) :
    sequence ≠ [] ∧ sequence ++ remaining.drop sequence.length = remaining := by
  have htake : ∀ n, 0 < n → remaining.take n ≠ [] ∧
      remaining.take n ++ remaining.drop (remaining.take n).length = remaining := by
    intro n hn
    refine ⟨fun hnil => ?_, (prefix_append_drop (List.take_prefix n remaining)).symm⟩
    rcases List.take_eq_nil_iff.1 hnil with hzero | hnil
    · omega
    · exact hne hnil
  unfold nextSequence at h
  split_ifs at h with hescape
  · obtain ⟨seqEnd, hfind, rfl⟩ := Option.map_eq_some_iff.1 h
    have hpos := (List.mem_range'_1.1 (mem_of_find?_eq_some hfind)).1
    split_ifs with hdouble
    · obtain ⟨rest, rfl⟩ : ∃ rest, remaining = escape :: rest := by
        cases remaining with
        | nil => cases hescape
        | cons c rest => exact ⟨rest, by rw [some.inj hescape]⟩
      exact ⟨by simp, rfl⟩
    · exact htake seqEnd hpos
  · exact some.inj h ▸ htake 1 Nat.one_pos

/-- `extractCompleteSequences`: the sequences and the remainder. -/
def extractCompleteSequences (buffer : Units) : List Units × Units :=
  if _ : buffer = [] then ([], [])
  else
    match _ : nextSequence buffer with
    | none => ([], buffer)
    | some sequence =>
      let rest := extractCompleteSequences (buffer.drop sequence.length)
      (sequence :: rest.1, rest.2)
termination_by buffer.length
decreasing_by
  have hpos := List.length_pos_iff.2 (nextSequence_spec ‹buffer ≠ []› ‹_›).1
  have := List.length_pos_iff.2 ‹buffer ≠ []›
  rw [length_drop]
  omega

/-! ## The buffer -/

/-- What the buffer reports. For a character that it suppresses, it reports nothing. -/
inductive Emission
  | data (sequence : Units)
  | paste (content : Units)
  | duplicate (unit : UInt16)
  deriving DecidableEq, Repr

/-- The input that stands behind an emission. -/
def Emission.text : Emission → Units
  | .data sequence => sequence
  | .paste content => pasteStart ++ content ++ pasteEnd
  | .duplicate unit => [unit]

/-- The digits of `/^\x1b\[(\d+)(?::\d*)?(?::\d+)?u$/`. -/
def kittyDigits (sequence : Units) : Option Units :=
  if [escape, bracket].isPrefixOf sequence && sequence.getLast? = some lowerU then
    match (sequence.drop 2).dropLast.splitOn colon with
    | [digits] => if isNumber digits then some digits else none
    | [digits, shifted] =>
      if isNumber digits && (shifted = [] || isNumber shifted) then some digits else none
    | [digits, shifted, base] =>
      if isNumber digits && (shifted = [] || isNumber shifted) && isNumber base then some digits
      else none
    | _ => none
  else none

/-- `parseUnmodifiedKittyPrintableCodepoint` -/
def parseUnmodifiedKittyPrintableCodepoint (sequence : Units) : Option Nat :=
  ((kittyDigits sequence).map fun digits =>
    digits.foldl (fun n unit => 10 * n + (unit.toNat - 48)) 0).filter (32 ≤ ·)

structure StdinBuffer where
  buffer : Units := []
  timeout : Bool := false
  pasteMode : Bool := false
  pasteBuffer : Units := []
  pendingKittyPrintableCodepoint : Option Nat := none
  deriving DecidableEq, Repr

namespace StdinBuffer

def emitDataSequence (s : StdinBuffer) (sequence : Units) : StdinBuffer × List Emission :=
  match sequence with
  | [unit] =>
    if s.pendingKittyPrintableCodepoint = some unit.toNat then
      ({ s with pendingKittyPrintableCodepoint := none }, [.duplicate unit])
    else
      ({ s with
        pendingKittyPrintableCodepoint := parseUnmodifiedKittyPrintableCodepoint [unit] },
        [.data [unit]])
  | _ =>
    ({ s with
      pendingKittyPrintableCodepoint := parseUnmodifiedKittyPrintableCodepoint sequence },
      [.data sequence])

/-- `emitDataSequence` for each of some sequences. -/
def emitAll (s : StdinBuffer) : List Units → StdinBuffer × List Emission
  | [] => (s, [])
  | sequence :: sequences =>
    let first := s.emitDataSequence sequence
    let rest := first.1.emitAll sequences
    (rest.1, first.2 ++ rest.2)

/-- The search for the end of a paste; the last component is what is read next. -/
def endPaste (s : StdinBuffer) : StdinBuffer × List Emission × Units :=
  match indexOf? pasteEnd s.pasteBuffer with
  | none => (s, [], [])
  | some endIndex =>
    ({ s with pasteMode := false, pasteBuffer := [], pendingKittyPrintableCodepoint := none },
      [.paste (s.pasteBuffer.take endIndex)],
      s.pasteBuffer.drop (endIndex + pasteEnd.length))

/-- `process` up to the call for what stands behind a paste. -/
def read (s : StdinBuffer) (data : Units) : StdinBuffer × List Emission × Units :=
  let s := { s with timeout := false }
  if data = [] ∧ s.buffer = [] then
    let emitted := s.emitDataSequence []
    (emitted.1, emitted.2, [])
  else
    let buffer := s.buffer ++ data
    if s.pasteMode then
      { s with pasteBuffer := s.pasteBuffer ++ buffer, buffer := [] }.endPaste
    else
      match indexOf? pasteStart buffer with
      | some startIndex =>
        let emitted := s.emitAll (extractCompleteSequences (buffer.take startIndex)).1
        let ended :=
          { emitted.1 with
            pendingKittyPrintableCodepoint := none
            buffer := []
            pasteMode := true
            pasteBuffer := buffer.drop (startIndex + pasteStart.length) }.endPaste
        (ended.1, emitted.2 ++ ended.2.1, ended.2.2)
      | none =>
        let result := extractCompleteSequences buffer
        let emitted := { s with buffer := result.2 }.emitAll result.1
        ({ emitted.1 with timeout := result.2 ≠ [] }, emitted.2, [])

/-- The text that is still buffered, with the marker of a paste that has begun. -/
def buffered (s : StdinBuffer) : Units :=
  (if s.pasteMode then pasteStart ++ s.pasteBuffer else []) ++ s.buffer

theorem endPaste_remaining (s : StdinBuffer) (h : s.endPaste.2.2 ≠ []) :
    s.endPaste.1.pasteBuffer = [] ∧ s.endPaste.2.2.length < s.pasteBuffer.length := by
  unfold endPaste at h ⊢
  split at h
  · exact absurd rfl h
  · refine ⟨rfl, ?_⟩
    have hpos := List.length_pos_iff.2 h
    have hlength : pasteEnd.length = 6 := rfl
    simp only [length_drop] at hpos ⊢
    omega

theorem endPaste_buffer (s : StdinBuffer) : s.endPaste.1.buffer = s.buffer := by
  unfold endPaste
  split <;> rfl

/-- What is read next is shorter than what was there. -/
theorem read_remaining (s : StdinBuffer) (data : Units) (h : (s.read data).2.2 ≠ []) :
    (s.read data).1.buffer.length + (s.read data).1.pasteBuffer.length +
        (s.read data).2.2.length <
      s.buffer.length + s.pasteBuffer.length + data.length := by
  unfold read at h ⊢
  dsimp only at h ⊢
  split_ifs at h ⊢
  · exact absurd rfl h
  · obtain ⟨hpaste, hlt⟩ := endPaste_remaining _ h
    rw [endPaste_buffer, hpaste]
    simp only [length_append, length_nil] at hlt ⊢
    omega
  · split at h
    · obtain ⟨hpaste, hlt⟩ := endPaste_remaining _ h
      rw [endPaste_buffer, hpaste]
      simp only [length_append, length_drop, length_nil] at hlt ⊢
      omega
    · exact absurd rfl h

def process (s : StdinBuffer) (data : Units) : StdinBuffer × List Emission :=
  let result := s.read data
  if _ : result.2.2 = [] then (result.1, result.2.1)
  else
    let rest := result.1.process result.2.2
    (rest.1, result.2.1 ++ rest.2)
termination_by s.buffer.length + s.pasteBuffer.length + data.length
decreasing_by exact read_remaining s data ‹_›

/-- `flush` -/
def flush (s : StdinBuffer) : StdinBuffer × List Units :=
  let s := { s with timeout := false }
  if s.buffer = [] then (s, [])
  else ({ s with buffer := [], pendingKittyPrintableCodepoint := none }, [s.buffer])

end StdinBuffer

/-! ## One reading -/

variable {s : StdinBuffer} {buffer sequence data : Units} {p : Option Nat}

theorem indexOf?_split {pattern text : Units} {i : Nat} (h : indexOf? pattern text = some i) :
    text.take i ++ pattern ++ text.drop (i + pattern.length) = text := by
  have hprefix := prefix_append_drop (indexOf?_eq_some h).1
  rw [append_assoc, ← drop_drop, ← hprefix, take_append_drop]

/-- The sequences and the remainder are the text. -/
theorem extractCompleteSequences_text (buffer : Units) :
    (extractCompleteSequences buffer).1.flatten ++ (extractCompleteSequences buffer).2 =
      buffer := by
  fun_induction extractCompleteSequences buffer with
  | case1 => rfl
  | case2 buffer _ _ => rfl
  | case3 buffer hempty sequence hnext rest ih =>
    show sequence ++ rest.1.flatten ++ rest.2 = buffer
    rw [append_assoc, ih]
    exact (nextSequence_spec hempty hnext).2

/-- The text is a row of complete sequences. -/
inductive Whole : Units → Prop
  | nil : Whole []
  | next {text sequence : Units} (h : nextSequence text = some sequence)
    (rest : Whole (text.drop sequence.length)) : Whole text

theorem Whole.remainder (h : Whole buffer) : (extractCompleteSequences buffer).2 = [] := by
  induction h with
  | nil => simp [extractCompleteSequences]
  | @next text sequence h _ ih =>
    rw [extractCompleteSequences]
    split
    · rfl
    · split
      · next hnone => exact absurd (h.symm.trans hnone) (by simp)
      · next other hother =>
        obtain rfl := some.inj (h.symm.trans hother)
        exact ih

/-- The Kitty report behind some emissions; `p` is the one before them. -/
def lastReport (p : Option Nat) : List Emission → Option Nat
  | [] => p
  | .data sequence :: log => lastReport (parseUnmodifiedKittyPrintableCodepoint sequence) log
  | .paste _ :: log => lastReport none log
  | .duplicate _ :: log => lastReport none log

/-- What is suppressed is the character of the Kitty report that was emitted immediately before. -/
def Justified (p : Option Nat) : List Emission → Prop
  | [] => True
  | .data sequence :: log => Justified (parseUnmodifiedKittyPrintableCodepoint sequence) log
  | .paste _ :: log => Justified none log
  | .duplicate unit :: log => p = some unit.toNat ∧ Justified none log

theorem lastReport_append (p : Option Nat) (log more : List Emission) :
    lastReport p (log ++ more) = lastReport (lastReport p log) more := by
  fun_induction lastReport p log with
  | case1 => rfl
  | case2 p sequence log ih => exact ih
  | case3 p content log ih => exact ih
  | case4 p unit log ih => exact ih

theorem justified_append (p : Option Nat) (log more : List Emission) :
    Justified p (log ++ more) ↔ Justified p log ∧ Justified (lastReport p log) more := by
  fun_induction lastReport p log with
  | case1 => simp [Justified]
  | case2 p sequence log ih => exact ih
  | case3 p content log ih => exact ih
  | case4 p unit log ih => simp only [cons_append, Justified, ih, and_assoc]

/-- Some emissions: their text, why they suppress what they suppress, and what is pending behind
them. -/
structure Reports (p : Option Nat) (log : List Emission) (text : Units)
    (pending : Option Nat) : Prop where
  text : log.flatMap Emission.text = text
  justified : Justified p log
  pending : pending = none ∨ pending = lastReport p log

theorem Reports.append {log more : List Emission} {text text' : Units}
    {pending pending' : Option Nat} (h : Reports p log text pending)
    (hmore : ∀ p, pending = none ∨ pending = p → Reports p more text' pending') :
    Reports p (log ++ more) (text ++ text') pending' := by
  obtain ⟨htext, hjustified, hpending⟩ := hmore (lastReport p log) h.pending
  refine ⟨?_, (justified_append p log more).2 ⟨h.justified, hjustified⟩, ?_⟩
  · rw [flatMap_append, h.text, htext]
  · rwa [lastReport_append]

/-- Emitting a sequence changes nothing but what is pending. -/
theorem emitDataSequence_spec (s : StdinBuffer) (sequence : Units) :
    ∃ pending, (s.emitDataSequence sequence).1 =
        { s with pendingKittyPrintableCodepoint := pending } ∧
      ∀ p, s.pendingKittyPrintableCodepoint = none ∨ s.pendingKittyPrintableCodepoint = p →
        Reports p (s.emitDataSequence sequence).2 sequence pending := by
  unfold StdinBuffer.emitDataSequence
  split
  · next unit =>
    split_ifs with hduplicate
    · refine ⟨_, rfl, fun p hp => ⟨rfl, ⟨?_, trivial⟩, .inl rfl⟩⟩
      rw [hduplicate] at hp
      exact (hp.resolve_left (by simp)).symm
    · exact ⟨_, rfl, fun p _ => ⟨rfl, trivial, .inr rfl⟩⟩
  · exact ⟨_, rfl, fun p _ => ⟨append_nil _, trivial, .inr rfl⟩⟩

theorem emitAll_spec (s : StdinBuffer) (sequences : List Units) :
    ∃ pending, (s.emitAll sequences).1 = { s with pendingKittyPrintableCodepoint := pending } ∧
      ∀ p, s.pendingKittyPrintableCodepoint = none ∨ s.pendingKittyPrintableCodepoint = p →
        Reports p (s.emitAll sequences).2 sequences.flatten pending := by
  induction sequences generalizing s with
  | nil => exact ⟨_, rfl, fun p hp => ⟨rfl, trivial, hp⟩⟩
  | cons sequence sequences ih =>
    obtain ⟨first, hfirst, hreports⟩ := emitDataSequence_spec s sequence
    obtain ⟨pending, hrest, hothers⟩ := ih (s.emitDataSequence sequence).1
    refine ⟨pending, ?_, fun p hp => (hreports p hp).append fun p hp => hothers p ?_⟩
    · rw [StdinBuffer.emitAll, hrest, hfirst]
    · rwa [hfirst]

/-! ## Whole chunks -/

/-- In a text outside of a paste, only complete sequences stand in front of each paste. -/
inductive Clean : Units → Prop
  | plain {text : Units} (h : indexOf? pasteStart text = none) : Clean text
  | paste {text : Units} {i : Nat} (h : indexOf? pasteStart text = some i)
    (whole : Whole (text.take i))
    (rest : ∀ j, indexOf? pasteEnd (text.drop (i + pasteStart.length)) = some j →
      Clean ((text.drop (i + pasteStart.length)).drop (j + pasteEnd.length))) : Clean text

/-- The text behind the end of a paste is clean. -/
def CleanPaste (pasted : Units) : Prop :=
  ∀ j, indexOf? pasteEnd pasted = some j → Clean (pasted.drop (j + pasteEnd.length))

/-- A chunk cuts no sequence off. -/
def StdinBuffer.CleanChunk (s : StdinBuffer) (data : Units) : Prop :=
  if s.pasteMode then CleanPaste (s.pasteBuffer ++ (s.buffer ++ data)) else Clean (s.buffer ++ data)

/-- What a reading does with the buffered text and a chunk. -/
structure Takes (p : Option Nat) (input : Units) (r : StdinBuffer × List Emission × Units) :
    Prop where
  reports : Reports p r.2.1 (r.2.1.flatMap Emission.text) r.1.pendingKittyPrintableCodepoint
  text : r.2.1.flatMap Emission.text ++ r.1.buffered ++ r.2.2 = input
  quiet : r.1.pasteMode = true → r.1.timeout = false
  next : r.2.2 ≠ [] → r.1.CleanChunk r.2.2

theorem endPaste_takes (hmode : s.pasteMode = true) (hbuffer : s.buffer = [])
    (htimeout : s.timeout = false) (hclean : CleanPaste s.pasteBuffer)
    (hp : s.pendingKittyPrintableCodepoint = none ∨ s.pendingKittyPrintableCodepoint = p) :
    Takes p s.buffered s.endPaste := by
  unfold StdinBuffer.endPaste
  split
  · exact ⟨⟨rfl, trivial, hp⟩, append_nil _, fun _ => htimeout, fun h => absurd rfl h⟩
  · next j hend =>
    refine ⟨⟨rfl, trivial, .inl rfl⟩, ?_, nofun, fun _ => ?_⟩
    · have hsplit := indexOf?_split hend
      simp only [StdinBuffer.buffered, hmode, hbuffer, if_true, flatMap_singleton,
        Emission.text, append_nil, Bool.false_eq_true, if_false]
      rw [append_assoc pasteStart, append_assoc pasteStart, hsplit]
    · rw [StdinBuffer.CleanChunk, if_neg Bool.false_ne_true, hbuffer]
      exact hclean j hend

/-- **One reading loses nothing** of a chunk that cuts no sequence off. -/
theorem read_takes (hquiet : s.pasteMode = true → s.timeout = false)
    (hclean : s.CleanChunk data)
    (hp : s.pendingKittyPrintableCodepoint = none ∨ s.pendingKittyPrintableCodepoint = p) :
    Takes p (s.buffered ++ data) (s.read data) := by
  obtain ⟨buffer, timeout, pasteMode, pasteBuffer, pending⟩ := s
  unfold StdinBuffer.CleanChunk at hclean
  unfold StdinBuffer.read
  dsimp only at hp hclean ⊢
  split_ifs at hclean ⊢ with hempty hmode hmode
  · obtain ⟨rfl, rfl⟩ := hempty
    obtain ⟨after, heq, hreports⟩ :=
      emitDataSequence_spec ⟨[], false, pasteMode, pasteBuffer, pending⟩ []
    rw [heq]
    have htext := (hreports p hp).text
    exact ⟨htext ▸ hreports p hp, by rw [htext]; rfl, fun _ => rfl, fun h => absurd rfl h⟩
  · obtain ⟨rfl, rfl⟩ := hempty
    obtain ⟨after, heq, hreports⟩ :=
      emitDataSequence_spec ⟨[], false, pasteMode, pasteBuffer, pending⟩ []
    rw [heq]
    have htext := (hreports p hp).text
    exact ⟨htext ▸ hreports p hp, by rw [htext]; rfl, fun _ => rfl, fun h => absurd rfl h⟩
  · have htakes := endPaste_takes (p := p) (s := ⟨[], false, pasteMode, pasteBuffer ++
      (buffer ++ data), pending⟩) hmode rfl rfl hclean hp
    have hinput : StdinBuffer.buffered ⟨[], false, pasteMode, pasteBuffer ++ (buffer ++ data),
        pending⟩ = StdinBuffer.buffered ⟨buffer, timeout, pasteMode, pasteBuffer, pending⟩ ++
          data := by
      simp [StdinBuffer.buffered, hmode]
    rwa [hinput] at htakes
  · have hbuffered : StdinBuffer.buffered ⟨buffer, timeout, pasteMode, pasteBuffer, pending⟩ =
        buffer := by simp [StdinBuffer.buffered, hmode]
    rw [hbuffered]
    split
    · next i hstart =>
      obtain ⟨hwhole, hrest⟩ : Whole ((buffer ++ data).take i) ∧
          CleanPaste ((buffer ++ data).drop (i + pasteStart.length)) := by
        cases hclean with
        | plain hnone => exact absurd (hnone.symm.trans hstart) (by simp)
        | paste hsome whole rest =>
          obtain rfl := some.inj (hsome.symm.trans hstart)
          exact ⟨whole, rest⟩
      obtain ⟨after, heq, hreports⟩ :=
        emitAll_spec ⟨buffer, false, pasteMode, pasteBuffer, pending⟩
          (extractCompleteSequences ((buffer ++ data).take i)).1
      have hbefore := extractCompleteSequences_text ((buffer ++ data).take i)
      rw [hwhole.remainder, append_nil] at hbefore
      rw [heq]
      obtain ⟨htext, hjustified, -⟩ := hreports p hp
      have hended : ∀ p, Takes p (pasteStart ++ (buffer ++ data).drop (i + pasteStart.length))
          (StdinBuffer.endPaste ⟨[], false, true, (buffer ++ data).drop (i + pasteStart.length),
            none⟩) := by
        intro p
        have htakes := @endPaste_takes ⟨[], false, true,
          (buffer ++ data).drop (i + pasteStart.length), none⟩ p rfl rfl rfl hrest (.inl rfl)
        rwa [StdinBuffer.buffered, if_pos rfl, append_nil] at htakes
      have hall := (Reports.mk htext hjustified (.inl rfl) :
        Reports p _ _ none).append fun p _ => (hended p).reports
      refine ⟨hall.text ▸ hall, ?_, (hended p).quiet, (hended p).next⟩
      have hinput := indexOf?_split hstart
      rw [hall.text, hbefore, append_assoc, append_assoc, ← append_assoc _ _
        (StdinBuffer.endPaste _).2.2, (hended p).text, ← append_assoc, hinput]
    · next hnone =>
      obtain ⟨after, heq, hreports⟩ :=
        emitAll_spec ⟨(extractCompleteSequences (buffer ++ data)).2, false, pasteMode,
          pasteBuffer, pending⟩ (extractCompleteSequences (buffer ++ data)).1
      rw [heq]
      have htext := (hreports p hp).text
      refine ⟨htext ▸ hreports p hp, ?_, fun h => absurd h hmode, fun h => absurd rfl h⟩
      rw [htext, append_nil, StdinBuffer.buffered, if_neg hmode]
      exact extractCompleteSequences_text _

/-- **All readings of a chunk together lose nothing** if it cuts no sequence off. -/
theorem process_takes (s : StdinBuffer) (data : Units)
    (hquiet : s.pasteMode = true → s.timeout = false) (hclean : s.CleanChunk data) (p : Option Nat)
    (hp : s.pendingKittyPrintableCodepoint = none ∨ s.pendingKittyPrintableCodepoint = p) :
    Takes p (s.buffered ++ data) ((s.process data).1, (s.process data).2, []) := by
  induction s, data using StdinBuffer.process.induct generalizing p with
  | case1 s data result hnext =>
    have hprocess : s.process data = (result.1, result.2.1) := by
      rw [StdinBuffer.process]
      exact if_pos hnext
    have htakes := read_takes hquiet hclean hp
    have htext := htakes.text
    rw [hnext] at htext
    rw [hprocess]
    exact ⟨htakes.reports, htext, htakes.quiet, fun h => absurd rfl h⟩
  | case2 s data result hnext ih =>
    have hprocess : s.process data = ((result.1.process result.2.2).1,
        result.2.1 ++ (result.1.process result.2.2).2) := by
      rw [StdinBuffer.process]
      exact if_neg hnext
    have htakes := read_takes hquiet hclean hp
    have hrest := ih htakes.quiet (htakes.next hnext)
    have hall := htakes.reports.append fun p hp => (hrest p hp).reports
    have hlast := hrest _ htakes.reports.pending
    rw [hprocess]
    refine ⟨hall.text ▸ hall, ?_, hlast.quiet, fun h => absurd rfl h⟩
    have htext := hlast.text
    rw [append_nil] at htext ⊢
    rw [hall.text, append_assoc, htext, ← append_assoc, htakes.text]

/-! ## Runs -/

/-- A chunk arrives, or the timeout fires. -/
inductive InputEvent
  | chunk (data : Units)
  | timeout
  deriving DecidableEq, Repr

/-- The chunk. -/
def InputEvent.text : InputEvent → Units
  | .chunk data => data
  | .timeout => []

/-- The buffer and what it has reported. -/
structure InputSession where
  buffer : StdinBuffer := {}
  log : List Emission := []
  deriving DecidableEq, Repr

namespace InputSession

def step (s : InputSession) : InputEvent → Option InputSession
  | .chunk data =>
    let result := s.buffer.process data
    some ⟨result.1, s.log ++ result.2⟩
  | .timeout =>
    if s.buffer.timeout then
      let flushed := s.buffer.flush
      let result := flushed.1.emitAll flushed.2
      some ⟨result.1, s.log ++ result.2⟩
    else none

/-- The chunk cuts no sequence off. -/
def Uncut (s : InputSession) : InputEvent → Prop
  | .chunk data => s.buffer.CleanChunk data
  | .timeout => True

/-- Nothing of the input is lost so far. -/
structure Keeps (input : Units) (s : InputSession) : Prop where
  reports : Reports none s.log (s.log.flatMap Emission.text)
    s.buffer.pendingKittyPrintableCodepoint
  text : s.log.flatMap Emission.text ++ s.buffer.buffered = input
  quiet : s.buffer.pasteMode = true → s.buffer.timeout = false

theorem Keeps.step {s t : InputSession} {e : InputEvent} {input : Units} (h : Keeps input s)
    (huncut : s.Uncut e) (hstep : s.step e = some t) : Keeps (input ++ e.text) t := by
  cases e with
  | chunk data =>
    obtain rfl := some.inj hstep
    have htakes := process_takes s.buffer data h.quiet huncut
    have hlast := htakes _ h.reports.pending
    have hall := h.reports.append fun p hp => (htakes p hp).reports
    refine ⟨hall.text ▸ hall, ?_, hlast.quiet⟩
    have htext := hlast.text
    rw [append_nil] at htext
    rw [hall.text, append_assoc, htext, ← append_assoc, h.text]
    rfl
  | timeout =>
    rw [InputSession.step] at hstep
    split_ifs at hstep with htimeout
    obtain rfl := some.inj hstep
    have hmode : s.buffer.pasteMode = false :=
      Bool.eq_false_iff.2 fun hmode => absurd (h.quiet hmode) (by simp [htimeout])
    have hpending : s.buffer.flush.1.pendingKittyPrintableCodepoint = none ∨
        s.buffer.flush.1.pendingKittyPrintableCodepoint = lastReport none s.log := by
      unfold StdinBuffer.flush
      dsimp only
      split_ifs
      · exact h.reports.pending
      · exact .inl rfl
    have hflushed : s.buffer.flush.2.flatten = s.buffer.buffer ∧ s.buffer.flush.1.buffer = [] ∧
        s.buffer.flush.1.pasteMode = false := by
      unfold StdinBuffer.flush
      dsimp only
      split_ifs with hempty
      · exact ⟨hempty.symm, hempty, hmode⟩
      · exact ⟨append_nil _, rfl, hmode⟩
    obtain ⟨pending, heq, hreports⟩ := emitAll_spec s.buffer.flush.1 s.buffer.flush.2
    obtain ⟨htext, hjustified, hlast⟩ := hreports _ hpending
    obtain ⟨hbuffer, hempty, hmode'⟩ := hflushed
    have hbefore := h.text
    rw [StdinBuffer.buffered, hmode, if_neg Bool.false_ne_true, nil_append] at hbefore
    refine ⟨⟨rfl, (justified_append _ _ _).2 ⟨h.reports.justified, hjustified⟩, ?_⟩, ?_, ?_⟩
    · rw [heq, lastReport_append]
      exact hlast
    · rw [flatMap_append, htext, hbuffer, heq, hbefore, StdinBuffer.buffered]
      simp [hempty, hmode', InputEvent.text]
    · rw [heq]
      exact fun hpaste => absurd (hmode'.symm.trans hpaste) Bool.false_ne_true

/-- **In a run whose chunks cut no sequence off, no input is lost or reordered**, and what is
suppressed is the character of the Kitty report that was emitted immediately before. -/
theorem run_keepsInput (es : List InputEvent) (s : InputSession)
    (hrun : runFrom InputSession.step {} es = some s)
    (huncut : Along InputSession.step (fun s e _ => s.Uncut e) {} es) :
    s.log.flatMap Emission.text ++ s.buffer.buffered = es.flatMap InputEvent.text ∧
      Justified none s.log := by
  have hkeeps : ∀ (es : List InputEvent) (s t : InputSession) (input : Units), Keeps input s →
      runFrom InputSession.step s es = some t →
      Along InputSession.step (fun s e _ => s.Uncut e) s es →
        Keeps (input ++ es.flatMap InputEvent.text) t := by
    intro es
    induction es with
    | nil =>
      intro s t input h hrun _
      cases hrun
      rwa [flatMap_nil, append_nil]
    | cons e es ih =>
      intro s t input h hrun huncut
      obtain ⟨u, hstep, hrun⟩ := Option.bind_eq_some_iff.1 hrun
      have hnext := ih u t _ (h.step (huncut u hstep).1 hstep) hrun (huncut u hstep).2
      rwa [append_assoc, ← flatMap_cons] at hnext
  have h := hkeeps es {} s [] ⟨⟨rfl, trivial, .inl rfl⟩, rfl, nofun⟩ hrun huncut
  exact ⟨h.text, h.reports.justified⟩

/-- A Kitty report in two chunks, its character, a letter and a paste in two chunks, and an escape
before the timeout. -/
def cutInputs : List InputEvent :=
  [.chunk [escape, bracket], .chunk [57, 55, 117], .chunk [97], .chunk (98 :: pasteStart ++ [99]),
    .chunk (100 :: pasteEnd), .chunk [escape], .timeout]

theorem uncut_chunk {s : InputSession} {buffer : StdinBuffer} {log : List Emission}
    {es : List InputEvent} (hprocess : s.buffer.process data = (buffer, log))
    (hclean : s.buffer.CleanChunk data)
    (hrest : Along InputSession.step (fun s e _ => s.Uncut e) ⟨buffer, s.log ++ log⟩ es) :
    Along InputSession.step (fun s e _ => s.Uncut e) s (.chunk data :: es) := by
  intro t hstep
  rw [InputSession.step, hprocess] at hstep
  obtain rfl := some.inj hstep
  exact ⟨hclean, hrest⟩

/-- The sequences that the chunks cut are put together again. -/
theorem run_keepsInput_paste : ∃ s : InputSession,
    runFrom InputSession.step {} cutInputs = some s ∧
    s.log = [.data [escape, bracket, 57, 55, 117], .duplicate 97, .data [98], .paste [99, 100],
      .data [escape]] ∧
    s.log.flatMap Emission.text ++ s.buffer.buffered = cutInputs.flatMap InputEvent.text ∧
    Justified none s.log := by
  have hrun : runFrom InputSession.step {} cutInputs = some ⟨{}, [.data [escape, bracket, 57, 55,
      117], .duplicate 97, .data [98], .paste [99, 100], .data [escape]]⟩ := by decide +kernel
  refine ⟨_, hrun, rfl, run_keepsInput _ _ hrun ?_⟩
  refine @uncut_chunk _ _ ⟨[escape, bracket], true, false, [], none⟩ [] _ (by decide +kernel)
    (.plain (by decide)) ?_
  refine @uncut_chunk _ _ ⟨[], false, false, [], some 97⟩ [.data [escape, bracket, 57, 55, 117]] _
    (by decide +kernel) (.plain (by decide)) ?_
  refine @uncut_chunk _ _ {} [.duplicate 97] _ (by decide +kernel) (.plain (by decide)) ?_
  refine @uncut_chunk _ _ ⟨[], false, true, [99], none⟩ [.data [98]] _ (by decide +kernel)
    (.paste (i := 1) (by decide) (@Whole.next _ [98] (by decide) .nil) fun j hj => ?_) ?_
  · exact absurd ((by decide : _ = none).symm.trans hj) (by simp)
  refine @uncut_chunk _ _ {} [.paste [99, 100]] _ (by decide +kernel) (fun j hj => ?_) ?_
  · obtain rfl : 2 = j := some.inj ((by decide : _ = some 2).symm.trans hj)
    exact .plain (by decide)
  refine @uncut_chunk _ _ ⟨[escape], true, false, [], none⟩ [] _ (by decide +kernel)
    (.plain (by decide)) ?_
  exact fun t _ => ⟨trivial, trivial⟩

/-- **An escape in front of a paste is lost.** -/
theorem escape_lost : ¬∀ (es : List InputEvent) (s : InputSession),
    runFrom InputSession.step {} es = some s →
      s.log.flatMap Emission.text ++ s.buffer.buffered = es.flatMap InputEvent.text ∧
        Justified none s.log := by
  intro h
  have hlost := (h [.chunk (escape :: pasteStart ++ [98] ++ pasteEnd)] _ rfl).1
  have hextract : extractCompleteSequences [escape] = ([], [escape]) := by
    unfold extractCompleteSequences
    rfl
  have hread : StdinBuffer.read {} (escape :: pasteStart ++ [98] ++ pasteEnd) =
      ({}, [.paste [98]], []) := by
    have hstart : indexOf? pasteStart ([] ++ (escape :: pasteStart ++ [98] ++ pasteEnd)) =
        some 1 := by decide
    rw [StdinBuffer.read, if_neg (by decide)]
    simp only [hstart, Bool.false_eq_true, if_false]
    have hbefore : ([] ++ (escape :: pasteStart ++ [98] ++ pasteEnd) : Units).take 1 =
        [escape] := rfl
    rw [hbefore, hextract]
    rfl
  rw [StdinBuffer.process, hread] at hlost
  exact absurd hlost (by decide)

end InputSession

end BeauPi.Tui
