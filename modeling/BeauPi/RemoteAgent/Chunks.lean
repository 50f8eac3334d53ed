import BeauPi.RemoteAgent.Framing
import BeauPi.Js.TextDecoder

/-!
# Frames and the chunks they arrive in

The channel cuts a stream of bytes into chunks as it likes.  What the parser makes of the
stream should not depend on the cuts.

* `Carried` — bytes are some whole frames and a rest.
* `IsRejected` — the bytes so far show an error.
* `feed` — the chunks are pushed one after another.
* `feed_spec` — a push gives the frames up to the end of its chunk, unless an error shows in
  the chunk: then the frames of this chunk are lost with it.
* `chunking_iff` — two cuttings give the same frames exactly if no frame ends between the
  beginnings of the chunks in which they show the error.
-/

namespace BeauPi.RemoteAgent

open List

/-! ## Frames in a stream -/

/-- The length that a header announces. -/
def readHeader (header : List UInt8) : Checked Nat :=
  if maxHeaderBytes < header.length + 4 then
    .error (protocolError "Content-Length header exceeds the size limit")
  else if header.any fun b => decide (0x7F < b.toNat) then
    .error (protocolError "Content-Length header must be ASCII")
  else parseContentLength (header.map fun b => Char.ofNat b.toNat)

/-- The bytes are a frame and what follows it. -/
def StartsWithFrame (bytes frame rest : List UInt8) : Prop :=
  ∃ header, splitHeader bytes = some (header, frame ++ rest) ∧
    readHeader header = .ok frame.length

/-- The bytes cannot be the beginning of a frame. -/
def BadHeader (bytes : List UInt8) : Prop :=
  (splitHeader bytes = none ∧ maxHeaderBytes < bytes.length) ∨
    ∃ header rest, splitHeader bytes = some (header, rest) ∧
      ∀ length, readHeader header ≠ .ok length

/-- The bytes are whole frames and what follows them. -/
inductive Carried : List UInt8 → List (List UInt8) → List UInt8 → Prop
  | none (bytes : List UInt8) : Carried bytes [] bytes
  | frame {bytes frame rest last : List UInt8} {frames : List (List UInt8)} :
      StartsWithFrame bytes frame rest → Carried rest frames last →
      Carried bytes (frame :: frames) last

/-- The bytes show an error behind some whole frames. -/
def IsRejected (bytes : List UInt8) : Prop :=
  ∃ frames rest, Carried bytes frames rest ∧ BadHeader rest

/-- A frame of the stream ends with its byte `n`. -/
def FrameEndsAt (bytes : List UInt8) (n : Nat) : Prop :=
  ∃ before after frames, bytes = before ++ after ∧ before.length = n ∧ frames ≠ [] ∧
    Carried before frames []

/-! ## Chunks -/

/-- Where the parser is after some chunks. -/
inductive Outcome
  | buffering (buffer : List UInt8)
  | failed (error : AgentDiagnostic)
  deriving DecidableEq, Repr

/-- The chunks are pushed one after another, until one of them shows an error; the frames that
come out, and the parser at the end. -/
def feed : List UInt8 → List (List UInt8) → List (List UInt8) × Outcome
  | buffer, [] => ([], .buffering buffer)
  | buffer, chunk :: chunks =>
    match pushChunk buffer chunk with
    | .error error => ([], .failed error)
    | .ok (frames, rest) =>
      let later := feed rest chunks
      (frames ++ later.1, later.2)

/-- Did the parser fail? -/
def Outcome.isFailed : Outcome → Bool
  | .buffering _ => false
  | .failed _ => true

/-- The error shows in the chunk that begins at byte `t` of the stream. -/
def ShowsErrorFrom (chunks : List (List UInt8)) (t : Nat) : Prop :=
  ∃ before chunk after, chunks = before ++ chunk :: after ∧ before.flatten.length = t ∧
    ¬IsRejected before.flatten ∧ IsRejected (before.flatten ++ chunk)

/-- No frame ends between the beginnings of the chunks in which the two cuttings of a stream
show its error. -/
def NoFrameBetween (first second : List (List UInt8)) : Prop :=
  ∀ t₁ t₂, ShowsErrorFrom first t₁ → ShowsErrorFrom second t₂ →
    ∀ n, FrameEndsAt first.flatten n → (n ≤ t₁ ↔ n ≤ t₂)

variable {bytes frame rest more last header p : List UInt8} {frames : List (List UInt8)}

/-! ## The first frame -/

theorem takeFrame_of_none (h : splitHeader bytes = none) :
    takeFrame bytes =
      if maxHeaderBytes < bytes.length then
        .error (protocolError "Content-Length header exceeds the size limit")
      else .ok none := by
  simp only [takeFrame, h]

theorem takeFrame_of_some (h : splitHeader bytes = some (header, rest)) :
    takeFrame bytes = (readHeader header).bind fun length =>
      if rest.length < length then .ok none
      else .ok (some (rest.take length, rest.drop length)) := by
  simp only [takeFrame, h, readHeader]
  split_ifs <;> rfl

theorem takeFrame_eq_some :
    takeFrame bytes = .ok (some (frame, rest)) ↔ StartsWithFrame bytes frame rest := by
  unfold StartsWithFrame
  cases hsplit : splitHeader bytes with
  | none =>
    rw [takeFrame_of_none hsplit]
    split_ifs <;> simp
  | some pair =>
    obtain ⟨header, body⟩ := pair
    rw [takeFrame_of_some hsplit]
    simp only [Option.some.injEq, Prod.mk.injEq]
    constructor
    · intro h
      cases hread : readHeader header with
      | error error => rw [hread] at h; cases h
      | ok length =>
        rw [hread] at h
        simp only [Except.bind] at h
        split_ifs at h with hlen
        · cases h
        · obtain ⟨hframe, hrest⟩ := Prod.mk.inj (Option.some.inj (Except.ok.inj h))
          refine ⟨header, ⟨rfl, ?_⟩, ?_⟩
          · rw [← hframe, ← hrest, take_append_drop]
          · rw [← hframe, length_take, Nat.min_eq_left (by omega)]
            exact hread
    · rintro ⟨header', ⟨rfl, rfl⟩, hread⟩
      rw [hread]
      simp [Except.bind]

theorem takeFrame_eq_error : (∃ error, takeFrame bytes = .error error) ↔ BadHeader bytes := by
  unfold BadHeader
  cases hsplit : splitHeader bytes with
  | none =>
    rw [takeFrame_of_none hsplit]
    split_ifs with hlen <;> simp [hlen]
  | some pair =>
    obtain ⟨header, body⟩ := pair
    rw [takeFrame_of_some hsplit]
    cases hread : readHeader header with
    | error error => simp [Except.bind, hread]
    | ok length =>
      simp only [Except.bind]
      split_ifs <;> simp [hread]

/-! ## More bytes -/

/-- The first empty line is found whatever follows it. -/
theorem splitHeader_first (h : splitHeader bytes = some (header, rest)) (more : List UInt8) :
    splitHeader (header ++ 13 :: 10 :: 13 :: 10 :: more) = some (header, more) := by
  fun_induction splitHeader bytes generalizing header with
  | case1 rest' => cases h; rfl
  | case2 b bytes hne ih =>
    obtain ⟨⟨header, after⟩, hsplit, heq⟩ := Option.map_eq_some_iff.1 h
    cases heq
    have hbytes := splitHeader_sound hsplit
    rw [cons_append, splitHeader.eq_2, ih hsplit]
    · rfl
    · -- an empty line at the front would already be one of the given bytes
      intro tail hb htail
      subst hb hbytes
      rcases header with _ | ⟨c, _ | ⟨d, _ | ⟨e, header⟩⟩⟩
      · simp at htail
      · obtain ⟨rfl, -⟩ := List.cons.inj htail
        exact hne _ rfl rfl
      · simp at htail
      · obtain ⟨rfl, h₂⟩ := List.cons.inj htail
        obtain ⟨rfl, h₃⟩ := List.cons.inj h₂
        obtain ⟨rfl, -⟩ := List.cons.inj h₃
        exact hne _ rfl rfl
  | case3 => cases h

theorem splitHeader_append_more (h : splitHeader bytes = some (header, rest))
    (more : List UInt8) : splitHeader (bytes ++ more) = some (header, rest ++ more) := by
  rw [splitHeader_sound h, append_assoc]
  exact splitHeader_first h (rest ++ more)

/-- An empty line that comes with more bytes does not end before them. -/
theorem length_lt_of_splitHeader (hnone : splitHeader bytes = none)
    (h : splitHeader (bytes ++ more) = some (header, rest)) :
    bytes.length < header.length + 4 := by
  by_contra hle
  have hlen : (header ++ [13, 10, 13, 10]).length ≤ bytes.length := by
    rw [length_append]
    simp only [length_cons, length_nil]
    omega
  have hsound : bytes ++ more = (header ++ [13, 10, 13, 10]) ++ rest := by
    rw [splitHeader_sound h]
    simp
  obtain ⟨tail, htail⟩ := prefix_of_prefix_length_le ⟨rest, hsound.symm⟩
    ⟨more, rfl⟩ hlen
  have hfirst := splitHeader_first h tail
  rw [← htail, append_assoc] at hnone
  simp only [cons_append, nil_append] at hnone
  rw [hfirst] at hnone
  cases hnone

/-- An error does not go away with more bytes. -/
theorem BadHeader.append (h : BadHeader bytes) (more : List UInt8) : BadHeader (bytes ++ more) := by
  rcases h with ⟨hnone, hlong⟩ | ⟨header, rest, hsplit, hbad⟩
  · cases hsplit : splitHeader (bytes ++ more) with
    | none => exact .inl ⟨hsplit, by rw [length_append]; omega⟩
    | some pair =>
      obtain ⟨header, rest⟩ := pair
      have hlt := length_lt_of_splitHeader hnone hsplit
      refine .inr ⟨header, rest, hsplit, fun length hread => ?_⟩
      rw [readHeader, if_pos (by omega)] at hread
      cases hread
  · exact .inr ⟨header, rest ++ more, splitHeader_append_more hsplit more, hbad⟩

theorem StartsWithFrame.append (h : StartsWithFrame bytes frame rest) (more : List UInt8) :
    StartsWithFrame (bytes ++ more) frame (rest ++ more) := by
  obtain ⟨header, hsplit, hread⟩ := h
  exact ⟨header, by rw [splitHeader_append_more hsplit, append_assoc], hread⟩

/-- The bytes of the frame alone. -/
theorem StartsWithFrame.alone (h : StartsWithFrame bytes frame rest) :
    ∃ own, bytes = own ++ rest ∧ 0 < own.length ∧ StartsWithFrame own frame [] := by
  obtain ⟨header, hsplit, hread⟩ := h
  refine ⟨header ++ 13 :: 10 :: 13 :: 10 :: frame, ?_, by simp, header, ?_, hread⟩
  · rw [splitHeader_sound hsplit]
    simp
  · rw [splitHeader_first hsplit, append_nil]

theorem StartsWithFrame.unique {frame' rest' : List UInt8} (h : StartsWithFrame bytes frame rest)
    (h' : StartsWithFrame bytes frame' rest') : frame = frame' ∧ rest = rest' := by
  have heq := (takeFrame_eq_some.2 h).symm.trans (takeFrame_eq_some.2 h')
  exact Prod.mk.inj (Option.some.inj (Except.ok.inj heq))

theorem BadHeader.not_startsWithFrame (h : BadHeader bytes) :
    ¬StartsWithFrame bytes frame rest := by
  intro hframe
  obtain ⟨error, herror⟩ := takeFrame_eq_error.2 h
  rw [takeFrame_eq_some.2 hframe] at herror
  cases herror

/-! ## Whole frames -/

namespace Carried

theorem append (h : Carried bytes frames rest) (more : List UInt8) :
    Carried (bytes ++ more) frames (rest ++ more) := by
  induction h with
  | none bytes => exact .none _
  | frame hframe _ ih => exact .frame (hframe.append more) ih

theorem trans {later : List (List UInt8)} (h : Carried bytes frames rest)
    (hlater : Carried rest later last) : Carried bytes (frames ++ later) last := by
  induction h with
  | none bytes => exact hlater
  | frame hframe _ ih => exact .frame hframe (ih hlater)

/-- The bytes of the frames alone. -/
theorem alone (h : Carried bytes frames rest) :
    ∃ own, bytes = own ++ rest ∧ Carried own frames [] := by
  induction h with
  | none bytes => exact ⟨[], rfl, .none []⟩
  | frame hframe _ ih =>
    obtain ⟨own, rfl, hown⟩ := ih
    obtain ⟨first, rfl, -, hfirst⟩ := hframe.alone
    refine ⟨first ++ own, (append_assoc ..).symm, .frame ?_ hown⟩
    simpa using hfirst.append own

/-- Where no further frame starts, all frames have been taken. -/
theorem stuck {frames' : List (List UInt8)} {rest' : List UInt8} (h : Carried bytes frames rest)
    (hstuck : ∀ frame tail, ¬StartsWithFrame rest frame tail)
    (h' : Carried bytes frames' rest') :
    ∃ later, frames = frames' ++ later ∧ Carried rest' later rest := by
  induction h' generalizing frames with
  | none bytes => exact ⟨frames, rfl, h⟩
  | frame hframe _ ih =>
    cases h with
    | none => exact absurd hframe (hstuck _ _)
    | frame hframe' hrest =>
      obtain ⟨rfl, rfl⟩ := hframe.unique hframe'
      obtain ⟨later, rfl, hlater⟩ := ih hrest
      exact ⟨later, rfl, hlater⟩

theorem length_le (h : Carried bytes frames rest) : rest.length ≤ bytes.length := by
  obtain ⟨own, rfl, -⟩ := h.alone
  rw [length_append]
  omega

/-- All frames that the bytes hold. -/
theorem exists_all (bytes : List UInt8) : ∃ frames rest, Carried bytes frames rest ∧
    ∀ frame tail, ¬StartsWithFrame rest frame tail := by
  induction hn : bytes.length using Nat.strong_induction_on generalizing bytes with
  | _ n ih =>
    by_cases hframe : ∃ frame rest, StartsWithFrame bytes frame rest
    · obtain ⟨frame, rest, hframe⟩ := hframe
      obtain ⟨own, rfl, hpos, -⟩ := hframe.alone
      rw [length_append] at hn
      obtain ⟨frames, last, hcarried, hstuck⟩ := ih rest.length (by omega) rest rfl
      exact ⟨frame :: frames, last, .frame hframe hcarried, hstuck⟩
    · push Not at hframe
      exact ⟨[], bytes, .none bytes, hframe⟩

end Carried

theorem IsRejected.append (h : IsRejected bytes) (more : List UInt8) :
    IsRejected (bytes ++ more) := by
  obtain ⟨frames, rest, hcarried, hbad⟩ := h
  exact ⟨frames, rest ++ more, hcarried.append more, hbad.append more⟩

/-- The loop of `push` takes all frames, and fails where the next header is bad. -/
theorem takeFrames_of_carried (h : Carried bytes frames rest)
    (hstuck : ∀ frame tail, ¬StartsWithFrame rest frame tail) :
    ∀ fuel, bytes.length ≤ fuel → takeFrames fuel bytes =
      (takeFrame rest).bind fun _ => .ok (frames, rest) := by
  induction h with
  | none bytes =>
    intro fuel hfuel
    cases fuel with
    | zero =>
      obtain rfl := length_eq_zero_iff.1 (Nat.le_zero.1 hfuel)
      rfl
    | succ fuel =>
      rw [takeFrames]
      cases htake : takeFrame bytes with
      | error error => rfl
      | ok found =>
        cases found with
        | none => rfl
        | some pair => exact absurd (takeFrame_eq_some.1 htake) (hstuck _ _)
  | frame hframe _ ih =>
    intro fuel hfuel
    obtain ⟨own, rfl, hpos, -⟩ := hframe.alone
    rw [length_append] at hfuel
    cases fuel with
    | zero => omega
    | succ fuel =>
      rw [takeFrames, takeFrame_eq_some.2 hframe]
      simp only [bind, Except.bind, ih hstuck fuel (by omega)]
      cases takeFrame _ <;> rfl

/-! ## Pushing chunks -/

/-- Behind bytes that are read, no frame starts and no error shows. -/
theorem waiting_iff : takeFrame rest = .ok none ↔
    (∀ frame tail, ¬StartsWithFrame rest frame tail) ∧ ¬BadHeader rest := by
  constructor
  · intro h
    refine ⟨fun frame tail hframe => ?_, fun hbad => ?_⟩
    · rw [takeFrame_eq_some.2 hframe] at h
      cases h
    · obtain ⟨error, herror⟩ := takeFrame_eq_error.2 hbad
      rw [herror] at h
      cases h
  · rintro ⟨hstuck, hgood⟩
    cases htake : takeFrame rest with
    | error error => exact absurd (takeFrame_eq_error.1 ⟨error, htake⟩) hgood
    | ok found =>
      cases found with
      | none => rfl
      | some pair => exact absurd (takeFrame_eq_some.1 htake) (hstuck _ _)

/-- Bytes behind which the parser waits are not rejected. -/
theorem not_isRejected (h : Carried bytes frames rest) (hwait : takeFrame rest = .ok none) :
    ¬IsRejected bytes := by
  obtain ⟨hstuck, hgood⟩ := waiting_iff.1 hwait
  rintro ⟨frames', rest', h', hbad⟩
  obtain ⟨later, -, hlater⟩ := h.stuck hstuck h'
  cases hlater with
  | none => exact hgood hbad
  | frame hframe _ => exact hbad.not_startsWithFrame hframe

/-- One push onto a buffer that waits for more. -/
theorem pushChunk_spec (hcarried : Carried p frames bytes) (chunk : List UInt8) :
    (∃ error, pushChunk bytes chunk = .error error ∧ IsRejected (p ++ chunk)) ∨
      ∃ new rest, pushChunk bytes chunk = .ok (new, rest) ∧
        Carried (p ++ chunk) (frames ++ new) rest ∧ takeFrame rest = .ok none := by
  obtain ⟨new, rest, hnew, hstuck⟩ := Carried.exists_all (bytes ++ chunk)
  have hall : Carried (p ++ chunk) (frames ++ new) rest := (hcarried.append chunk).trans hnew
  have hpush := takeFrames_of_carried hnew hstuck _ le_rfl
  cases htake : takeFrame rest with
  | error error =>
    rw [htake] at hpush
    exact .inl ⟨error, hpush, _, rest, hall, takeFrame_eq_error.1 ⟨error, htake⟩⟩
  | ok found =>
    cases found with
    | none =>
      rw [htake] at hpush
      exact .inr ⟨new, rest, hpush, hall, htake⟩
    | some pair => exact absurd (takeFrame_eq_some.1 htake) (hstuck _ _)

/-- **What comes out of the chunks of a stream.**  Without an error these are all its frames;
with one, the frames before the chunk in which the error shows. -/
theorem feed_spec (chunks : List (List UInt8)) :
    ∀ {p bytes : List UInt8} {frames : List (List UInt8)}, Carried p frames bytes →
      takeFrame bytes = .ok none →
      (∃ new rest, feed bytes chunks = (new, .buffering rest) ∧
        Carried (p ++ chunks.flatten) (frames ++ new) rest ∧ takeFrame rest = .ok none) ∨
      ∃ before chunk after new rest error, chunks = before ++ chunk :: after ∧
        feed bytes chunks = (new, .failed error) ∧
        Carried (p ++ before.flatten) (frames ++ new) rest ∧ takeFrame rest = .ok none ∧
        IsRejected (p ++ before.flatten ++ chunk) := by
  induction chunks with
  | nil =>
    intro p bytes frames hcarried hwait
    exact .inl ⟨[], bytes, rfl, by simpa using hcarried, hwait⟩
  | cons chunk chunks ih =>
    intro p bytes frames hcarried hwait
    rcases pushChunk_spec hcarried chunk with ⟨error, hpush, hrejected⟩ |
      ⟨new, rest, hpush, hnew, hwaits⟩
    · refine .inr ⟨[], chunk, chunks, [], bytes, error, rfl, ?_, by simpa using hcarried, hwait,
        by simpa using hrejected⟩
      rw [feed, hpush]
    · have hfeed : feed bytes (chunk :: chunks) =
          (new ++ (feed rest chunks).1, (feed rest chunks).2) := by
        rw [feed, hpush]
      rcases ih hnew hwaits with ⟨later, last, hlater, hcarried', hwait'⟩ |
        ⟨before, chunk', after, later, last, error, hsplit, hlater, hcarried', hwait', hbad⟩
      · refine .inl ⟨new ++ later, last, by rw [hfeed, hlater], ?_, hwait'⟩
        simpa using hcarried'
      · refine .inr ⟨chunk :: before, chunk', after, new ++ later, last, error, by rw [hsplit]; rfl,
          by rw [hfeed, hlater], ?_, hwait', ?_⟩
        · simpa using hcarried'
        · simpa using hbad

/-! ## Two cuttings of one stream -/

variable {chunks : List (List UInt8)}

/-- There is one chunk in which an error shows first. -/
theorem ShowsErrorFrom.unique {t t' : Nat} (h : ShowsErrorFrom chunks t)
    (h' : ShowsErrorFrom chunks t') : t = t' := by
  obtain ⟨before, chunk, after, rfl, rfl, hgood, hbad⟩ := h
  obtain ⟨before', chunk', after', hsplit, rfl, hgood', hbad'⟩ := h'
  rcases append_eq_append_iff.1 hsplit with ⟨mid, rfl, hmid⟩ | ⟨mid, rfl, hmid⟩
  · cases mid with
    | nil => rw [append_nil]
    | cons c mid =>
      obtain ⟨rfl, -⟩ := List.cons.inj hmid
      refine absurd ?_ hgood'
      simpa using hbad.append mid.flatten
  · cases mid with
    | nil => rw [append_nil]
    | cons c mid =>
      obtain ⟨rfl, -⟩ := List.cons.inj hmid
      refine absurd ?_ hgood
      simpa using hbad'.append mid.flatten

theorem ShowsErrorFrom.isRejected {t : Nat} (h : ShowsErrorFrom chunks t) :
    IsRejected chunks.flatten := by
  obtain ⟨before, chunk, after, rfl, -, -, hbad⟩ := h
  simpa using hbad.append after.flatten

/-- Two beginnings of a stream hold the same frames exactly if no frame ends between their
ends. -/
theorem frames_eq_iff {first : List UInt8} (second : List UInt8) {frames₁ frames₂ : List (List UInt8)}
    {rest₁ rest₂ : List UInt8} (h₁ : Carried first frames₁ rest₁)
    (hwait₁ : takeFrame rest₁ = .ok none) (h₂ : Carried (first ++ second) frames₂ rest₂)
    (hwait₂ : takeFrame rest₂ = .ok none) (more : List UInt8) :
    frames₁ = frames₂ ↔ ∀ n, FrameEndsAt (first ++ second ++ more) n →
      (n ≤ first.length ↔ n ≤ (first ++ second).length) := by
  obtain ⟨later, rfl, hlater⟩ := h₂.stuck (waiting_iff.1 hwait₂).1 (h₁.append second)
  constructor
  · intro heq n hend
    obtain rfl : later = [] := by simpa using heq
    cases hlater with
    | none =>
      refine ⟨fun hle => by rw [length_append]; omega, fun hle => ?_⟩
      obtain ⟨before, after, frames, hsplit, rfl, -, hbefore⟩ := hend
      -- the frames up to here are among those of the longer beginning
      obtain ⟨mid, hmid⟩ := prefix_of_prefix_length_le ⟨after, hsplit.symm⟩
        ⟨more, rfl⟩ hle
      have hcarried := hbefore.append mid
      rw [hmid] at hcarried
      obtain ⟨_, -, htail⟩ := h₂.stuck (waiting_iff.1 hwait₂).1 hcarried
      have hlen := htail.length_le
      have htotal := congrArg List.length hmid
      simp only [length_append, nil_append] at hlen htotal ⊢
      omega
  · intro hends
    cases hlater with
    | none => simp
    | @frame _ frame tail _ later hframe hrest =>
      exfalso
      have hmore : Carried (first ++ second) (frames₁ ++ [frame]) tail :=
        (h₁.append second).trans (.frame hframe (.none tail))
      obtain ⟨own, hown, hcarried⟩ := hmore.alone
      have hend : FrameEndsAt (first ++ second ++ more) own.length :=
        ⟨own, tail ++ more, _, by rw [hown, append_assoc], rfl, by simp, hcarried⟩
      have hle : own.length ≤ first.length :=
        (hends _ hend).2 (by rw [hown, length_append]; omega)
      obtain ⟨mid, hmid⟩ := prefix_of_prefix_length_le ⟨tail, hown.symm⟩ ⟨second, rfl⟩ hle
      have hfirst := hcarried.append mid
      rw [hmid] at hfirst
      obtain ⟨_, hframes, -⟩ := h₁.stuck (waiting_iff.1 hwait₁).1 hfirst
      have hlen := congrArg List.length hframes
      simp only [length_append, length_cons, length_nil] at hlen
      omega

theorem takeFrame_nil : takeFrame [] = .ok none := rfl

/-- The two cuttings agree about whether there is an error. -/
theorem isFailed_feed (chunks : List (List UInt8)) :
    (feed [] chunks).2.isFailed = true ↔ IsRejected chunks.flatten := by
  rcases feed_spec chunks (.none []) takeFrame_nil with ⟨new, rest, hfeed, hcarried, hwait⟩ |
    ⟨before, chunk, after, new, rest, error, rfl, hfeed, -, -, hbad⟩
  · simpa [hfeed, Outcome.isFailed] using not_isRejected hcarried hwait
  · simp only [hfeed, Outcome.isFailed, true_iff]
    simpa using hbad.append after.flatten

/-- **Two cuttings of one stream give the same frames exactly if no frame ends between the
beginnings of the chunks in which they show the error.** -/
theorem frames_feed_iff {first second : List (List UInt8)}
    (hsame : first.flatten = second.flatten) :
    (feed [] first).1 = (feed [] second).1 ↔ NoFrameBetween first second := by
  rcases feed_spec first (.none []) takeFrame_nil with ⟨new₁, rest₁, hfeed₁, hcarried₁, hwait₁⟩ |
    ⟨before₁, chunk₁, after₁, new₁, rest₁, error₁, hsplit₁, hfeed₁, hcarried₁, hwait₁, hbad₁⟩
  · -- no error: both give all frames of the stream
    have hgood := not_isRejected hcarried₁ hwait₁
    rcases feed_spec second (.none []) takeFrame_nil with
      ⟨new₂, rest₂, hfeed₂, hcarried₂, hwait₂⟩ |
      ⟨before₂, chunk₂, after₂, new₂, rest₂, error₂, rfl, -, -, -, hbad₂⟩
    · rw [← hsame] at hcarried₂
      have heq := (frames_eq_iff [] hcarried₁ hwait₁ (by simpa using hcarried₂) hwait₂
        []).2 (by simp)
      simp only [nil_append] at heq
      rw [hfeed₁, hfeed₂]
      exact iff_of_true heq fun t₁ t₂ h₁ _ => absurd h₁.isRejected hgood
    · refine absurd ?_ hgood
      rw [nil_append, hsame]
      simpa using hbad₂.append after₂.flatten
  · rcases feed_spec second (.none []) takeFrame_nil with
      ⟨new₂, rest₂, hfeed₂, hcarried₂, hwait₂⟩ |
      ⟨before₂, chunk₂, after₂, new₂, rest₂, error₂, hsplit₂, hfeed₂, hcarried₂, hwait₂, hbad₂⟩
    · refine absurd ?_ (not_isRejected hcarried₂ hwait₂)
      rw [nil_append, ← hsame, hsplit₁]
      simpa using hbad₁.append after₁.flatten
    · have hshows₁ : ShowsErrorFrom first before₁.flatten.length :=
        ⟨before₁, chunk₁, after₁, hsplit₁, rfl, not_isRejected hcarried₁ hwait₁, hbad₁⟩
      have hshows₂ : ShowsErrorFrom second before₂.flatten.length :=
        ⟨before₂, chunk₂, after₂, hsplit₂, rfl, not_isRejected hcarried₂ hwait₂, hbad₂⟩
      have hbetween : NoFrameBetween first second ↔ ∀ n, FrameEndsAt first.flatten n →
          (n ≤ before₁.flatten.length ↔ n ≤ before₂.flatten.length) := by
        constructor
        · intro h n
          exact h _ _ hshows₁ hshows₂ n
        · intro h t₁ t₂ h₁ h₂ n hend
          rw [h₁.unique hshows₁, h₂.unique hshows₂]
          exact h n hend
      rw [hbetween, hfeed₁, hfeed₂]
      have hpre₁ : before₁.flatten <+: first.flatten := ⟨(chunk₁ :: after₁).flatten, by
        rw [hsplit₁, flatten_append]⟩
      have hpre₂ : before₂.flatten <+: first.flatten := ⟨(chunk₂ :: after₂).flatten, by
        rw [hsame, hsplit₂, flatten_append]⟩
      rcases Nat.le_total before₁.flatten.length before₂.flatten.length with hle | hle
      · obtain ⟨mid, hmid⟩ := prefix_of_prefix_length_le hpre₁ hpre₂ hle
        obtain ⟨tail, htail⟩ := hpre₂
        rw [← htail, ← hmid]
        rw [← hmid] at hcarried₂
        exact frames_eq_iff _ hcarried₁ hwait₁ hcarried₂ hwait₂ tail
      · obtain ⟨mid, hmid⟩ := prefix_of_prefix_length_le hpre₂ hpre₁ hle
        obtain ⟨tail, htail⟩ := hpre₁
        rw [← htail, ← hmid, eq_comm]
        rw [← hmid] at hcarried₁
        refine (frames_eq_iff _ hcarried₂ hwait₂ hcarried₁ hwait₁ tail).trans ?_
        exact forall₂_congr fun n _ => iff_comm

/-! ## Encoded payloads -/

theorem startsWithFrame_frame {body : List UInt8} (h : Carries body) (rest : List UInt8) :
    StartsWithFrame (RemoteAgent.frame body ++ rest) body rest :=
  takeFrame_eq_some.1 (takeFrame_frame h rest)

variable {bodies : List (List UInt8)}

theorem carried_stream (h : ∀ body ∈ bodies, Carries body) :
    Carried (stream bodies) bodies [] := by
  induction bodies with
  | nil => exact .none []
  | cons body bodies ih =>
    refine .frame (startsWithFrame_frame (h body mem_cons_self) (stream bodies)) ?_
    exact ih fun other hother => h other (mem_cons_of_mem _ hother)

/-- **The encoded payloads are parsed back, in whatever chunks they come, and nothing stays in
the buffer.** -/
theorem feed_stream (h : ∀ body ∈ bodies, Carries body) (hchunks : chunks.flatten = stream bodies) :
    feed [] chunks = (bodies, .buffering []) := by
  have hall := carried_stream h
  rcases feed_spec chunks (.none []) takeFrame_nil with ⟨new, rest, hfeed, hcarried, hwait⟩ |
    ⟨before, chunk, after, new, rest, error, rfl, -, -, -, hbad⟩
  · simp only [nil_append, hchunks] at hcarried
    obtain ⟨later, rfl, hlater⟩ := hcarried.stuck (waiting_iff.1 hwait).1 hall
    cases hlater with
    | none => rw [hfeed, append_nil]
    | frame hframe _ => exact absurd hframe ((waiting_iff.1 takeFrame_nil).1 _ _)
  · refine absurd ?_ (not_isRejected hall takeFrame_nil)
    rw [← hchunks]
    simpa using hbad.append after.flatten

theorem mapM_encode (h : ∀ body ∈ bodies, Carries body) :
    bodies.mapM encodeContentLengthFrame = .ok (bodies.map RemoteAgent.frame) := by
  induction bodies with
  | nil => rfl
  | cons body bodies ih =>
    obtain ⟨hne, hlen⟩ := h body mem_cons_self
    have hbody : encodeContentLengthFrame body = .ok (RemoteAgent.frame body) := by
      rw [encodeContentLengthFrame, if_neg hne, if_neg (by omega)]
    rw [mapM_cons, hbody, ih fun other hother => h other (mem_cons_of_mem _ hother)]
    rfl

/-! ## Frames do not depend on the chunks -/

/-- Payloads are parsed back from their encodings with nothing left in the buffer. -/
def ParsesBack : Prop :=
  ∀ bodies : List (List UInt8), (∀ body ∈ bodies, Carries body) →
    ∃ encoded, bodies.mapM encodeContentLengthFrame = .ok encoded ∧
      ∀ chunks : List (List UInt8), chunks.flatten = encoded.flatten →
        feed [] chunks = (bodies, .buffering [])

theorem parsesBack : ParsesBack := by
  intro bodies hbodies
  refine ⟨_, mapM_encode hbodies, fun chunks hchunks => feed_stream hbodies ?_⟩
  rw [hchunks, stream, flatMap_def]

/-- **What the chunks are does not matter, exactly if no frame ends between the beginnings of
the chunks in which an error shows.**  An error shows in both cuttings or in none, and encoded
payloads are parsed back. -/
theorem chunking_iff (first second : List (List UInt8)) (hsame : first.flatten = second.flatten) :
    ((feed [] first).1 = (feed [] second).1 ∧
        ((feed [] first).2.isFailed = true ↔ (feed [] second).2.isFailed = true) ∧
        ParsesBack) ↔
      NoFrameBetween first second := by
  rw [← frames_feed_iff hsame]
  refine and_iff_left ⟨?_, parsesBack⟩
  rw [isFailed_feed, isFailed_feed, hsame]

/-- A header without a colon. -/
def badHeader : List UInt8 := [88, 13, 10, 13, 10]

/-- A frame and a bad header, whole and cut within the header. -/
theorem chunking_iff_cutHeader :
    [RemoteAgent.frame [65] ++ badHeader].flatten =
        [RemoteAgent.frame [65] ++ badHeader.take 2, badHeader.drop 2].flatten ∧
      (((feed [] [RemoteAgent.frame [65] ++ badHeader]).1 =
            (feed [] [RemoteAgent.frame [65] ++ badHeader.take 2, badHeader.drop 2]).1 ∧
          ((feed [] [RemoteAgent.frame [65] ++ badHeader]).2.isFailed = true ↔
            (feed [] [RemoteAgent.frame [65] ++ badHeader.take 2,
              badHeader.drop 2]).2.isFailed = true) ∧
          ParsesBack) ↔
        NoFrameBetween [RemoteAgent.frame [65] ++ badHeader]
          [RemoteAgent.frame [65] ++ badHeader.take 2, badHeader.drop 2]) :=
  ⟨by decide, chunking_iff _ _ (by decide)⟩

/-- The frame before a bad header comes out only if it does not share a chunk with it. -/
theorem frame_lost_with_error :
    ¬ ∀ first second : List (List UInt8), first.flatten = second.flatten →
      (feed [] first).1 = (feed [] second).1 ∧
        ((feed [] first).2.isFailed = true ↔ (feed [] second).2.isFailed = true) ∧
        ParsesBack := by
  intro h
  have hframes := (h [RemoteAgent.frame [65] ++ badHeader] [RemoteAgent.frame [65], badHeader]
    (by decide)).1
  exact absurd hframes (by decide)

/-! ## JSON payloads -/

/-- `encodeJsonFrame`. -/
def encodeJsonFrame : Json → Checked (List UInt8)
  | .obj fields => encodeContentLengthFrame (Utf8.encode (Json.text (.obj fields)))
  | _ => .error (protocolError "Framed JSON payload must be an object")

/-- `decodeJsonFrame`; bytes are valid UTF-8 if they are what their text is encoded as. -/
def decodeJsonFrame (frame : List UInt8) : Checked Json :=
  if Utf8.encode (Utf8.decode frame) ≠ frame then
    .error (protocolError "Frame payload is not valid UTF-8")
  else
    match Json.parse (String.ofList (Utf8.decodeText frame)) with
    | none => .error (protocolError "Frame payload is not valid JSON")
    | some value => .ok value

theorem encodeJsonFrame_ok {value : Json} {encoded : List UInt8} (hvalue : value.wellFormed = true)
    (h : encodeJsonFrame value = .ok encoded) :
    ∃ body, Carries body ∧ encoded = RemoteAgent.frame body ∧ decodeJsonFrame body = .ok value := by
  cases value with
  | obj fields =>
    rw [encodeJsonFrame, encodeContentLengthFrame] at h
    split_ifs at h with hempty hlong
    cases h
    refine ⟨_, ⟨hempty, by omega⟩, rfl, ?_⟩
    have htext : Utf8.decodeText (Utf8.encode (Json.text (.obj fields))) =
        Json.text (.obj fields) := by
      rw [Utf8.decodeText, Utf8.decode_encode]
      exact if_neg (by simp [Json.text, Utf8.byteOrderMark])
    rw [decodeJsonFrame, Utf8.decode_encode, if_neg (by simp), htext, Json.parse_text hvalue]
  | _ => cases h

theorem mapM_encodeJsonFrame {values : List Json} {encoded : List (List UInt8)}
    (hvalues : ∀ value ∈ values, value.wellFormed = true)
    (h : values.mapM encodeJsonFrame = .ok encoded) :
    ∃ bodies, (∀ body ∈ bodies, Carries body) ∧ encoded.flatten = stream bodies ∧
      bodies.mapM decodeJsonFrame = .ok values := by
  induction values generalizing encoded with
  | nil =>
    cases h
    exact ⟨[], by simp, rfl, rfl⟩
  | cons value values ih =>
    rw [forall_mem_cons] at hvalues
    rw [mapM_cons] at h
    cases hvalue : encodeJsonFrame value with
    | error error => rw [hvalue] at h; cases h
    | ok first =>
      cases hrest : values.mapM encodeJsonFrame with
      | error error => rw [hvalue, hrest] at h; cases h
      | ok rest =>
        rw [hvalue, hrest] at h
        cases h
        obtain ⟨body, hbody, rfl, hdecode⟩ := encodeJsonFrame_ok hvalues.1 hvalue
        obtain ⟨bodies, hbodies, hflatten, hdecodes⟩ := ih hvalues.2 hrest
        refine ⟨body :: bodies, forall_mem_cons.2 ⟨hbody, hbodies⟩, ?_, ?_⟩
        · rw [flatten_cons, hflatten]
          rfl
        · rw [mapM_cons, hdecode, hdecodes]
          rfl

/-- **JSON payloads arrive as they were sent, in whatever chunks.** -/
theorem json_arrives {values : List Json} {encoded chunks : List (List UInt8)}
    (hvalues : ∀ value ∈ values, value.wellFormed = true)
    (hencoded : values.mapM encodeJsonFrame = .ok encoded)
    (hchunks : chunks.flatten = encoded.flatten) :
    (feed [] chunks).2 = .buffering [] ∧
      (feed [] chunks).1.mapM decodeJsonFrame = .ok values := by
  obtain ⟨bodies, hbodies, hflatten, hdecode⟩ := mapM_encodeJsonFrame hvalues hencoded
  rw [feed_stream hbodies (hchunks.trans hflatten)]
  exact ⟨rfl, hdecode⟩

/-- `{"a":[null,"b"]}` and `{}`, with their headers. -/
def sentBytes : List UInt8 :=
  RemoteAgent.frame [123, 34, 97, 34, 58, 91, 110, 117, 108, 108, 44, 34, 98, 34, 93, 125] ++
    RemoteAgent.frame [123, 125]

/-- The two objects, cut within the first header and within the second. -/
theorem json_arrives_twoObjects :
    let chunks := [sentBytes.take 5, (sentBytes.drop 5).take 40, sentBytes.drop 45]
    (feed [] chunks).2 = .buffering [] ∧
      (feed [] chunks).1.mapM decodeJsonFrame =
        .ok [.obj [("a", .arr [.null, .str "b"])], .obj []] :=
  json_arrives (by decide) (by rfl) (by decide)

end BeauPi.RemoteAgent
