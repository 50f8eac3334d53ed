import BeauPi.Js.JsonRoundTrip
import BeauPi.Js.Utf8
import BeauPi.RemoteAgent.Protocol

/-!
# Frames

Messages travel as frames: a `Content-Length` header, an empty line and the bytes of a JSON
text.  The channel delivers bytes in chunks of any size.

* `parseContentLength`, `takeFrame`, `FrameParser.push` — the parser.
* `encodeContentLengthFrame` — single frames.
-/

namespace BeauPi.RemoteAgent

open List

/-! ## Headers -/

/-- `text.split("\r\n")`; `line` holds the current line backwards. -/
def splitLines (line : List Char) : List Char → List (List Char)
  | [] => [line.reverse]
  | '\r' :: '\n' :: rest => line.reverse :: splitLines [] rest
  | c :: rest => splitLines (c :: line) rest

/-- `/^[1-9][0-9]*$/` -/
def isPositiveDecimal : List Char → Bool
  | [] => false
  | c :: cs => Js.isDigit c && c != '0' && cs.all Js.isDigit

/-- One line of a header; `length` is the length found before. -/
def parseHeaderLine (length : Option Nat) (line : List Char) : Checked (Option Nat) :=
  if line = [] then .ok length
  else if ':' ∉ line then .error (protocolError "Malformed Content-Length header")
  else
    let name := (Js.trimChars (line.takeWhile (· ≠ ':'))).map Char.toLower
    let value := Js.trimChars ((line.dropWhile (· ≠ ':')).drop 1)
    if name ≠ ['c', 'o', 'n', 't', 'e', 'n', 't', '-', 'l', 'e', 'n', 'g', 't', 'h'] then .error
      (protocolError "Unexpected frame header")
    else if length.isSome then .error (protocolError "Duplicate Content-Length header")
    else if !isPositiveDecimal value then
      .error (protocolError "Content-Length must be a positive decimal integer")
    else if maxFrameBytes < Json.digitsValue value then
      .error (protocolError "Frame exceeds the size limit")
    else .ok (some (Json.digitsValue value))

def parseContentLength (header : List Char) : Checked Nat := do
  match ← (splitLines [] header).foldlM parseHeaderLine none with
  | some length => return length
  | none => throw (protocolError "Missing Content-Length header")

/-! ## The parser -/

/-- The bytes before and after the first empty line. -/
def splitHeader : List UInt8 → Option (List UInt8 × List UInt8)
  | 13 :: 10 :: 13 :: 10 :: rest => some ([], rest)
  | b :: rest => (splitHeader rest).map fun p => (b :: p.1, p.2)
  | [] => none

/-- One turn of the loop of `push`: the first frame of the buffer and what follows it, or
`none` when the buffer does not hold a whole frame. -/
def takeFrame (buffer : List UInt8) : Checked (Option (List UInt8 × List UInt8)) :=
  match splitHeader buffer with
  | none =>
    if maxHeaderBytes < buffer.length then
      .error (protocolError "Content-Length header exceeds the size limit")
    else .ok none
  | some (header, rest) =>
    if maxHeaderBytes < header.length + 4 then
      .error (protocolError "Content-Length header exceeds the size limit")
    else if header.any fun b => decide (0x7F < b.toNat) then
      .error (protocolError "Content-Length header must be ASCII")
    else do
      let length ← parseContentLength (header.map fun b => Char.ofNat b.toNat)
      if rest.length < length then return none
      else return some (rest.take length, rest.drop length)

/-- The loop of `push`.  A frame takes bytes out of the buffer, so its length is enough
fuel. -/
def takeFrames : Nat → List UInt8 → Checked (List (List UInt8) × List UInt8)
  | 0, buffer => .ok ([], buffer)
  | fuel + 1, buffer => do
    match ← takeFrame buffer with
    | none => return ([], buffer)
    | some (frame, rest) =>
      let (frames, rest) ← takeFrames fuel rest
      return (frame :: frames, rest)

/-- `ContentLengthFrameParser.push`: the frames that are complete, and the new buffer. -/
def pushChunk (buffer chunk : List UInt8) : Checked (List (List UInt8) × List UInt8) :=
  takeFrames (buffer ++ chunk).length (buffer ++ chunk)

/-! ## Single frames -/

/-- The bytes of an ASCII text. -/
def ascii (cs : List Char) : List UInt8 := cs.map fun c => UInt8.ofNat c.toNat

/-- The header of a frame of `n` bytes, without the empty line. -/
def frameHeader (n : Nat) : List Char :=
  ['C', 'o', 'n', 't', 'e', 'n', 't', '-', 'L', 'e', 'n', 'g', 't', 'h', ':', ' '] ++
    Json.natDigits n

/-- The frame of a body. -/
def frame (body : List UInt8) : List UInt8 :=
  ascii (frameHeader body.length) ++ 13 :: 10 :: 13 :: 10 :: body

def encodeContentLengthFrame (body : List UInt8) : Checked (List UInt8) :=
  if body = [] then .error (protocolError "Frame payload cannot be empty")
  else if maxFrameBytes < body.length then .error (protocolError "Frame exceeds the size limit")
  else .ok (frame body)

/-! ## Reading a frame back -/

/-! ### The header -/

theorem splitLines_of_notMem {cs : List Char} (h : '\r' ∉ cs) (line : List Char) :
    splitLines line cs = [line.reverse ++ cs] := by
  induction cs generalizing line with
  | nil => simp [splitLines]
  | cons c cs ih =>
    have hc : c ≠ '\r' := fun heq => h (heq ▸ mem_cons_self)
    have hrest : '\r' ∉ cs := fun hm => h (mem_cons_of_mem _ hm)
    rw [splitLines.eq_3 _ _ _ (fun _ heq _ => hc heq), ih hrest]
    simp

theorem isDigit_not_isSpace {c : Char} (h : Js.isDigit c = true) : Js.isSpace c = false := by
  simp only [Js.isDigit, Bool.and_eq_true, decide_eq_true_eq] at h
  obtain ⟨h₁, h₂⟩ := h
  have hlow : 48 ≤ c.toNat := h₁
  have hhigh : c.toNat ≤ 57 := h₂
  have hall : ∀ n, 48 ≤ n → n ≤ 57 → Js.isSpace (Char.ofNat n) = false := by decide
  have := hall c.toNat hlow hhigh
  rwa [Char.ofNat_toNat] at this

/-- Trimming takes the blank off a number. -/
theorem trimChars_digits {ds : List Char} (h : ∀ c ∈ ds, Js.isDigit c = true) (hne : ds ≠ []) :
    Js.trimChars (' ' :: ds) = ds := by
  have hdrop : ∀ l : List Char, l ≠ [] → (∀ c ∈ l, Js.isDigit c = true) →
      l.dropWhile Js.isSpace = l := by
    intro l hl hdigits
    cases l with
    | nil => exact absurd rfl hl
    | cons c cs =>
      exact dropWhile_cons_of_neg (by
        simp [isDigit_not_isSpace (hdigits c mem_cons_self)])
  rw [Js.trimChars, dropWhile_cons_of_pos (by decide), hdrop ds hne h,
    hdrop ds.reverse (by simpa using hne) fun c hc => h c (by simpa using hc),
    reverse_reverse]

theorem isPositiveDecimal_natDigits {n : Nat} (h : 0 < n) :
    isPositiveDecimal (Json.natDigits n) = true := by
  cases hd : Json.natDigits n with
  | nil => exact absurd hd (Json.natDigits_ne_nil n)
  | cons c cs =>
    have hdigit : ∀ d ∈ c :: cs, Js.isDigit d = true := by
      intro d hm
      exact Json.isDigit_natDigits d (hd ▸ hm)
    have hzero : c ≠ '0' := by
      rintro rfl
      exact Json.head_natDigits h (by rw [hd]; rfl)
    simp only [isPositiveDecimal, Bool.and_eq_true, bne_iff_ne, ne_eq, all_eq_true]
    exact ⟨⟨hdigit c mem_cons_self, hzero⟩, fun d hm => hdigit d (mem_cons_of_mem _ hm)⟩

/-- The length of a frame is read back. -/
theorem parseContentLength_frameHeader {n : Nat} (hpos : 0 < n) (hmax : n ≤ maxFrameBytes) :
    parseContentLength (frameHeader n) = .ok n := by
  have hdigits : ∀ c ∈ Json.natDigits n, Js.isDigit c = true := Json.isDigit_natDigits
  have hcr : '\r' ∉ frameHeader n := by
    rw [frameHeader, mem_append]
    rintro (hm | hm)
    · exact absurd hm (by decide)
    · exact absurd (hdigits _ hm) (by decide)
  have hname : (frameHeader n).takeWhile (· ≠ ':') =
      ['C', 'o', 'n', 't', 'e', 'n', 't', '-', 'L', 'e', 'n', 'g', 't', 'h'] := rfl
  have hvalue : ((frameHeader n).dropWhile (· ≠ ':')).drop 1 = ' ' :: Json.natDigits n := rfl
  have hline : parseHeaderLine none (frameHeader n) = .ok (some n) := by
    unfold parseHeaderLine
    rw [if_neg (by simp [frameHeader]), if_neg (by simp [frameHeader])]
    simp only [hname, hvalue, trimChars_digits hdigits (Json.natDigits_ne_nil n)]
    rw [if_neg (by decide), if_neg (by decide), if_neg (by simp [isPositiveDecimal_natDigits hpos]),
      Json.digitsValue_natDigits, if_neg (by omega)]
  rw [parseContentLength, splitLines_of_notMem hcr]
  simp only [reverse_nil, nil_append, foldlM_cons, hline, foldlM_nil]
  rfl

/-! ### The empty line -/

theorem splitHeader_cons {b : UInt8} (h : b ≠ 13) (rest : List UInt8) :
    splitHeader (b :: rest) = (splitHeader rest).map fun p => (b :: p.1, p.2) := by
  rw [splitHeader.eq_2 _ _ (fun _ heq _ => h heq)]

theorem splitHeader_append {header : List UInt8} (h : 13 ∉ header) (rest : List UInt8) :
    splitHeader (header ++ 13 :: 10 :: 13 :: 10 :: rest) = some (header, rest) := by
  induction header with
  | nil => rw [nil_append, splitHeader]
  | cons b header ih =>
    have hb : b ≠ 13 := fun heq => h (heq ▸ mem_cons_self)
    rw [cons_append, splitHeader_cons hb, ih fun hm => h (mem_cons_of_mem _ hm)]
    rfl

theorem splitHeader_sound {bytes header rest : List UInt8}
    (h : splitHeader bytes = some (header, rest)) :
    bytes = header ++ 13 :: 10 :: 13 :: 10 :: rest := by
  fun_induction splitHeader bytes generalizing header with
  | case1 rest' => cases h; rfl
  | case2 b bytes hne ih =>
    obtain ⟨p, hp, heq⟩ := Option.map_eq_some_iff.1 h
    cases heq
    rw [cons_append, ← ih hp]
  | case3 => cases h

/-! ### Frames -/

/-- The header of a frame is ASCII text without a carriage return. -/
theorem mem_frameHeader {n : Nat} {c : Char} (h : c ∈ frameHeader n) :
    c.toNat < 0x80 ∧ c ≠ '\r' := by
  rw [frameHeader, mem_append] at h
  rcases h with h | h
  · simp only [mem_cons, not_mem_nil, or_false] at h
    rcases h with rfl | rfl | rfl | rfl | rfl | rfl | rfl | rfl | rfl | rfl | rfl | rfl | rfl |
      rfl | rfl | rfl <;> simp
  · have hdigit := Json.isDigit_natDigits c h
    constructor
    · simp only [Js.isDigit, Bool.and_eq_true, decide_eq_true_eq] at hdigit
      have hhigh : c.toNat ≤ 57 := hdigit.2
      omega
    · rintro rfl
      exact absurd hdigit (by decide)

theorem toNat_ascii {c : Char} (h : c.toNat < 0x80) : (UInt8.ofNat c.toNat).toNat = c.toNat := by
  rw [UInt8.toNat_ofNat']
  omega

theorem ascii_frameHeader (n : Nat) :
    (ascii (frameHeader n)).map (fun b => Char.ofNat b.toNat) = frameHeader n := by
  rw [ascii, map_map]
  refine (map_congr_left fun c hc => ?_).trans (map_id _)
  rw [Function.comp_apply, toNat_ascii (mem_frameHeader hc).1, Char.ofNat_toNat]
  rfl

theorem cr_notMem_ascii (n : Nat) : (13 : UInt8) ∉ ascii (frameHeader n) := by
  intro hm
  obtain ⟨c, hc, heq⟩ := mem_map.1 hm
  have hnat := congrArg UInt8.toNat heq
  rw [toNat_ascii (mem_frameHeader hc).1] at hnat
  refine (mem_frameHeader hc).2 ?_
  rw [← Char.ofNat_toNat c, hnat]
  rfl

theorem length_frameHeader {n : Nat} (h : n ≤ maxFrameBytes) :
    (ascii (frameHeader n)).length ≤ 23 := by
  have hdigits : (Json.natDigits n).length ≤ 7 := by
    rw [Json.natDigits_eq]
    exact (Nat.length_toDigits_le_iff (by decide) (by decide)).2 (by rw [maxFrameBytes] at h; omega)
  rw [ascii, length_map, frameHeader, length_append]
  simp only [length_cons, length_nil]
  omega

/-- A body a frame can carry. -/
def Carries (body : List UInt8) : Prop := body ≠ [] ∧ body.length ≤ maxFrameBytes

/-- A whole header is read, whatever follows it. -/
theorem takeFrame_header {body rest : List UInt8} (h : Carries body) :
    takeFrame (ascii (frameHeader body.length) ++ 13 :: 10 :: 13 :: 10 :: rest) =
      if rest.length < body.length then .ok none
      else .ok (some (rest.take body.length, rest.drop body.length)) := by
  have hascii : ((ascii (frameHeader body.length)).any fun b => decide (0x7F < b.toNat)) =
      false := by
    rw [any_eq_false]
    intro b hb
    obtain ⟨c, hc, rfl⟩ := mem_map.1 hb
    have := (mem_frameHeader hc).1
    rw [toNat_ascii this, decide_eq_true_eq]
    omega
  have hlen := length_frameHeader h.2
  have hpos : 0 < body.length := length_pos_iff.2 h.1
  simp only [takeFrame, splitHeader_append (cr_notMem_ascii _), hascii]
  rw [if_neg (by rw [maxHeaderBytes]; omega), if_neg (by simp), ascii_frameHeader,
    parseContentLength_frameHeader hpos h.2]
  simp only [Except.bind, bind, pure, Except.pure]

theorem takeFrame_frame {body : List UInt8} (h : Carries body) (rest : List UInt8) :
    takeFrame (frame body ++ rest) = .ok (some (body, rest)) := by
  rw [frame, append_assoc]
  simp only [cons_append]
  rw [takeFrame_header h, if_neg (by rw [length_append]; omega), take_left, drop_left]

/-! ## Streams of frames -/

/-- The bytes of a sequence of frames. -/
def stream (bodies : List (List UInt8)) : List UInt8 := bodies.flatMap frame

end BeauPi.RemoteAgent
