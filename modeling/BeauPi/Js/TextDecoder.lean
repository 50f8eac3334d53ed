import Mathlib.Data.List.Induction
import BeauPi.Js.Utf8

/-!
# Decoding a stream, and cutting encoded texts

* `TextDecoder` — `new TextDecoder()`, fed with `decode(data, { stream: true })`.
* `flatten_pieces` — the pieces a stream is decoded to make up the decoded stream.
* `tailWithin` — the longest end of a text within a number of bytes, which is what skipping
  continuation bytes leads to.
-/

namespace BeauPi.Utf8

open List

/-! ## Streams -/

/-- The next bytes of the input. -/
def Decoder.pushAll (d : Decoder) : List UInt8 → Decoder × List Char
  | [] => (d, [])
  | b :: bytes =>
    let (d₁, out) := d.push b.toNat
    let (d₂, rest) := d₁.pushAll bytes
    (d₂, out ++ rest)

theorem decodeFrom_append (d : Decoder) (first second : List UInt8) :
    decodeFrom d (first ++ second) =
      (d.pushAll first).2 ++ decodeFrom (d.pushAll first).1 second := by
  induction first generalizing d with
  | nil => rfl
  | cons b bytes ih =>
    rw [cons_append, decodeFrom, ih, Decoder.pushAll]
    simp only [append_assoc]

/-- U+FEFF -/
def byteOrderMark : Char := Char.ofNat 0xFEFF

/-- `new TextDecoder()`: the decoder and whether anything has come out of it yet. -/
structure TextDecoder where
  decoder : Decoder
  bomSeen : Bool
  deriving DecidableEq, Repr

def TextDecoder.new : TextDecoder := ⟨.ready, false⟩

/-- The characters that come out, without a byte order mark at the very front. -/
def dropMark (bomSeen : Bool) (cs : List Char) : List Char :=
  if bomSeen = false ∧ cs.head? = some byteOrderMark then cs.tail else cs

/-- `decode(data, { stream: true })` -/
def TextDecoder.decodeStream (t : TextDecoder) (data : List UInt8) : TextDecoder × List Char :=
  let (decoder, cs) := t.decoder.pushAll data
  (⟨decoder, t.bomSeen || !cs.isEmpty⟩, dropMark t.bomSeen cs)

/-- `decode()`, which ends the stream. -/
def TextDecoder.flush (t : TextDecoder) : List Char := dropMark t.bomSeen (decodeFrom t.decoder [])

/-- `new TextDecoder().decode(bytes)` -/
def decodeText (bytes : List UInt8) : List Char := dropMark false (decode bytes)

/-- What the calls of `decode` return for the chunks of a stream and for its end. -/
def TextDecoder.pieces (t : TextDecoder) : List (List UInt8) → List (List Char)
  | [] => [t.flush]
  | data :: chunks => (t.decodeStream data).2 :: (t.decodeStream data).1.pieces chunks

theorem dropMark_append (bomSeen : Bool) (cs ds : List Char) :
    dropMark bomSeen (cs ++ ds) = dropMark bomSeen cs ++ dropMark (bomSeen || !cs.isEmpty) ds := by
  cases cs with
  | nil => simp [dropMark]
  | cons c cs =>
    simp only [dropMark, cons_append, head?_cons, tail_cons, isEmpty_cons,
      Bool.not_false, Bool.or_true]
    by_cases h : bomSeen = false ∧ c = byteOrderMark <;> simp [h]

theorem TextDecoder.flatten_pieces_from (t : TextDecoder) (chunks : List (List UInt8)) :
    (t.pieces chunks).flatten = dropMark t.bomSeen (decodeFrom t.decoder chunks.flatten) := by
  induction chunks generalizing t with
  | nil => simp [pieces, flush]
  | cons data chunks ih =>
    rw [pieces, flatten_cons, ih, flatten_cons, decodeFrom_append, dropMark_append]
    rfl

/-- **The pieces make up the decoded stream.** -/
theorem flatten_pieces (chunks : List (List UInt8)) :
    (TextDecoder.new.pieces chunks).flatten = decodeText chunks.flatten :=
  TextDecoder.flatten_pieces_from .new chunks

/-! ## Lengths -/

/-- `Buffer.byteLength(text, "utf-8")` -/
def byteLength (cs : List Char) : Nat := (encode cs).length

@[simp] theorem byteLength_nil : byteLength [] = 0 := rfl

theorem byteLength_cons (c : Char) (cs : List Char) :
    byteLength (c :: cs) = (encodePoint c.toNat).length + byteLength cs := by
  rw [byteLength, encode_cons, length_append, byteLength]

@[simp] theorem byteLength_append (cs ds : List Char) :
    byteLength (cs ++ ds) = byteLength cs + byteLength ds := by
  rw [byteLength, encode_append, length_append, byteLength, byteLength]

theorem byteLength_newline (cs : List Char) : byteLength ('\n' :: cs) = byteLength cs + 1 := by
  rw [byteLength_cons, Nat.add_comm]
  rfl

theorem byteLength_pos {cs : List Char} (h : cs ≠ []) : 0 < byteLength cs := by
  cases cs with
  | nil => exact absurd rfl h
  | cons c cs =>
    have := (length_encodePoint c.toNat).1
    rw [byteLength_cons]
    omega

/-! ## Cutting at a character -/

/-- `(byte & 0xc0) === 0x80` -/
def isContinuation (b : UInt8) : Bool := b &&& 0xC0 == 0x80

/-- The first index from `start` on that is no continuation byte. -/
def skipContinuation (buffer : List UInt8) (start : Nat) : Nat :=
  start + ((buffer.drop start).takeWhile isContinuation).length

/-- The longest end of a text whose encoding has at most `limit` bytes. -/
def tailWithin (limit : Nat) : List Char → List Char
  | [] => []
  | c :: cs => if byteLength (c :: cs) ≤ limit then c :: cs else tailWithin limit cs

theorem isContinuation_iff (b : UInt8) :
    isContinuation b = decide (0x80 ≤ b.toNat ∧ b.toNat < 0xC0) := by
  have hall : ∀ n : Fin 256, isContinuation (UInt8.ofNat n.val) =
      decide (0x80 ≤ n.val ∧ n.val < 0xC0) := by decide +kernel
  have h := hall ⟨b.toNat, b.toNat_lt⟩
  rwa [UInt8.ofNat_toNat] at h

/-- A character starts with a byte that is no continuation byte, and has only such behind it. -/
theorem encodePoint_shape (c : Char) :
    ∃ b rest, encodePoint c.toNat = b :: rest ∧ isContinuation b = false ∧
      ∀ x ∈ rest, isContinuation x = true := by
  have hlow : ∀ n, n < 0x80 → isContinuation (UInt8.ofNat n) = false := by
    intro n hn
    rw [isContinuation_iff, UInt8.toNat_ofNat']
    simp only [decide_eq_false_iff_not]
    omega
  have hlead : ∀ n, 0xC0 ≤ n → n < 0x100 → isContinuation (UInt8.ofNat n) = false := by
    intro n hn hlt
    rw [isContinuation_iff, UInt8.toNat_ofNat']
    simp only [decide_eq_false_iff_not]
    omega
  have hcont : ∀ n, n < 0x40 → isContinuation (UInt8.ofNat (0x80 + n)) = true := by
    intro n hn
    rw [isContinuation_iff, UInt8.toNat_ofNat']
    simp only [decide_eq_true_eq]
    omega
  have hscalar : c.toNat < 0x110000 := by
    have := isScalar_toNat c
    unfold isScalar at this
    omega
  unfold encodePoint
  split_ifs with h1 h2 h3
  · exact ⟨_, [], rfl, hlow _ h1, by simp⟩
  · refine ⟨_, _, rfl, hlead _ (by omega) (by omega), ?_⟩
    simp only [forall_mem_cons]
    exact ⟨hcont _ (by omega), by simp⟩
  · refine ⟨_, _, rfl, hlead _ (by omega) (by omega), ?_⟩
    simp only [forall_mem_cons]
    exact ⟨hcont _ (by omega), hcont _ (by omega), by simp⟩
  · refine ⟨_, _, rfl, hlead _ (by omega) (by omega), ?_⟩
    simp only [forall_mem_cons]
    exact ⟨hcont _ (by omega), hcont _ (by omega), hcont _ (by omega), by simp⟩

/-- The characters that start at an index of the encoding or behind it. -/
def charsFrom : Nat → List Char → List Char
  | _, [] => []
  | start, c :: cs =>
    if start = 0 then c :: cs else charsFrom (start - (encodePoint c.toNat).length) cs

theorem dropWhile_encode (cs : List Char) : (encode cs).dropWhile isContinuation = encode cs := by
  cases cs with
  | nil => rfl
  | cons c cs =>
    obtain ⟨b, rest, heq, hb, -⟩ := encodePoint_shape c
    rw [encode_cons, heq, cons_append, dropWhile_cons_of_neg (by simp [hb])]

/-- Skipping continuation bytes leads to the next character. -/
theorem dropWhile_drop_encode (start : Nat) (cs : List Char) :
    ((encode cs).drop start).dropWhile isContinuation = encode (charsFrom start cs) := by
  induction cs generalizing start with
  | nil => simp [charsFrom]
  | cons c cs ih =>
    rw [charsFrom]
    split_ifs with hzero
    · rw [hzero, drop_zero, dropWhile_encode]
    · obtain ⟨b, rest, heq, -, hrest⟩ := encodePoint_shape c
      obtain ⟨start, rfl⟩ : ∃ k, start = k + 1 := ⟨start - 1, by omega⟩
      have hall : ∀ x ∈ (encodePoint c.toNat).drop (start + 1), isContinuation x = true := by
        rw [heq, drop_succ_cons]
        exact fun x hx => hrest x (mem_of_mem_drop hx)
      rw [encode_cons, drop_append, dropWhile_append_of_pos hall, ih]

/-- The characters behind all but `limit` bytes are the longest end within the limit. -/
theorem charsFrom_eq (limit : Nat) (cs : List Char) :
    charsFrom (byteLength cs - limit) cs = tailWithin limit cs := by
  induction cs with
  | nil => rfl
  | cons c cs ih =>
    rw [charsFrom, tailWithin, ← ih]
    by_cases hle : byteLength (c :: cs) ≤ limit
    · rw [if_pos (by omega), if_pos hle]
    · rw [if_neg (by omega), if_neg hle, byteLength_cons,
        show (encodePoint c.toNat).length + byteLength cs - limit - (encodePoint c.toNat).length =
          byteLength cs - limit by omega]

/-- Cutting the encoding at a character leaves the encoding of the longest end within the limit. -/
theorem drop_skipContinuation (limit : Nat) (cs : List Char) :
    (encode cs).drop (skipContinuation (encode cs) (byteLength cs - limit)) =
      encode (tailWithin limit cs) := by
  have hskip : ∀ l : List UInt8, l.drop (l.takeWhile isContinuation).length =
      l.dropWhile isContinuation := by
    intro l
    calc l.drop (l.takeWhile isContinuation).length
        = (l.takeWhile isContinuation ++ l.dropWhile isContinuation).drop
            (l.takeWhile isContinuation).length := by rw [takeWhile_append_dropWhile]
      _ = l.dropWhile isContinuation := drop_left
  rw [skipContinuation, ← drop_drop, hskip, dropWhile_drop_encode, charsFrom_eq]

/-- **What is left is the longest end within the limit.** -/
theorem decode_skipContinuation (limit : Nat) (cs : List Char) :
    decode ((encode cs).drop (skipContinuation (encode cs) (byteLength cs - limit))) =
      tailWithin limit cs := by
  rw [drop_skipContinuation, decode_encode]

/-- The cut falls behind the characters that are left out. -/
theorem skipContinuation_eq {limit : Nat} {cut kept : List Char}
    (h : tailWithin limit (cut ++ kept) = kept) :
    skipContinuation (encode (cut ++ kept)) (byteLength (cut ++ kept) - limit) =
      byteLength cut := by
  have hlength := congrArg List.length (drop_skipContinuation limit (cut ++ kept))
  rw [h, length_drop] at hlength
  have hle : skipContinuation (encode (cut ++ kept)) (byteLength (cut ++ kept) - limit) ≤
      byteLength (cut ++ kept) := by
    have htake : ∀ l : List UInt8, (l.takeWhile isContinuation).length ≤ l.length :=
      fun l => (List.takeWhile_prefix _).length_le
    have := htake ((encode (cut ++ kept)).drop (byteLength (cut ++ kept) - limit))
    rw [length_drop] at this
    unfold skipContinuation byteLength at *
    omega
  have hsum := byteLength_append cut kept
  unfold byteLength at *
  omega

theorem tailWithin_suffix (limit : Nat) (cs : List Char) : tailWithin limit cs <:+ cs := by
  induction cs with
  | nil => exact suffix_refl _
  | cons c cs ih =>
    rw [tailWithin]
    split_ifs
    · exact suffix_refl _
    · exact ih.trans (suffix_cons c cs)

theorem byteLength_tailWithin_le (limit : Nat) (cs : List Char) :
    byteLength (tailWithin limit cs) ≤ limit := by
  induction cs with
  | nil => exact Nat.zero_le _
  | cons c cs ih =>
    rw [tailWithin]
    split_ifs with h
    · exact h
    · exact ih

/-- A character has at most four bytes, so at most three are left unused. -/
theorem lt_byteLength_tailWithin {limit : Nat} {cs : List Char} (h : limit < byteLength cs) :
    limit < byteLength (tailWithin limit cs) + 4 := by
  induction cs with
  | nil => simp at h
  | cons c cs ih =>
    rw [tailWithin, if_neg (by omega)]
    by_cases hle : byteLength cs ≤ limit
    · have hsame : tailWithin limit cs = cs := by
        cases cs with
        | nil => rfl
        | cons d ds => rw [tailWithin, if_pos hle]
      have := (length_encodePoint c.toNat).2
      rw [byteLength_cons] at h
      rw [hsame]
      omega
    · exact ih (by omega)

/-- What lies before an end of more than `limit` bytes does not matter. -/
theorem tailWithin_append {limit : Nat} {cs : List Char} (ds : List Char)
    (h : limit < byteLength cs) : tailWithin limit (ds ++ cs) = tailWithin limit cs := by
  induction ds with
  | nil => rfl
  | cons d ds ih =>
    rw [cons_append, tailWithin, if_neg, ih]
    rw [byteLength_cons, byteLength_append]
    omega

/-- The last byte of a character is a newline exactly when the character is one. -/
theorem getLast?_encodePoint_newline (c : Char) :
    (encodePoint c.toNat).getLast? = some 0x0A ↔ c = '\n' := by
  have hbyte : ∀ n < 256, UInt8.ofNat n = 0x0A ↔ n = 10 := by
    intro n hn
    rw [← UInt8.toNat_inj, UInt8.toNat_ofNat']
    simp only [UInt8.reduceToNat]
    omega
  have hchar : c = '\n' ↔ c.toNat = 10 := by
    rw [← Char.toNat_inj]
    rfl
  rw [hchar]
  unfold encodePoint
  split_ifs with h1 h2 h3
  · rw [getLast?_singleton, Option.some.injEq, hbyte _ (by omega)]
  · simp only [getLast?_cons_cons, getLast?_singleton, Option.some.injEq]
    rw [hbyte _ (by omega)]
    omega
  · simp only [getLast?_cons_cons, getLast?_singleton, Option.some.injEq]
    rw [hbyte _ (by omega)]
    omega
  · simp only [getLast?_cons_cons, getLast?_singleton, Option.some.injEq]
    rw [hbyte _ (by omega)]
    omega

/-- The last byte of a text is a newline exactly when its last character is one. -/
theorem getLast?_encode_newline (cs : List Char) :
    (encode cs).getLast? = some 0x0A ↔ cs.getLast? = some '\n' := by
  induction cs using List.reverseRecOn with
  | nil => simp
  | append_singleton cs c _ =>
    have hne : encodePoint c.toNat ≠ [] := ne_nil_of_length_pos (length_encodePoint _).1
    rw [encode_append, show encode [c] = encodePoint c.toNat from append_nil _,
      getLast?_append_of_ne_nil _ hne, getLast?_encodePoint_newline, getLast?_concat,
      Option.some.injEq]

end BeauPi.Utf8
