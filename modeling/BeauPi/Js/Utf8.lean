import Mathlib.Data.List.Basic

/-!
# UTF-8

`Buffer.from(text, "utf8")`, `Buffer.prototype.toString("utf8")` and `TextDecoder`.  The
decoder is the one of the encoding standard: it reads byte by byte and puts U+FFFD where a
sequence breaks off, and the byte that broke it starts anew.

* `Utf8.encode`, `Utf8.decode` — the two directions.
* `Utf8.decode_encode` — a text is read back.
-/

namespace BeauPi.Utf8

open List

/-! ## Encoding -/

/-- The bytes of a code point. -/
def encodePoint (n : Nat) : List UInt8 :=
  if n < 0x80 then [UInt8.ofNat n]
  else if n < 0x800 then [UInt8.ofNat (0xC0 + n / 0x40), UInt8.ofNat (0x80 + n % 0x40)]
  else if n < 0x10000 then
    [UInt8.ofNat (0xE0 + n / 0x1000), UInt8.ofNat (0x80 + n / 0x40 % 0x40),
      UInt8.ofNat (0x80 + n % 0x40)]
  else
    [UInt8.ofNat (0xF0 + n / 0x40000), UInt8.ofNat (0x80 + n / 0x1000 % 0x40),
      UInt8.ofNat (0x80 + n / 0x40 % 0x40), UInt8.ofNat (0x80 + n % 0x40)]

/-- The bytes of a text. -/
def encode (cs : List Char) : List UInt8 := cs.flatMap fun c => encodePoint c.toNat

@[simp] theorem encode_nil : encode [] = [] := rfl

theorem encode_cons (c : Char) (cs : List Char) :
    encode (c :: cs) = encodePoint c.toNat ++ encode cs := rfl

theorem encode_append (cs ds : List Char) : encode (cs ++ ds) = encode cs ++ encode ds :=
  flatMap_append

theorem length_encodePoint (n : Nat) :
    1 ≤ (encodePoint n).length ∧ (encodePoint n).length ≤ 4 := by
  unfold encodePoint
  split
  · simp
  · split
    · simp
    · split <;> simp

/-! ## Decoding -/

/-- U+FFFD -/
def replacement : Char := Char.ofNat 0xFFFD

/-- The state of the decoder: how many continuation bytes are still to come, the code point so
far, and the bounds on the next byte. -/
structure Decoder where
  needed : Nat
  codePoint : Nat
  lower : Nat
  upper : Nat
  deriving DecidableEq, Repr

/-- Between two characters. -/
def Decoder.ready : Decoder := ⟨0, 0, 0x80, 0xBF⟩

/-- The first byte of a sequence. -/
def Decoder.start (b : Nat) : Decoder × List Char :=
  if b < 0x80 then (.ready, [Char.ofNat b])
  else if 0xC2 ≤ b ∧ b ≤ 0xDF then (⟨1, b - 0xC0, 0x80, 0xBF⟩, [])
  else if 0xE0 ≤ b ∧ b ≤ 0xEF then
    (⟨2, b - 0xE0, if b = 0xE0 then 0xA0 else 0x80, if b = 0xED then 0x9F else 0xBF⟩, [])
  else if 0xF0 ≤ b ∧ b ≤ 0xF4 then
    (⟨3, b - 0xF0, if b = 0xF0 then 0x90 else 0x80, if b = 0xF4 then 0x8F else 0xBF⟩, [])
  else (.ready, [replacement])

/-- One byte. -/
def Decoder.push (d : Decoder) (b : Nat) : Decoder × List Char :=
  if d.needed = 0 then start b
  else if d.lower ≤ b ∧ b ≤ d.upper then
    let codePoint := d.codePoint * 0x40 + (b - 0x80)
    if d.needed = 1 then (.ready, [Char.ofNat codePoint])
    else (⟨d.needed - 1, codePoint, 0x80, 0xBF⟩, [])
  else
    let (d', out) := start b
    (d', replacement :: out)

/-- The rest of the input; a sequence that is not complete at the end is replaced. -/
def decodeFrom (d : Decoder) : List UInt8 → List Char
  | [] => if d.needed = 0 then [] else [replacement]
  | b :: bytes => (d.push b.toNat).2 ++ decodeFrom (d.push b.toNat).1 bytes

/-- `Buffer.prototype.toString("utf8")` -/
def decode (bytes : List UInt8) : List Char := decodeFrom .ready bytes

/-! ## The round trip -/

theorem decodeFrom_cons {d d' : Decoder} {n : Nat} {out : List Char} (hn : n < 256)
    (h : d.push n = (d', out)) (bytes : List UInt8) :
    decodeFrom d (UInt8.ofNat n :: bytes) = out ++ decodeFrom d' bytes := by
  have hb : (UInt8.ofNat n).toNat = n := by
    rw [UInt8.toNat_ofNat']
    omega
  rw [decodeFrom, hb, h]

theorem push_ready (b : Nat) : Decoder.push .ready b = Decoder.start b := if_pos rfl

theorem start_one {n : Nat} (h : n < 0x80) : Decoder.start n = (.ready, [Char.ofNat n]) := by
  rw [Decoder.start, if_pos h]

theorem start_two {k : Nat} (h₁ : 2 ≤ k) (h₂ : k < 0x20) :
    Decoder.start (0xC0 + k) = (⟨1, k, 0x80, 0xBF⟩, []) := by
  rw [Decoder.start, if_neg (by omega), if_pos (by omega), Nat.add_sub_cancel_left]

theorem start_three {k : Nat} (h : k < 0x10) :
    Decoder.start (0xE0 + k) =
      (⟨2, k, if k = 0 then 0xA0 else 0x80, if k = 0xD then 0x9F else 0xBF⟩, []) := by
  rw [Decoder.start, if_neg (by omega), if_neg (by omega), if_pos (by omega),
    Nat.add_sub_cancel_left]
  have hlow : (0xE0 + k = 0xE0) = (k = 0) := propext (by omega)
  have hhigh : (0xE0 + k = 0xED) = (k = 0xD) := propext (by omega)
  simp only [hlow, hhigh]

theorem start_four {k : Nat} (h : k < 5) :
    Decoder.start (0xF0 + k) =
      (⟨3, k, if k = 0 then 0x90 else 0x80, if k = 4 then 0x8F else 0xBF⟩, []) := by
  rw [Decoder.start, if_neg (by omega), if_neg (by omega), if_neg (by omega), if_pos (by omega),
    Nat.add_sub_cancel_left]
  have hlow : (0xF0 + k = 0xF0) = (k = 0) := propext (by omega)
  have hhigh : (0xF0 + k = 0xF4) = (k = 4) := propext (by omega)
  simp only [hlow, hhigh]

/-- A continuation byte that is not the last. -/
theorem push_continue {needed codePoint lower upper n : Nat} (hneeded : 2 ≤ needed)
    (hlower : lower ≤ 0x80 + n) (hupper : 0x80 + n ≤ upper) :
    Decoder.push ⟨needed, codePoint, lower, upper⟩ (0x80 + n) =
      (⟨needed - 1, codePoint * 0x40 + n, 0x80, 0xBF⟩, []) := by
  unfold Decoder.push
  simp only [Nat.add_sub_cancel_left]
  rw [if_neg (by omega), if_pos ⟨hlower, hupper⟩, if_neg (by omega)]

/-- The last continuation byte. -/
theorem push_last {codePoint lower upper n : Nat} (hlower : lower ≤ 0x80 + n)
    (hupper : 0x80 + n ≤ upper) :
    Decoder.push ⟨1, codePoint, lower, upper⟩ (0x80 + n) =
      (.ready, [Char.ofNat (codePoint * 0x40 + n)]) := by
  unfold Decoder.push
  simp only [Nat.add_sub_cancel_left, if_true]
  rw [if_neg (by omega), if_pos ⟨hlower, hupper⟩]

/-- The numbers that are code points of characters. -/
def isScalar (n : Nat) : Prop := n < 0xD800 ∨ (0xDFFF < n ∧ n < 0x110000)

theorem isScalar_toNat (c : Char) : isScalar c.toNat := c.valid

/-- A character is read back, whatever follows. -/
theorem decodeFrom_encodePoint {n : Nat} (hn : isScalar n) (bytes : List UInt8) :
    decodeFrom .ready (encodePoint n ++ bytes) = Char.ofNat n :: decodeFrom .ready bytes := by
  unfold isScalar at hn
  unfold encodePoint
  split
  next h1 =>
    rw [cons_append, decodeFrom_cons (by omega) ((push_ready n).trans (start_one h1))]
    rfl
  next h1 =>
  split
  next h2 =>
    have hpoint : n / 0x40 * 0x40 + n % 0x40 = n := by omega
    rw [cons_append,
      decodeFrom_cons (by omega) ((push_ready _).trans (start_two (by omega) (by omega))),
      cons_append, decodeFrom_cons (by omega) (push_last (by omega) (by omega)),
      nil_append, hpoint]
    rfl
  next h2 =>
  split
  next h3 =>
    have hpoint : (n / 0x1000 * 0x40 + n / 0x40 % 0x40) * 0x40 + n % 0x40 = n := by omega
    rw [cons_append,
      decodeFrom_cons (by omega) ((push_ready _).trans (start_three (by omega))),
      cons_append,
      decodeFrom_cons (by omega) (push_continue (Nat.le_refl 2) (by split <;> omega)
        (by split <;> omega)), cons_append,
      decodeFrom_cons (by omega) (push_last (by omega) (by omega)), nil_append, hpoint]
    rfl
  next h3 =>
    have hpoint : ((n / 0x40000 * 0x40 + n / 0x1000 % 0x40) * 0x40 + n / 0x40 % 0x40) * 0x40 +
        n % 0x40 = n := by omega
    rw [cons_append,
      decodeFrom_cons (by omega) ((push_ready _).trans (start_four (by omega))),
      cons_append,
      decodeFrom_cons (by omega) (push_continue (by omega) (by split <;> omega)
        (by split <;> omega)), cons_append,
      decodeFrom_cons (by omega) (push_continue (by omega) (by omega) (by omega)),
      cons_append, decodeFrom_cons (by omega) (push_last (by omega) (by omega)),
      nil_append, hpoint]
    rfl

/-- Whole characters at the front are decoded on their own. -/
theorem decode_encode_append (cs : List Char) (bytes : List UInt8) :
    decode (encode cs ++ bytes) = cs ++ decode bytes := by
  induction cs with
  | nil => rfl
  | cons c cs ih =>
    rw [encode_cons, append_assoc, decode, decodeFrom_encodePoint (isScalar_toNat c)]
    rw [decode] at ih
    rw [ih, Char.ofNat_toNat]
    rfl

/-- A text is read back. -/
theorem decode_encode (cs : List Char) : decode (encode cs) = cs := by
  have h := decode_encode_append cs []
  rwa [append_nil, show decode [] = [] from rfl, append_nil] at h

end BeauPi.Utf8
