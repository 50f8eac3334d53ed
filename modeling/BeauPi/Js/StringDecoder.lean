import BeauPi.Js.TextDecoder

/-!
# `StringDecoder`

`new StringDecoder("utf8")` keeps the bytes of a character that is not complete at the end of a
buffer.  A sequence that cannot become a character is replaced only when what follows shows it.

* `incompleteLength`, `StringDecoder.write`, `StringDecoder.finish` — the decoder.
* `decode_append` — where a byte sequence can be cut without changing what it is decoded to.
* `decode_write` — **what is written and what is kept make up the text.**
* `StringDecoder.Waiting.finish` — what is left at the end is replaced.
-/

namespace BeauPi.Utf8

open List
open Decoder (start)

/-! ## The decoder -/

/-- The number of bytes of the character that a byte begins. -/
def sequenceLength (b : UInt8) : Nat :=
  if b &&& 0xE0 == 0xC0 then 2
  else if b &&& 0xF0 == 0xE0 then 3
  else if b &&& 0xF8 == 0xF0 then 4
  else 0

/-- The length of the incomplete character at the end, in a buffer that is read backwards; `seen`
continuation bytes have been passed. -/
def incompleteFrom (seen : Nat) : List UInt8 → Nat
  | [] => 0
  | b :: bytes =>
    if isContinuation b then if 4 ≤ seen + 1 then 0 else incompleteFrom (seen + 1) bytes
    else if seen + 1 < sequenceLength b then seen + 1
    else 0

/-- The number of bytes at the end that belong to a character that is not complete. -/
def incompleteLength (bytes : List UInt8) : Nat := incompleteFrom 0 bytes.reverse

/-- `new StringDecoder("utf8")`: the bytes that are kept. -/
structure StringDecoder where
  buffered : List UInt8
  deriving DecidableEq, Repr

def StringDecoder.new : StringDecoder := ⟨[]⟩

/-- `write` -/
def StringDecoder.write (d : StringDecoder) (data : List UInt8) : StringDecoder × List Char :=
  let bytes := d.buffered ++ data
  let complete := bytes.length - incompleteLength bytes
  (⟨bytes.drop complete⟩, decode (bytes.take complete))

/-- `end` -/
def StringDecoder.finish (d : StringDecoder) : List Char := decode d.buffered

/-! ## Cutting byte sequences -/

variable {d : Decoder}

/-- A byte that is no continuation byte begins anew, whatever came before it. -/
theorem decodeFrom_lead {b : UInt8} (hlower : 0x80 ≤ d.lower) (hupper : d.upper ≤ 0xBF)
    (hlead : isContinuation b = false) (rest : List UInt8) :
    decodeFrom d (b :: rest) = decodeFrom d [] ++ decode (b :: rest) := by
  rw [isContinuation_iff, decide_eq_false_iff_not] at hlead
  rw [decode, decodeFrom, decodeFrom, decodeFrom, push_ready, Decoder.push]
  by_cases hneeded : d.needed = 0
  · rw [if_pos hneeded, if_pos hneeded]
    rfl
  · rw [if_neg hneeded, if_neg hneeded, if_neg (by omega)]
    rfl

/-- The state of the decoder within a character: the bytes that have been read of it, and how many
are to come. -/
structure Midway (bytes : List UInt8) (d : Decoder) : Prop where
  lower : 0x80 ≤ d.lower
  upper : d.upper ≤ 0xBF
  ready : d.needed = 0 → d = .ready
  pending : 0 < d.needed → ∃ front lead rest, bytes = front ++ lead :: rest ∧
    isContinuation lead = false ∧ (∀ b ∈ rest, isContinuation b = true) ∧
    rest.length + 1 + d.needed = sequenceLength lead

/-- What the first byte of a character tells. -/
theorem start_spec (b : UInt8) :
    0x80 ≤ (start b.toNat).1.lower ∧ (start b.toNat).1.upper ≤ 0xBF ∧
      ((start b.toNat).1.needed = 0 → (start b.toNat).1 = .ready) ∧
      (0 < (start b.toNat).1.needed → isContinuation b = false ∧
        1 + (start b.toNat).1.needed = sequenceLength b) := by
  have hall : ∀ n, n < 256 → 0x80 ≤ (start n).1.lower ∧
      (start n).1.upper ≤ 0xBF ∧
      ((start n).1.needed = 0 → (start n).1 = .ready) ∧
      (0 < (start n).1.needed → isContinuation (UInt8.ofNat n) = false ∧
        1 + (start n).1.needed = sequenceLength (UInt8.ofNat n)) := by
    decide +kernel
  have h := hall b.toNat b.toNat_lt
  rwa [UInt8.ofNat_toNat] at h

theorem midway_start (front : List UInt8) (b : UInt8) :
    Midway (front ++ [b]) (start b.toNat).1 := by
  obtain ⟨hlower, hupper, hready, hpending⟩ := start_spec b
  refine ⟨hlower, hupper, hready, fun hneeded => ?_⟩
  obtain ⟨hlead, hlength⟩ := hpending hneeded
  exact ⟨front, b, [], rfl, hlead, by simp, hlength⟩

variable {bytes : List UInt8}

/-- One byte. -/
theorem Midway.push (h : Midway bytes d) (b : UInt8) :
    Midway (bytes ++ [b]) (d.push b.toNat).1 := by
  unfold Decoder.push
  split_ifs with hneeded hwithin hlast
  · exact midway_start bytes b
  · exact ⟨Nat.le_refl _, Nat.le_refl _, fun _ => rfl, fun h => absurd h (Nat.lt_irrefl _)⟩
  · obtain ⟨front, lead, rest, rfl, hlead, hrest, hlength⟩ := h.pending (by omega)
    have hlower := h.lower
    have hupper := h.upper
    have hb : isContinuation b = true := by
      rw [isContinuation_iff, decide_eq_true_eq]
      omega
    refine ⟨Nat.le_refl _, Nat.le_refl _, fun hzero => ?_, fun _ =>
      ⟨front, lead, rest ++ [b], by simp, hlead, ?_, ?_⟩⟩
    · have : d.needed - 1 = 0 := hzero
      omega
    · intro x hx
      rcases List.mem_append.1 hx with hx | hx
      · exact hrest x hx
      · exact List.mem_singleton.1 hx ▸ hb
    · rw [length_append, length_singleton]
      simp only
      omega
  · exact midway_start bytes b

theorem pushAll_append (d : Decoder) (first second : List UInt8) :
    (d.pushAll (first ++ second)).1 = ((d.pushAll first).1.pushAll second).1 := by
  induction first generalizing d with
  | nil => rfl
  | cons b bytes ih =>
    rw [cons_append, Decoder.pushAll, Decoder.pushAll]
    exact ih _

/-- **The decoder remembers the character that it is in.** -/
theorem midway_pushAll (bytes : List UInt8) : Midway bytes (Decoder.ready.pushAll bytes).1 := by
  induction bytes using List.reverseRecOn with
  | nil => exact ⟨Nat.le_refl _, Nat.le_refl _, fun _ => rfl, fun h => absurd h (Nat.lt_irrefl _)⟩
  | append_singleton bytes b ih =>
    rw [pushAll_append]
    exact ih.push b

theorem decode_eq_pushAll (bytes : List UInt8) :
    decode bytes = (Decoder.ready.pushAll bytes).2 ++
      decodeFrom (Decoder.ready.pushAll bytes).1 [] := by
  have h := decodeFrom_append .ready bytes []
  rwa [append_nil] at h

/-- A byte sequence can be cut where the decoder is between characters, and before a byte that
begins one. -/
theorem decode_append {first second : List UInt8}
    (h : (Decoder.ready.pushAll first).1.needed = 0 ∨
      ∃ lead rest, second = lead :: rest ∧ isContinuation lead = false) :
    decode (first ++ second) = decode first ++ decode second := by
  have hmidway := midway_pushAll first
  rw [decode, decodeFrom_append, decode_eq_pushAll first, append_assoc]
  congr 1
  rcases h with hneeded | ⟨lead, rest, rfl, hlead⟩
  · rw [hmidway.ready hneeded]
    rfl
  · exact decodeFrom_lead hmidway.lower hmidway.upper hlead rest

/-! ## What is kept -/

variable {rest : List UInt8}

/-- The scan passes continuation bytes. -/
theorem incompleteFrom_append {conts : List UInt8} {seen : Nat}
    (hconts : ∀ b ∈ conts, isContinuation b = true) (hfew : seen + conts.length ≤ 3) :
    incompleteFrom seen (conts ++ rest) = incompleteFrom (seen + conts.length) rest := by
  induction conts generalizing seen with
  | nil => rfl
  | cons b conts ih =>
    rw [length_cons] at hfew
    rw [cons_append, incompleteFrom, if_pos (hconts b mem_cons_self),
      if_neg (by omega), ih (fun x hx => hconts x (mem_cons_of_mem _ hx)) (by omega),
      length_cons]
    congr 1
    omega

theorem sequenceLength_le (b : UInt8) : sequenceLength b ≤ 4 := by
  unfold sequenceLength
  split_ifs <;> omega

/-- The decoder is between characters if nothing is incomplete. -/
theorem needed_eq_zero (h : incompleteLength bytes = 0) :
    (Decoder.ready.pushAll bytes).1.needed = 0 := by
  by_contra hne
  obtain ⟨front, lead, rest, rfl, hlead, hrest, hlength⟩ :=
    (midway_pushAll bytes).pending (Nat.pos_of_ne_zero hne)
  have hle := sequenceLength_le lead
  have hreverse : (front ++ lead :: rest).reverse = rest.reverse ++ lead :: front.reverse := by
    simp
  have hscan : incompleteLength (front ++ lead :: rest) = rest.length + 1 := by
    rw [incompleteLength, hreverse, incompleteFrom_append (by simpa using hrest)
      (by rw [length_reverse]; omega), length_reverse, Nat.zero_add, incompleteFrom,
      hlead, if_neg (by decide), if_pos (by omega)]
  omega

/-- The bytes of a character of which some are missing. -/
structure Unfinished (lead : UInt8) (rest : List UInt8) : Prop where
  begins : isContinuation lead = false
  continues : ∀ b ∈ rest, isContinuation b = true
  short : rest.length + 1 < sequenceLength lead

/-- What is incomplete is an unfinished character. -/
theorem incompleteFrom_pos {seen : Nat} (h : incompleteFrom seen bytes ≠ 0) :
    ∃ conts lead rest, bytes = conts ++ lead :: rest ∧ isContinuation lead = false ∧
      (∀ b ∈ conts, isContinuation b = true) ∧
      seen + conts.length + 1 < sequenceLength lead ∧
      incompleteFrom seen bytes = seen + conts.length + 1 := by
  induction bytes generalizing seen with
  | nil => exact absurd rfl h
  | cons b bytes ih =>
    rw [incompleteFrom] at h ⊢
    split_ifs at h ⊢ with hb hfew hlong
    · exact absurd rfl h
    · obtain ⟨conts, lead, rest, rfl, hlead, hconts, hshort, hlength⟩ := ih h
      have hcons : seen + (b :: conts).length = seen + 1 + conts.length := by
        rw [length_cons]
        omega
      refine ⟨b :: conts, lead, rest, rfl, hlead, ?_, ?_, ?_⟩
      · intro x hx
        rcases List.mem_cons.1 hx with rfl | hx
        · exact hb
        · exact hconts x hx
      · rwa [hcons]
      · rwa [hcons]
    · exact ⟨[], b, bytes, rfl, by simpa using hb, by simp, hlong, rfl⟩
    · exact absurd rfl h

/-- The bytes that are complete and those that are kept. -/
theorem exists_split (bytes : List UInt8) :
    incompleteLength bytes = 0 ∨ ∃ front lead rest, bytes = front ++ lead :: rest ∧
      Unfinished lead rest ∧ bytes.length - incompleteLength bytes = front.length := by
  by_cases hzero : incompleteLength bytes = 0
  · exact .inl hzero
  · obtain ⟨conts, lead, front, hbytes, hlead, hconts, hshort, hlength⟩ := incompleteFrom_pos hzero
    have hforward : bytes = front.reverse ++ lead :: conts.reverse := by
      rw [← reverse_reverse bytes, hbytes]
      simp
    have hkept : incompleteLength bytes = conts.length + 1 := by
      rw [incompleteLength, hlength, Nat.zero_add]
    refine .inr ⟨front.reverse, lead, conts.reverse, hforward,
      ⟨hlead, by simpa using hconts, by rw [length_reverse]; omega⟩, ?_⟩
    rw [hkept, hforward]
    simp

/-- **What is written and what is kept make up the text.** -/
theorem decode_write (d : StringDecoder) (data rest : List UInt8) :
    decode (d.buffered ++ data ++ rest) =
      (d.write data).2 ++ decode ((d.write data).1.buffered ++ rest) := by
  have hsplit := take_append_drop
    ((d.buffered ++ data).length - incompleteLength (d.buffered ++ data)) (d.buffered ++ data)
  simp only [StringDecoder.write]
  rw [← decode_append, ← append_assoc, hsplit]
  rcases exists_split (d.buffered ++ data) with hzero | ⟨front, lead, kept, hbytes, hkept, hlength⟩
  · left
    rw [hzero, Nat.sub_zero, take_length]
    exact needed_eq_zero hzero
  · right
    refine ⟨lead, kept ++ rest, ?_, hkept.begins⟩
    rw [hlength, hbytes, drop_left, cons_append]

/-! ## The end -/

/-- Continuation bytes that do not finish a character are replaced. -/
theorem decodeFrom_unfinished (hrest : ∀ b ∈ rest, isContinuation b = true)
    (h : d.needed = 0 ∨ rest.length < d.needed) : ∀ c ∈ decodeFrom d rest, c = replacement := by
  induction rest generalizing d with
  | nil =>
    intro c hc
    rw [decodeFrom] at hc
    split_ifs at hc
    · exact absurd hc not_mem_nil
    · exact List.mem_singleton.1 hc
  | cons b rest ih =>
    have hb := hrest b mem_cons_self
    have hrest := fun x hx => hrest x (mem_cons_of_mem _ hx)
    rw [isContinuation_iff, decide_eq_true_eq] at hb
    have hstart : start b.toNat = (.ready, [replacement]) := by
      unfold start
      rw [if_neg (by omega), if_neg (by omega), if_neg (by omega), if_neg (by omega)]
    rw [length_cons] at h
    have hpush : ((d.push b.toNat).1.needed = 0 ∨ rest.length < (d.push b.toNat).1.needed) ∧
        ∀ c ∈ (d.push b.toNat).2, c = replacement := by
      unfold Decoder.push
      rw [hstart]
      split_ifs with hneeded hwithin hlast
      · exact ⟨.inl rfl, by simp⟩
      · omega
      · exact ⟨.inr (by simp only; omega), by simp⟩
      · exact ⟨.inl rfl, by simp⟩
    intro c hc
    rw [decodeFrom] at hc
    rcases List.mem_append.1 hc with hc | hc
    · exact hpush.2 c hc
    · exact ih hrest hpush.1 c hc

theorem Unfinished.decode {lead : UInt8} (h : Unfinished lead rest) :
    ∀ c ∈ Utf8.decode (lead :: rest), c = replacement := by
  have hall : ∀ n, n < 256 → 1 < sequenceLength (UInt8.ofNat n) →
      ((start n).1.needed = 0 ∨
        (start n).1.needed + 1 = sequenceLength (UInt8.ofNat n)) ∧
      ((start n).2 = [] ∨ (start n).2 = [replacement]) := by
    decide +kernel
  have hlead := hall lead.toNat lead.toNat_lt
  have hshort := h.short
  simp only [UInt8.ofNat_toNat] at hlead
  obtain ⟨hneeded, hout⟩ := hlead (by omega)
  intro c hc
  rw [Utf8.decode, decodeFrom, push_ready] at hc
  rcases List.mem_append.1 hc with hc | hc
  · rcases hout with hout | hout
    · rw [hout] at hc
      exact absurd hc not_mem_nil
    · rw [hout] at hc
      exact List.mem_singleton.1 hc
  · exact decodeFrom_unfinished h.continues (by omega) c hc

/-- Nothing or an unfinished character is kept. -/
def StringDecoder.Waiting (d : StringDecoder) : Prop :=
  d.buffered = [] ∨ ∃ lead rest, d.buffered = lead :: rest ∧ Unfinished lead rest

theorem waiting_write (d : StringDecoder) (data : List UInt8) : (d.write data).1.Waiting := by
  unfold StringDecoder.Waiting
  simp only [StringDecoder.write]
  rcases exists_split (d.buffered ++ data) with hzero | ⟨front, lead, kept, hbytes, hkept, hlength⟩
  · left
    rw [hzero, Nat.sub_zero, drop_length]
  · right
    refine ⟨lead, kept, ?_, hkept⟩
    rw [hlength, hbytes, drop_left]

/-- **What is left at the end is replaced.** -/
theorem StringDecoder.Waiting.finish {d : StringDecoder} (h : d.Waiting) :
    ∀ c ∈ d.finish, c = replacement := by
  unfold StringDecoder.finish
  rcases h with hnil | ⟨lead, rest, hbuffered, hunfinished⟩
  · rw [hnil]
    exact fun c hc => absurd hc not_mem_nil
  · rw [hbuffered]
    exact hunfinished.decode

end BeauPi.Utf8
