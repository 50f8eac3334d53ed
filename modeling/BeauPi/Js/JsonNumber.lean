import BeauPi.Js.JsonParse
import Mathlib.Tactic.FieldSimp
import Mathlib.Tactic.Ring
import Mathlib.Algebra.Order.Field.Rat

/-!
# JSON numbers, written and read again

`Number::toString` prints a number in one of four notations.  What it prints for a number
whose decimal expansion ends is a JSON number, and denotes the number again.

* `isDecimal` — the decimal expansion of a positive number ends.
* `NumberEnds` — a text that does not go on with a number.
* `readUnsigned_positiveToString` — **a printed number is read back**.
-/

namespace BeauPi.Json

open List

/-! ## Digits -/

/-- A text that does not go on with digits. -/
def DigitsEnd (rest : List Char) : Prop := ∀ c ∈ rest.head?, Js.isDigit c = false

/-- A text that does not go on with a number. -/
def NumberEnds (rest : List Char) : Prop :=
  ∀ c ∈ rest.head?, Js.isDigit c = false ∧ c ≠ '.' ∧ c ≠ 'e' ∧ c ≠ 'E'

theorem NumberEnds.digitsEnd {rest : List Char} (h : NumberEnds rest) : DigitsEnd rest :=
  fun c hc => (h c hc).1

theorem takeWhile_digits {digits rest : List Char} (hdigits : ∀ c ∈ digits, Js.isDigit c = true)
    (hrest : DigitsEnd rest) :
    (digits ++ rest).takeWhile Js.isDigit = digits ∧
      (digits ++ rest).dropWhile Js.isDigit = rest := by
  have hstop : rest.takeWhile Js.isDigit = [] ∧ rest.dropWhile Js.isDigit = rest := by
    cases rest with
    | nil => exact ⟨rfl, rfl⟩
    | cons c rest =>
      have hc := hrest c rfl
      simp [hc]
  rw [takeWhile_append_of_pos hdigits, dropWhile_append_of_pos hdigits, hstop.1, hstop.2]
  simp

theorem digitsValue_eq (cs : List Char) : digitsValue cs = Nat.ofDigitChars 10 cs 0 := by
  unfold digitsValue
  rw [Nat.ofDigitChars_eq_foldl]
  congr
  funext n c
  rw [Nat.mul_comm]
  rfl

theorem digitsValue_append (cs ds : List Char) :
    digitsValue (cs ++ ds) = digitsValue cs * 10 ^ ds.length + digitsValue ds := by
  rw [digitsValue_eq, digitsValue_eq, digitsValue_eq, Nat.ofDigitChars_append,
    Nat.ofDigitChars_eq_ofDigitChars_zero, Nat.mul_comm]

@[simp] theorem digitsValue_zeros (n : Nat) : digitsValue (zeros n) = 0 := by
  rw [digitsValue_eq, zeros, Nat.ofDigitChars_replicate_zero, Nat.mul_zero]

/-- The decimal digits of a natural number. -/
def natDigits (n : Nat) : List Char := (toString n).toList

theorem natDigits_eq (n : Nat) : natDigits n = Nat.toDigits 10 n := by
  simp [natDigits]

@[simp] theorem digitsValue_natDigits (n : Nat) : digitsValue (natDigits n) = n := by
  rw [digitsValue_eq, natDigits_eq, Nat.ofDigitChars_ten_toDigits]

theorem isDigit_eq (c : Char) : Js.isDigit c = c.isDigit := by
  rfl

theorem isDigit_natDigits {n : Nat} : ∀ c ∈ natDigits n, Js.isDigit c = true := by
  intro c hc
  rw [natDigits_eq] at hc
  rw [isDigit_eq]
  exact Nat.isDigit_of_mem_toDigits (by decide) (by decide) hc

theorem isDigit_zeros {n : Nat} : ∀ c ∈ zeros n, Js.isDigit c = true := by
  intro c hc
  rw [eq_of_mem_replicate hc]
  decide

theorem natDigits_ne_nil (n : Nat) : natDigits n ≠ [] := by
  rw [natDigits_eq]
  exact Nat.toDigits_ne_nil

/-- A positive number does not start with a zero. -/
theorem head_natDigits {n : Nat} (h : 0 < n) : (natDigits n).head? ≠ some '0' := by
  rw [natDigits_eq]
  induction n using Nat.strongRecOn with
  | ind n ih =>
    rcases Nat.lt_or_ge n 10 with hlt | hge
    · rw [Nat.toDigits_of_lt_base hlt]
      have : ∀ m < 10, 0 < m → [Nat.digitChar m].head? ≠ some '0' := by decide
      exact this n hlt h
    · rw [Nat.toDigits_of_base_le (by decide) hge]
      have hhead := ih (n / 10) (Nat.div_lt_self h (by decide)) (Nat.div_pos hge (by decide))
      rwa [head?_append_of_ne_nil _ Nat.toDigits_ne_nil]

/-! ## Reading a number -/

/-- The digits before the point: no zero before other digits. -/
structure IntDigits (digits : List Char) : Prop where
  all : ∀ c ∈ digits, Js.isDigit c = true
  ne_nil : digits ≠ []
  head : digits.head? = some '0' → digits.length ≤ 1

/-- The integer part of a number below one. -/
theorem intDigits_zero : IntDigits ['0'] where
  all := by simp [Js.isDigit]
  ne_nil := cons_ne_nil _ _
  head := by simp

/-- The text of a fraction. -/
def fractionText : List Char → List Char
  | [] => []
  | frac => '.' :: frac

/-- The text of an exponent. -/
def exponentText : Option (Bool × List Char) → List Char
  | none => []
  | some (neg, digits) => 'e' :: (if neg then '-' else '+') :: digits

/-- The factor that an exponent stands for. -/
def exponentValue : Option (Bool × List Char) → ℚ
  | none => 1
  | some (false, digits) => 10 ^ digitsValue digits
  | some (true, digits) => (10 ^ digitsValue digits)⁻¹

variable {int rest : List Char}

theorem digitsEnd_exponentText (exponent : Option (Bool × List Char)) (hrest : NumberEnds rest) :
    DigitsEnd (exponentText exponent ++ rest) := by
  cases exponent with
  | none => exact hrest.digitsEnd
  | some pair =>
    rintro c hc
    cases hc
    decide

theorem digitsEnd_fractionText (frac : List Char) (exponent : Option (Bool × List Char))
    (hrest : NumberEnds rest) :
    DigitsEnd (fractionText frac ++ (exponentText exponent ++ rest)) := by
  cases frac with
  | nil => exact digitsEnd_exponentText exponent hrest
  | cons d frac =>
    rintro c hc
    cases hc
    decide

/-- **The reader of numbers** on a number in any notation. -/
theorem readUnsigned_eq (frac : List Char) (exponent : Option (Bool × List Char))
    (hint : IntDigits int) (hfrac : ∀ c ∈ frac, Js.isDigit c = true)
    (hexponent : ∀ pair ∈ exponent, pair.2 ≠ [] ∧ ∀ c ∈ pair.2, Js.isDigit c = true)
    (hrest : NumberEnds rest) :
    readUnsigned (int ++ (fractionText frac ++ (exponentText exponent ++ rest))) =
      some (digitsValue (int ++ frac) / 10 ^ frac.length * exponentValue exponent, rest) := by
  obtain ⟨htake, hdrop⟩ := takeWhile_digits hint.all
    (digitsEnd_fractionText frac exponent hrest)
  have hstart : ¬(int.isEmpty = true ∨ int.head? = some '0' ∧ 1 < int.length) := by
    rintro (hempty | ⟨hzero, hlong⟩)
    · exact hint.ne_nil (isEmpty_iff.1 hempty)
    · have := hint.head hzero
      omega
  unfold readUnsigned
  simp only [htake, hdrop]
  rw [if_neg hstart]
  cases frac with
  | nil =>
    simp only [fractionText, nil_append]
    cases exponent with
    | none =>
      cases rest with
      | nil => simp [exponentText, exponentValue]
      | cons c rest =>
        obtain ⟨-, hdot, he, hE⟩ := hrest c rfl
        simp [exponentText, exponentValue, hdot, he, hE]
    | some pair =>
      obtain ⟨neg, digits⟩ := pair
      obtain ⟨hne, hdigits⟩ := hexponent (neg, digits) rfl
      obtain ⟨htake, hdrop⟩ := takeWhile_digits hdigits hrest.digitsEnd
      cases neg with
      | false => simp [exponentText, exponentValue, htake, hdrop, hne]
      | true => simp [exponentText, exponentValue, htake, hdrop, hne, div_eq_mul_inv]
  | cons d frac =>
    obtain ⟨htake, hdrop⟩ := takeWhile_digits hfrac (digitsEnd_exponentText exponent hrest)
    simp only [cons_append] at htake hdrop
    simp only [fractionText, cons_append, htake, hdrop]
    cases exponent with
    | none =>
      cases rest with
      | nil => simp [exponentText, exponentValue]
      | cons c rest =>
        obtain ⟨-, -, he, hE⟩ := hrest c rfl
        simp [exponentText, exponentValue, he, hE]
    | some pair =>
      obtain ⟨neg, digits⟩ := pair
      obtain ⟨hne, hdigits⟩ := hexponent (neg, digits) rfl
      obtain ⟨htake, hdrop⟩ := takeWhile_digits hdigits hrest.digitsEnd
      cases neg with
      | false => simp [exponentText, exponentValue, htake, hdrop, hne]
      | true => simp [exponentText, exponentValue, htake, hdrop, hne, div_eq_mul_inv]

/-! ## The notations -/

/-- The decimal expansion of a positive number ends: scaled up by a power of ten it is a natural
number. -/
def isDecimal (q : ℚ) : Bool :=
  decide (((scaleUp q.den q 0).1 : ℚ) / 10 ^ (scaleUp q.den q 0).2 = q)

theorem dropZeros_spec (fuel s k : Nat) :
    (dropZeros fuel s k).1 * 10 ^ (dropZeros fuel s k).2 = s * 10 ^ k ∧
      (0 < s → 0 < (dropZeros fuel s k).1) := by
  induction fuel generalizing s k with
  | zero => exact ⟨rfl, id⟩
  | succ fuel ih =>
    unfold dropZeros
    split_ifs with hzero
    · obtain ⟨hvalue, hpos⟩ := ih (s / 10) (k + 1)
      have hs : s = s / 10 * 10 := by omega
      refine ⟨?_, fun _ => hpos (by omega)⟩
      rw [hvalue, pow_succ]
      calc s / 10 * (10 ^ k * 10) = s / 10 * 10 * 10 ^ k := by ring
        _ = s * 10 ^ k := by rw [← hs]
    · exact ⟨rfl, id⟩

/-- A number with the digits of `s`, times ten to the power of `up - down`. -/
def scientific (s up down : Nat) : ℚ := s * 10 ^ up / 10 ^ down

theorem scientific_eq {s up down a b : Nat} (h : up + b = down + a) :
    scientific s up down = s * 10 ^ a / 10 ^ b := by
  have hpow : (10 : ℚ) ^ up * 10 ^ b = 10 ^ down * 10 ^ a := by rw [← pow_add, ← pow_add, h]
  unfold scientific
  rw [div_eq_div_iff (pow_ne_zero _ (by norm_num)) (pow_ne_zero _ (by norm_num))]
  calc (s : ℚ) * 10 ^ up * 10 ^ b = s * (10 ^ up * 10 ^ b) := by ring
    _ = s * (10 ^ down * 10 ^ a) := by rw [hpow]
    _ = s * 10 ^ a * 10 ^ down := by ring

/-- The digits of a decimal number. -/
theorem positive_digits {q : ℚ} (hq : 0 < q) (hdecimal : isDecimal q = true) :
    ∃ s up, 0 < s ∧ dropZeros (scaleUp q.den q 0).1 (scaleUp q.den q 0).1 0 = (s, up) ∧
      q = scientific s up (scaleUp q.den q 0).2 := by
  have hvalue : ((scaleUp q.den q 0).1 : ℚ) / 10 ^ (scaleUp q.den q 0).2 = q := by
    simpa [isDecimal] using hdecimal
  generalize scaleUp q.den q 0 = scaled at hvalue ⊢
  obtain ⟨hdrop, hpos⟩ := dropZeros_spec scaled.1 scaled.1 0
  have hscaled : 0 < scaled.1 := by
    rcases Nat.eq_zero_or_pos scaled.1 with hzero | hpos
    · rw [hzero] at hvalue
      simp at hvalue
      rw [← hvalue] at hq
      exact absurd hq (lt_irrefl 0)
    · exact hpos
  refine ⟨_, _, hpos hscaled, rfl, ?_⟩
  rw [pow_zero, mul_one] at hdrop
  rw [← hvalue, scientific, ← Nat.cast_ofNat, ← Nat.cast_pow, ← Nat.cast_pow, ← Nat.cast_mul, hdrop]

/-- The digits of a positive number can stand before the point. -/
theorem intDigits_natDigits_append {s : Nat} (hs : 0 < s) (m : Nat) :
    IntDigits (natDigits s ++ zeros m) := by
  refine ⟨?_, by simp [natDigits_ne_nil], ?_⟩
  · intro c hc
    exact (mem_append.1 hc).elim (isDigit_natDigits c) (isDigit_zeros c)
  · intro hhead
    rw [head?_append_of_ne_nil _ (natDigits_ne_nil s)] at hhead
    exact absurd hhead (head_natDigits hs)

theorem intDigits_take {s m : Nat} (hs : 0 < s) (hm : 0 < m) :
    IntDigits ((natDigits s).take m) := by
  refine ⟨fun c hc => isDigit_natDigits c (mem_of_mem_take hc), ?_, ?_⟩
  · rw [Ne, take_eq_nil_iff]
    rintro (rfl | hnil)
    · exact Nat.lt_irrefl 0 hm
    · exact natDigits_ne_nil s hnil
  · intro hhead
    rw [head?_take, if_neg (by omega)] at hhead
    exact absurd hhead (head_natDigits hs)

variable {s up down m : Nat}

/-- Plain notation of an integer. -/
theorem readUnsigned_integer (hs : 0 < s) (hm : up = down + m) (hrest : NumberEnds rest) :
    readUnsigned (natDigits s ++ zeros m ++ rest) = some (scientific s up down, rest) := by
  have h := readUnsigned_eq [] none (intDigits_natDigits_append hs m) (by simp) (by simp) hrest
  simp only [fractionText, exponentText, nil_append, exponentValue] at h
  rw [h, scientific_eq (show up + 0 = down + m by omega)]
  have hlength : (zeros m).length = m := length_replicate
  simp [digitsValue_append, hlength]

/-- Plain notation with a point among the digits. -/
theorem readUnsigned_point (hs : 0 < s) (hm : 0 < m) (hlt : m < (natDigits s).length)
    (hdown : down = up + ((natDigits s).length - m)) (hrest : NumberEnds rest) :
    readUnsigned ((natDigits s).take m ++ ['.'] ++ (natDigits s).drop m ++ rest) =
      some (scientific s up down, rest) := by
  have hfrac : ∀ c ∈ (natDigits s).drop m, Js.isDigit c = true :=
    fun c hc => isDigit_natDigits c (mem_of_mem_drop hc)
  have htext : fractionText ((natDigits s).drop m) = '.' :: (natDigits s).drop m := by
    cases hdrop : (natDigits s).drop m with
    | nil => rw [drop_eq_nil_iff] at hdrop; omega
    | cons d frac => rfl
  have h := readUnsigned_eq ((natDigits s).drop m) none (intDigits_take hs hm) hfrac (by simp) hrest
  simp only [htext, exponentText, nil_append, exponentValue] at h
  rw [show (natDigits s).take m ++ ['.'] ++ (natDigits s).drop m ++ rest =
    (natDigits s).take m ++ ('.' :: (natDigits s).drop m ++ rest) by simp, h,
    scientific_eq (show up + ((natDigits s).length - m) = down + 0 by omega),
    take_append_drop, digitsValue_natDigits, length_drop]
  simp

/-- Plain notation of a number below one. -/
theorem readUnsigned_small (hdown : down = up + (m + (natDigits s).length))
    (hrest : NumberEnds rest) :
    readUnsigned ('0' :: '.' :: (zeros m ++ natDigits s) ++ rest) =
      some (scientific s up down, rest) := by
  have hzero := intDigits_zero
  have hfrac : ∀ c ∈ zeros m ++ natDigits s, Js.isDigit c = true :=
    fun c hc => (mem_append.1 hc).elim (isDigit_zeros c) (isDigit_natDigits c)
  have htext : fractionText (zeros m ++ natDigits s) = '.' :: (zeros m ++ natDigits s) := by
    cases hfrac : zeros m ++ natDigits s with
    | nil => exact absurd (append_eq_nil_iff.1 hfrac).2 (natDigits_ne_nil s)
    | cons d frac => rfl
  have h := readUnsigned_eq (zeros m ++ natDigits s) none hzero hfrac (by simp) hrest
  simp only [htext, exponentText, nil_append, exponentValue] at h
  rw [show '0' :: '.' :: (zeros m ++ natDigits s) ++ rest =
    ['0'] ++ ('.' :: (zeros m ++ natDigits s) ++ rest) by simp, h,
    scientific_eq (show up + (m + (natDigits s).length) = down + 0 by omega)]
  have hlength : (zeros m).length = m := length_replicate
  have hvalue : digitsValue (['0'] ++ (zeros m ++ natDigits s)) = s := by
    rw [digitsValue_append, digitsValue_append, digitsValue_zeros, digitsValue_natDigits,
      show digitsValue ['0'] = 0 from rfl]
    simp
  rw [hvalue, length_append, hlength]
  simp

/-- Exponent notation. -/
theorem readUnsigned_exponent (hs : 0 < s) {e : Int}
    (he : e + 1 + down = (natDigits s).length + up) (hrest : NumberEnds rest) :
    readUnsigned ((natDigits s).take 1 ++
        (if (natDigits s).length = 1 then [] else '.' :: (natDigits s).drop 1) ++
        ['e', if e < 0 then '-' else '+'] ++ natDigits e.natAbs ++ rest) =
      some (scientific s up down, rest) := by
  have hfrac : ∀ c ∈ (natDigits s).drop 1, Js.isDigit c = true :=
    fun c hc => isDigit_natDigits c (mem_of_mem_drop hc)
  have hlength : 0 < (natDigits s).length := length_pos_iff.2 (natDigits_ne_nil s)
  have htext : (if (natDigits s).length = 1 then [] else '.' :: (natDigits s).drop 1) =
      fractionText ((natDigits s).drop 1) := by
    cases hdrop : (natDigits s).drop 1 with
    | nil =>
      rw [drop_eq_nil_iff] at hdrop
      rw [if_pos (by omega)]
      rfl
    | cons d frac =>
      rw [if_neg]
      · rfl
      · intro hone
        rw [drop_eq_nil_of_le (by omega)] at hdrop
        cases hdrop
  have hexponent : ∀ pair ∈ some (decide (e < 0), natDigits e.natAbs),
      pair.2 ≠ [] ∧ ∀ c ∈ pair.2, Js.isDigit c = true := by
    intro pair hpair
    cases hpair
    exact ⟨natDigits_ne_nil _, isDigit_natDigits⟩
  have h := readUnsigned_eq ((natDigits s).drop 1) (some (decide (e < 0), natDigits e.natAbs))
    (intDigits_take hs Nat.one_pos) hfrac hexponent hrest
  rw [take_append_drop, digitsValue_natDigits, length_drop] at h
  rw [htext]
  have hshape : (natDigits s).take 1 ++ fractionText ((natDigits s).drop 1) ++
      ['e', if e < 0 then '-' else '+'] ++ natDigits e.natAbs ++ rest =
      (natDigits s).take 1 ++ (fractionText ((natDigits s).drop 1) ++
        (exponentText (some (decide (e < 0), natDigits e.natAbs)) ++ rest)) := by
    simp [exponentText]
  rw [hshape, h]
  congr 2
  by_cases hneg : e < 0
  · rw [scientific_eq (show up + ((natDigits s).length - 1 + e.natAbs) = down + 0 by omega)]
    simp only [hneg, decide_true, exponentValue, digitsValue_natDigits, pow_add, pow_zero, mul_one]
    rw [div_mul_eq_div_div, div_eq_mul_inv _ ((10 : ℚ) ^ e.natAbs)]
  · rw [scientific_eq (show up + ((natDigits s).length - 1) = down + e.natAbs by omega)]
    simp only [hneg, decide_false, exponentValue, digitsValue_natDigits]
    rw [div_mul_eq_mul_div]

/-- **A printed number is read back.** -/
theorem readUnsigned_positiveToString {q : ℚ} (hq : 0 < q) (hdecimal : isDecimal q = true)
    (hrest : NumberEnds rest) : readUnsigned (positiveToString q ++ rest) = some (q, rest) := by
  obtain ⟨s, up, hs, hdigits, hvalue⟩ := positive_digits hq hdecimal
  unfold positiveToString
  generalize hscaled : scaleUp q.den q 0 = scaled at hdigits hvalue ⊢
  obtain ⟨s₀, down⟩ := scaled
  simp only at hdigits hvalue ⊢
  rw [hdigits, hvalue]
  simp only
  rw [show (toString s).toList = natDigits s from rfl]
  have hlength : 0 < (natDigits s).length := length_pos_iff.2 (natDigits_ne_nil s)
  generalize hn : ((natDigits s).length : Int) + up - down = n
  by_cases hinteger : ((natDigits s).length : Int) ≤ n ∧ n ≤ 21
  · rw [if_pos hinteger]
    exact readUnsigned_integer hs (by omega) hrest
  · rw [if_neg hinteger]
    by_cases hpoint : 0 < n ∧ n ≤ 21
    · rw [if_pos hpoint]
      exact readUnsigned_point hs (by omega) (by omega) (by omega) hrest
    · rw [if_neg hpoint]
      by_cases hsmall : -6 < n ∧ n ≤ 0
      · rw [if_pos hsmall]
        exact readUnsigned_small (by omega) hrest
      · rw [if_neg hsmall]
        exact readUnsigned_exponent hs (by omega) hrest

end BeauPi.Json
