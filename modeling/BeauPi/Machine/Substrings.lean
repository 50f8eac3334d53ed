import Mathlib.Data.List.Infix
import Mathlib.Data.List.Perm.Basic

/-!
# Texts that occur in texts

* `OccursAt`, `indexOf?` — the positions of a text and the first of them.
* `splitText` — the parts between the occurrences that a search from the left finds.
* `two_lt_length_splitText` — how many there are says whether two of them are apart.
* `splice`, `replaceRange` — a text with some of its ranges replaced, at once and one at a time.
* `foldr_replaceRange` — from the last range to the first, both come to the same.
-/

namespace BeauPi.Machine

open List

variable {α : Type} [DecidableEq α]

/-! ## Positions -/

/-- The pattern stands at position `i` of the text. -/
def OccursAt (text pattern : List α) (i : Nat) : Prop := pattern <+: text.drop i

instance (text pattern : List α) (i : Nat) : Decidable (OccursAt text pattern i) :=
  inferInstanceAs (Decidable (pattern <+: text.drop i))

/-- The first position of a pattern. -/
def indexOf? (pattern : List α) : List α → Option Nat
  | [] => if pattern = [] then some 0 else none
  | c :: text => if pattern <+: c :: text then some 0 else (indexOf? pattern text).map (· + 1)

variable {text pattern : List α} {c : α} {i j : Nat}

omit [DecidableEq α] in
/-- A pattern that is not empty does not stand in an empty text. -/
theorem not_occursAt_nil (h : pattern ≠ []) (i : Nat) : ¬OccursAt [] pattern i := by
  intro hoccurs
  rw [OccursAt, drop_nil, prefix_nil] at hoccurs
  exact h hoccurs

omit [DecidableEq α] in
/-- A pattern that occurs lies within the text. -/
theorem OccursAt.add_le (hne : pattern ≠ []) (h : OccursAt text pattern i) :
    i + pattern.length ≤ text.length := by
  have hle := h.length_le
  rw [length_drop] at hle
  have := length_pos_iff.2 hne
  omega

theorem indexOf?_eq_some (h : indexOf? pattern text = some i) :
    OccursAt text pattern i ∧ ∀ j < i, ¬OccursAt text pattern j := by
  induction text generalizing i with
  | nil =>
    unfold indexOf? at h
    split_ifs at h with hempty
    obtain rfl := Option.some.inj h
    exact ⟨by simp [OccursAt, hempty], by omega⟩
  | cons c text ih =>
    unfold indexOf? at h
    split_ifs at h with hhead
    · obtain rfl := Option.some.inj h
      exact ⟨hhead, by omega⟩
    · obtain ⟨k, hk, rfl⟩ := Option.map_eq_some_iff.1 h
      obtain ⟨hoccurs, hfirst⟩ := ih hk
      refine ⟨hoccurs, fun j hj => ?_⟩
      cases j with
      | zero => exact hhead
      | succ j => exact hfirst j (by omega)

theorem indexOf?_eq_none (h : indexOf? pattern text = none) (i : Nat) :
    ¬OccursAt text pattern i := by
  induction text generalizing i with
  | nil =>
    unfold indexOf? at h
    split_ifs at h with hempty
    exact not_occursAt_nil hempty i
  | cons c text ih =>
    unfold indexOf? at h
    split_ifs at h with hhead
    cases i with
    | zero => exact hhead
    | succ i => exact ih (by simpa using h) i

/-- The search finds a pattern exactly if it occurs. -/
theorem indexOf?_isSome_iff : (indexOf? pattern text).isSome = true ↔
    ∃ i, OccursAt text pattern i := by
  cases h : indexOf? pattern text with
  | none => simpa using indexOf?_eq_none h
  | some i => simpa using ⟨i, (indexOf?_eq_some h).1⟩

/-! ## Splitting -/

/-- The parts of a text between the occurrences of a separator that a search from the left
finds; `skip` letters of a separator are still to be left out, and `part` is the part so far. -/
def splitText (separator : List α) : Nat → List α → List α → List (List α)
  | _, part, [] => [part]
  | skip + 1, part, _ :: text => splitText separator skip part text
  | 0, part, c :: text =>
    if separator <+: c :: text then part :: splitText separator (separator.length - 1) [] text
    else splitText separator 0 (part ++ [c]) text

theorem splitText_skip (separator text part : List α) (skip : Nat) :
    splitText separator skip part text = splitText separator 0 part (text.drop skip) := by
  induction text generalizing skip with
  | nil => cases skip <;> rfl
  | cons c text ih =>
    cases skip with
    | zero => rfl
    | succ skip => exact ih skip

/-- A separator at the front is left out. -/
theorem splitText_front (hne : pattern ≠ []) (h : pattern <+: text) (part : List α) :
    splitText pattern 0 part text = part :: splitText pattern 0 [] (text.drop pattern.length) := by
  cases text with
  | nil => exact absurd (prefix_nil.1 h) hne
  | cons c text =>
    obtain ⟨k, hk⟩ : ∃ k, pattern.length = k + 1 :=
      ⟨pattern.length - 1, by have := length_pos_iff.2 hne; omega⟩
    rw [splitText, if_pos h, splitText_skip, hk]
    rfl

theorem length_splitText_pos (pattern part text : List α) :
    1 ≤ (splitText pattern 0 part text).length := by
  induction text generalizing part with
  | nil => simp [splitText]
  | cons c text ih =>
    rw [splitText]
    split_ifs
    · simp
    · exact ih _

/-- There is more than one part exactly if the separator occurs. -/
theorem one_lt_length_splitText (hne : pattern ≠ []) (part text : List α) :
    1 < (splitText pattern 0 part text).length ↔ ∃ i, OccursAt text pattern i := by
  induction text generalizing part with
  | nil => simp [splitText, not_occursAt_nil hne]
  | cons c text ih =>
    by_cases h : pattern <+: c :: text
    · rw [splitText_front hne h]
      have := length_splitText_pos pattern [] ((c :: text).drop pattern.length)
      exact iff_of_true (by rw [length_cons]; omega) ⟨0, h⟩
    · rw [splitText, if_neg h, ih]
      constructor
      · rintro ⟨i, hi⟩
        exact ⟨i + 1, hi⟩
      · rintro ⟨i, hi⟩
        cases i with
        | zero => exact absurd hi h
        | succ i => exact ⟨i, hi⟩

omit [DecidableEq α] in
theorem occursAt_drop {k : Nat} : OccursAt (text.drop k) pattern i ↔
    OccursAt text pattern (k + i) := by
  rw [OccursAt, OccursAt, drop_drop]

/-- **There are more than two parts exactly if the separator occurs twice without overlap.** -/
theorem two_lt_length_splitText (hne : pattern ≠ []) (part : List α) :
    2 < (splitText pattern 0 part text).length ↔
      ∃ i j, OccursAt text pattern i ∧ OccursAt text pattern j ∧ i + pattern.length ≤ j := by
  induction text generalizing part with
  | nil => simp [splitText, not_occursAt_nil hne]
  | cons c text ih =>
    by_cases h : pattern <+: c :: text
    · have hrest := one_lt_length_splitText hne [] ((c :: text).drop pattern.length)
      rw [splitText_front hne h, length_cons, Nat.succ_lt_succ_iff, hrest]
      constructor
      · rintro ⟨i, hi⟩
        exact ⟨0, pattern.length + i, h, occursAt_drop.1 hi, by omega⟩
      · rintro ⟨i, j, -, hj, hij⟩
        refine ⟨j - pattern.length, occursAt_drop.2 ?_⟩
        rwa [Nat.add_sub_cancel' (by omega)]
    · rw [splitText, if_neg h, ih]
      constructor
      · rintro ⟨i, j, hi, hj, hij⟩
        exact ⟨i + 1, j + 1, hi, hj, by omega⟩
      · rintro ⟨i, j, hi, hj, hij⟩
        cases i with
        | zero => exact absurd hi h
        | succ i =>
          cases j with
          | zero => omega
          | succ j => exact ⟨i, j, hi, hj, by omega⟩

/-! ## Splicing -/

/-- A range of a text and what takes its place. -/
structure Splice (α : Type) where
  start : Nat
  length : Nat
  value : List α
  deriving DecidableEq, Repr

/-- The text from a position on, with its ranges replaced. -/
def splice (text : List α) (position : Nat) : List (Splice α) → List α
  | [] => text.drop position
  | range :: ranges =>
    (text.take range.start).drop position ++ range.value ++
      splice text (range.start + range.length) ranges

/-- The text with one range replaced. -/
def replaceRange (range : Splice α) (text : List α) : List α :=
  text.take range.start ++ range.value ++ text.drop (range.start + range.length)

/-- A range that ends before another begins. -/
def Splice.Before (a b : Splice α) : Prop := a.start + a.length ≤ b.start

omit [DecidableEq α] in
theorem take_drop_append {text : List α} {start stop : Nat} (rest : List α) (hle : start ≤ stop)
    (hstop : stop ≤ text.length) :
    (text.take stop ++ rest).take start = text.take start ∧
      (text.take stop ++ rest).drop stop = rest := by
  have hlength : (text.take stop).length = stop := length_take_of_le hstop
  constructor
  · rw [take_append_of_le_length (by omega), take_take, Nat.min_eq_left hle]
  · rw [drop_append_of_le_length (by omega), drop_of_length_le (by omega),
      nil_append]

omit [DecidableEq α] in
/-- **Ranges that are sorted and apart can be replaced one at a time, the last one first.** -/
theorem foldr_replaceRange {ranges : List (Splice α)} {position : Nat}
    (hsorted : ranges.Pairwise Splice.Before)
    (hfrom : ∀ range ∈ ranges, position ≤ range.start)
    (hto : ∀ range ∈ ranges, range.start + range.length ≤ text.length) :
    ranges.foldr replaceRange text = text.take position ++ splice text position ranges := by
  induction ranges generalizing position with
  | nil => exact (take_append_drop position text).symm
  | cons range ranges ih =>
    obtain ⟨hbefore, hsorted⟩ := pairwise_cons.1 hsorted
    have hposition := hfrom range mem_cons_self
    have hstop := hto range mem_cons_self
    have hrest := ih hsorted hbefore fun r hr => hto r (mem_cons_of_mem _ hr)
    obtain ⟨htake, hdrop⟩ := take_drop_append
      (splice text (range.start + range.length) ranges)
      (Nat.le_add_right range.start range.length) hstop
    have hfront : text.take position ++ (text.take range.start).drop position =
        text.take range.start := by
      have := take_append_drop position (text.take range.start)
      rwa [take_take, Nat.min_eq_left hposition] at this
    rw [foldr_cons, hrest, replaceRange, htake, hdrop, splice, ← append_assoc,
      ← append_assoc, hfront]

end BeauPi.Machine
