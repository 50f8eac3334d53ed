import Mathlib.Data.List.Basic

/-!
# Splitting a list at an element

* `splitFirst` — at the first element that passes a test, which may look at what follows.
* `splitLast` — at the last element that passes a test.
* `splitFirst_filter`, `splitLast_filter` — what the test does not see can be left out before or
  after.
-/

namespace BeauPi.Machine

open List

variable {α : Type} {l before after : List α} {x : α}

/-! ## The first element -/

/-- What is before the first element that passes the test, the element, and what is after it. -/
def splitFirst (test : α → List α → Bool) : List α → Option (List α × α × List α)
  | [] => none
  | x :: rest =>
    if test x rest then some ([], x, rest)
    else (splitFirst test rest).map fun parts => (x :: parts.1, parts.2)

variable {test : α → List α → Bool} {keep : α → Bool}

theorem splitFirst_eq_some (h : l = before ++ x :: after) (hx : test x after = true)
    (hbefore : ∀ front y rest, before = front ++ y :: rest →
      test y (rest ++ x :: after) = false) :
    splitFirst test l = some (before, x, after) := by
  induction before generalizing l with
  | nil =>
    rw [h, nil_append, splitFirst, if_pos hx]
  | cons y before ih =>
    have hy := hbefore [] y before rfl
    have hrest := ih rfl fun front z rest hsplit =>
      hbefore (y :: front) z rest (by rw [hsplit]; rfl)
    rw [h, cons_append, splitFirst, hy, hrest]
    rfl

theorem splitFirst_eq_none (h : ∀ front y rest, l = front ++ y :: rest → test y rest = false) :
    splitFirst test l = none := by
  induction l with
  | nil => rfl
  | cons y l ih =>
    have hrest := ih fun front z rest hsplit => h (y :: front) z rest (by rw [hsplit]; rfl)
    rw [splitFirst, h [] y l rfl, hrest]
    rfl

theorem of_splitFirst (h : splitFirst test l = some (before, x, after)) :
    l = before ++ x :: after ∧ test x after = true := by
  induction l generalizing before with
  | nil => cases h
  | cons y l ih =>
    rw [splitFirst] at h
    split_ifs at h with hy
    · obtain ⟨rfl, rfl, rfl⟩ : [] = before ∧ y = x ∧ l = after := by simpa using h
      exact ⟨rfl, hy⟩
    · obtain ⟨⟨front, z, rest⟩, hsplit, heq⟩ := Option.map_eq_some_iff.1 h
      obtain ⟨rfl, rfl, rfl⟩ : y :: front = before ∧ z = x ∧ rest = after := by simpa using heq
      obtain ⟨rfl, hz⟩ := ih hsplit
      exact ⟨rfl, hz⟩

/-- The three parts with elements left out. -/
def filterParts (keep : α → Bool) (parts : List α × α × List α) : List α × α × List α :=
  (parts.1.filter keep, parts.2.1, parts.2.2.filter keep)

/-- **Elements that never pass the test, and of which it takes no notice, can be left out.** -/
theorem splitFirst_filter (hskip : ∀ x rest, keep x = false → test x rest = false)
    (hblind : ∀ x rest, test x (rest.filter keep) = test x rest) (l : List α) :
    splitFirst test (l.filter keep) = (splitFirst test l).map (filterParts keep) := by
  induction l with
  | nil => rfl
  | cons x l ih =>
    cases hkeep : keep x with
    | false =>
      rw [filter_cons_of_neg (by simp [hkeep]), ih, splitFirst, hskip x l hkeep,
        if_neg (by simp)]
      cases splitFirst test l with
      | none => rfl
      | some parts => simp [filterParts, hkeep]
    | true =>
      rw [filter_cons_of_pos hkeep, splitFirst, splitFirst, hblind, ih]
      cases htest : test x l with
      | true => simp [filterParts]
      | false =>
        cases splitFirst test l with
        | none => rfl
        | some parts => simp [filterParts, hkeep]

/-! ## The last element -/

/-- What is before the last element that passes the test, the element, and what is after it. -/
def splitLast (test : α → Bool) : List α → Option (List α × α × List α)
  | [] => none
  | x :: rest =>
    match splitLast test rest with
    | some parts => some (x :: parts.1, parts.2)
    | none => if test x then some ([], x, rest) else none

variable {pass : α → Bool}

theorem splitLast_eq_none_iff : splitLast pass l = none ↔ ∀ y ∈ l, pass y = false := by
  induction l with
  | nil => simp [splitLast]
  | cons x l ih =>
    rw [splitLast, forall_mem_cons, ← ih]
    cases splitLast pass l with
    | some parts => simp
    | none =>
      cases hx : pass x <;> simp

theorem splitLast_eq_some (h : l = before ++ x :: after) (hx : pass x = true)
    (hafter : ∀ y ∈ after, pass y = false) : splitLast pass l = some (before, x, after) := by
  induction before generalizing l with
  | nil =>
    rw [h, nil_append, splitLast, splitLast_eq_none_iff.2 hafter]
    exact if_pos hx
  | cons y before ih =>
    rw [h, cons_append, splitLast, ih rfl]

theorem of_splitLast (h : splitLast pass l = some (before, x, after)) :
    l = before ++ x :: after ∧ pass x = true ∧ ∀ y ∈ after, pass y = false := by
  induction l generalizing before with
  | nil => cases h
  | cons y l ih =>
    rw [splitLast] at h
    cases hrest : splitLast pass l with
    | some parts =>
      obtain ⟨front, z, rest⟩ := parts
      rw [hrest] at h
      obtain ⟨rfl, rfl, rfl⟩ : y :: front = before ∧ z = x ∧ rest = after := by simpa using h
      obtain ⟨rfl, hz, hafter⟩ := ih hrest
      exact ⟨rfl, hz, hafter⟩
    | none =>
      rw [hrest] at h
      have hy : pass y = true ∧ ([], y, l) = (before, x, after) := by simpa using h
      obtain ⟨rfl, rfl, rfl⟩ : [] = before ∧ y = x ∧ l = after := by simpa using hy.2
      exact ⟨rfl, hy.1, splitLast_eq_none_iff.1 hrest⟩

/-- **Elements that never pass the test can be left out.** -/
theorem splitLast_filter (hskip : ∀ x, keep x = false → pass x = false) (l : List α) :
    splitLast pass (l.filter keep) = (splitLast pass l).map (filterParts keep) := by
  cases h : splitLast pass l with
  | none =>
    rw [Option.map_none, splitLast_eq_none_iff]
    exact fun y hy => splitLast_eq_none_iff.1 h y (mem_of_mem_filter hy)
  | some parts =>
    obtain ⟨before, x, after⟩ := parts
    obtain ⟨rfl, hx, hafter⟩ := of_splitLast h
    have hkeep : keep x = true := by
      cases hkeep : keep x with
      | true => rfl
      | false => rw [hskip x hkeep] at hx; cases hx
    refine splitLast_eq_some ?_ hx fun y hy => hafter y (mem_of_mem_filter hy)
    rw [filter_append, filter_cons_of_pos hkeep]

end BeauPi.Machine
